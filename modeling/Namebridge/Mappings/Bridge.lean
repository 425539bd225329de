import Namebridge.Event
import Namebridge.Mappings

/-!
# Bridging two naming schemes

The MCP names and the yarn names of a program are both given for its obfuscated names. Two names
belong together if one obfuscated name has them both, and names of one scheme only are left out.
-/

namespace Namebridge

/-- From which naming scheme to which other one names are changed. -/
inductive Direction where
  | mcpToYarn
  | yarnToMcp
deriving DecidableEq, Repr

namespace Direction

/-- The naming scheme that names are changed from. -/
def source : Direction → String
  | mcpToYarn => "mcp"
  | yarnToMcp => "yarn"

/-- The naming scheme that names are changed to. -/
def target : Direction → String
  | mcpToYarn => "yarn"
  | yarnToMcp => "mcp"

end Direction

namespace Mappings

/-- From MCP names to yarn names, given both for obfuscated names. -/
def bridge (mcp yarn : Mappings) : Mappings := mcp.inverse.chain yarn .drop

/-- From the names of one scheme to those of the other, given both for obfuscated names. -/
def bridgeTo (mcp yarn : Mappings) : Direction → Mappings
  | .mcpToYarn => bridge mcp yarn
  | .yarnToMcp => (bridge mcp yarn).inverse

/-- Whether there are as many classes as expected. It is reported if there are fewer. -/
def hasClasses (m : Mappings) (minimum : Nat) : Reporting Bool := do
  if m.classes.size < minimum then
    Reporting.report (.fewClasses m.classes.size minimum)
    return false
  return true

end Mappings

end Namebridge
