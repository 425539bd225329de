import Namebridge.Mappings
import Namebridge.Event

/-!
# Class patches

Some classes are known to neither table, because each modding tool brings its own. A patch gives
such a class an entry under a made up name; patching both tables under the same made up names
bridges these classes too.
-/

namespace Namebridge

/-- Class names with the counterparts that a table is to give them, the last one counting. -/
structure ClassPatch where
  entries : List (String × String)
deriving DecidableEq

namespace ClassPatch

/-- Adds an entry, and reports if it replaces one. -/
def addEntry (classes : NameTable) (entry : String × String) : Reporting NameTable := do
  match classes.get? entry.1 with
  | some old => Reporting.report (.patched entry.1 old entry.2)
  | none => pure ()
  return classes.insert entry.1 entry.2

/-- Adds the entries to the classes of a mapping. -/
def apply (patch : ClassPatch) (m : Mappings) : Reporting Mappings := do
  let classes ← patch.entries.foldlM addEntry m.classes
  return { m with classes }

/-- The annotations by which forge marks code for one side of the game only. -/
def forgeSideMarkers : ClassPatch :=
  ⟨[("O_O", "net/minecraftforge/api/distmarker/OnlyIn"),
    ("o_o", "net/minecraftforge/api/distmarker/Dist")]⟩

/-- The annotations by which fabric marks code for one side of the game only. -/
def fabricSideMarkers : ClassPatch :=
  ⟨[("O_O", "net/fabricmc/api/Environment"), ("o_o", "net/fabricmc/api/EnvType")]⟩

end ClassPatch

end Namebridge
