import Namebridge.Mappings.ClassPatch
import Namebridge.Run.Failure

/-!
# Bridging

Fetches the mappings that a configuration asks for, reads them, and makes of both the mapping from
the names of one scheme to those of the other.
-/

namespace Namebridge

/-- Both given mappings, and the mapping that is made of them. -/
structure Bridging where
  mcp : Mappings
  yarn : Mappings
  /-- From the names that the configuration starts from to those that it asks for. -/
  mappings : Mappings
deriving DecidableEq

namespace Bridging

variable {m : Type → Type} [Monad m] [Host m]

/-- Does what can fail, as a part of a run. -/
def attempt {ε α : Type} (failure : ε → Failure) (action : ExceptT ε m α) :
    ExceptT Failure m α :=
  ExceptT.adapt failure action

/-- Takes a result that can be a failure, as a part of a run. -/
def settle {ε α : Type} (failure : ε → Failure) (result : Except ε α) : ExceptT Failure m α :=
  MonadExcept.ofExcept (result.mapError failure)

/-- Reads the configuration in a file. -/
def readConfig (file : Path) : ExceptT Failure m Config := do
  match ← Host.openFile file with
  | .error error => throw (.noConfig file error)
  | .ok content => settle (.badConfig file) ((← Host.readers).config content)

/-- The file of a URL, from the cache. -/
def fetch (cache : Path) (url : String) : ExceptT Failure m Path :=
  attempt .cache (Cache.fetch cache url)

/-- The entry of an archive with readable names of fields. -/
def fieldNames : String := "fields.csv"

/-- The entry of an archive with readable names of methods. -/
def methodNames : String := "methods.csv"

/-- The entry of an archive with mappings in tiny format. -/
def tinyEntry : String := "mappings/mappings.tiny"

/-- Reads a table of readable names in an archive. -/
def readNames (archive : Path) (entry : String) : ExceptT Failure m NameTable := do
  let content ← attempt .archiveFile (ArchiveFile.extract archive entry)
  settle (.names entry) (ReadableNames.read content)

/-- Reads the mappings from obfuscated names to MCP names. -/
def readMcp (config : Config) (cache : Path) : ExceptT Failure m Mappings := do
  let names ← fetch cache config.mcpNamesUrl
  let tsrg ← fetch cache config.tsrgUrl
  let fields ← readNames names fieldNames
  let methods ← readNames names methodNames
  attempt .mappingFile (MappingFile.readTsrg { fields, methods } tsrg)

/-- Reads the mappings from obfuscated names to yarn names. -/
def readYarn (config : Config) (cache : Path) : ExceptT Failure m Mappings := do
  let archive ← fetch cache config.yarnUrl
  let content ← attempt .archiveFile (ArchiveFile.extract archive tinyEntry)
  let result ← Host.announce (Tiny.reporting (Tiny.read "official" "named" content))
  settle (.tiny tinyEntry archive) result

/-- Bridges both given mappings, after patching them if the configuration says so. -/
def ofMappings (config : Config) (mcp yarn : Mappings) : Reporting Bridging := do
  Reporting.report (.bothRead mcp.classes.size yarn.classes.size)
  let (mcp, yarn) ←
    if config.remapClientServerMarker then
      pure (← ClassPatch.forgeSideMarkers.apply mcp, ← ClassPatch.fabricSideMarkers.apply yarn)
    else pure (mcp, yarn)
  let mappings := mcp.bridgeTo yarn config.direction
  let _ ← mappings.hasClasses config.minimumClassCount
  return { mcp, yarn, mappings }

/-- Does all that a configuration asks for, with files cached in the given directory. -/
def ofConfig (config : Config) (cache : Path) : ExceptT Failure m Bridging := do
  let mcp ← readMcp config cache
  let yarn ← readYarn config cache
  Host.announce (ofMappings config mcp yarn)

/-- The mappings to list, under the names of their directories. -/
def listed (b : Bridging) : List (String × Mappings) :=
  [("chained_mapping", b.mappings), ("mcp", b.mcp), ("yarn", b.yarn)]

/-- Writes listings of all mappings into the cache. -/
def writeListings (b : Bridging) (cache : Path) : ExceptT Failure m Unit :=
  b.listed.forM fun (name, mappings) =>
    attempt .listingFile (ListingFile.writeAll (cache.join name) mappings)

end Bridging

end Namebridge
