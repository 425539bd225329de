import Namebridge.Host.Path
import Namebridge.Mappings.Bridge

/-!
# Configurations

A configuration says which versions of the mappings to take, where the sources are that use the
names, and in which direction names are changed. All that follows from it alone is here too: the
URLs of the files with the mappings, and the place where files are cached.
-/

namespace Namebridge

/-- The name of the program. -/
def programName : String := "devoldefy"

/-- What a run is asked to do. -/
structure Config where
  mcpGameVersion : String
  mcpChannel : String
  mcpBuild : String
  yarnGameVersion : String
  yarnBuild : String
  mcpSourceCode : Path
  yarnSourceCode : Path
  mcpSourceClasspath : List Path := []
  yarnSourceClasspath : List Path := []
  direction : Direction := .mcpToYarn
  /-- Whether the annotations that mark code for one side of the game are bridged too. -/
  remapClientServerMarker : Bool := true
  /-- With fewer classes than these, the mappings are taken to be incomplete. -/
  minimumClassCount : Nat := 2000
deriving DecidableEq

namespace Config

/-- The directory with the sources that use the names to be changed. -/
def sourceRoot (c : Config) : Path :=
  match c.direction with
  | .mcpToYarn => c.mcpSourceCode
  | .yarnToMcp => c.yarnSourceCode

/-- The directory for the sources with changed names. -/
def targetRoot (c : Config) : Path :=
  match c.direction with
  | .mcpToYarn => c.yarnSourceCode
  | .yarnToMcp => c.mcpSourceCode

/-- What the sources are compiled with. -/
def classpath (c : Config) : List Path :=
  match c.direction with
  | .mcpToYarn => c.mcpSourceClasspath
  | .yarnToMcp => c.yarnSourceClasspath

/-- The archive with the readable names of fields and methods. -/
def mcpNamesUrl (c : Config) : String :=
  s!"http://export.mcpbot.bspk.rs/mcp_{c.mcpChannel}_nodoc/{c.mcpBuild}-{c.mcpGameVersion}/"
    ++ s!"mcp_{c.mcpChannel}_nodoc-{c.mcpBuild}-{c.mcpGameVersion}.zip"

/-- The mappings from obfuscated names to class names and identifiers of members. They are those for
the game version of yarn, because both mappings have to speak of the same obfuscated names. -/
def tsrgUrl (c : Config) : String :=
  "https://raw.githubusercontent.com/MinecraftForge/MCPConfig/master/versions/"
    ++ s!"{c.yarnGameVersion}/joined.tsrg"

/-- The archive with the mappings from obfuscated names to yarn names. -/
def yarnUrl (c : Config) : String :=
  s!"http://maven.modmuss50.me/net/fabricmc/yarn/{c.yarnGameVersion}+build.{c.yarnBuild}/"
    ++ s!"yarn-{c.yarnGameVersion}+build.{c.yarnBuild}.jar"

/-- The directory for cached files if none is given: it stands next to the configuration file and
is named after it. -/
def defaultCache (file : Path) : Path :=
  file.withFileName ((file.stem?.getD programName) ++ "_cache")

end Config

end Namebridge
