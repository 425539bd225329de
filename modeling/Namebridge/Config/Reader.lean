import Namebridge.Config
import Namebridge.Json.Expect

/-!
# Configuration files

A configuration file is a JSON object with a member for each part of the configuration, or an array
with the parts in their order. Some parts can be left out, and members that mean nothing here are
skipped.
-/

namespace Namebridge.Config

open Json (Fault)

/-- The parts of a configuration. -/
inductive Part where
  | mcpGameVersion
  | mcpChannel
  | mcpBuild
  | yarnGameVersion
  | yarnBuild
  | mcpSourceCode
  | yarnSourceCode
  | mcpSourceClasspath
  | yarnSourceClasspath
  | mcpToYarn
  | remapClientServerMarker
  | minimumClassCount
deriving DecidableEq

namespace Part

/-- All parts, in their order. -/
def all : List Part :=
  [mcpGameVersion, mcpChannel, mcpBuild, yarnGameVersion, yarnBuild, mcpSourceCode, yarnSourceCode,
    mcpSourceClasspath, yarnSourceClasspath, mcpToYarn, remapClientServerMarker, minimumClassCount]

/-- The name of a part. -/
def name : Part → String
  | mcpGameVersion => "mcpGameVersion"
  | mcpChannel => "mcpChannel"
  | mcpBuild => "mcpBuild"
  | yarnGameVersion => "yarnGameVersion"
  | yarnBuild => "yarnBuild"
  | mcpSourceCode => "mcpSourceCode"
  | yarnSourceCode => "yarnSourceCode"
  | mcpSourceClasspath => "mcpSourceClasspath"
  | yarnSourceClasspath => "yarnSourceClasspath"
  | mcpToYarn => "mcpToYarn"
  | remapClientServerMarker => "remapClientServerMarker"
  | minimumClassCount => "minimumClassCount"

/-- The part of that name. -/
def ofName? (name : String) : Option Part := all.find? fun part => part.name = name

/-- Whether a part can be left out. -/
def isOptional : Part → Bool
  | mcpSourceClasspath | yarnSourceClasspath | mcpToYarn | remapClientServerMarker
  | minimumClassCount => true
  | _ => false

end Part

/-- The parts of a configuration read so far. -/
structure Draft where
  mcpGameVersion : Option String := none
  mcpChannel : Option String := none
  mcpBuild : Option String := none
  yarnGameVersion : Option String := none
  yarnBuild : Option String := none
  mcpSourceCode : Option Path := none
  yarnSourceCode : Option Path := none
  mcpSourceClasspath : Option (List Path) := none
  yarnSourceClasspath : Option (List Path) := none
  mcpToYarn : Option Bool := none
  remapClientServerMarker : Option Bool := none
  minimumClassCount : Option Nat := none

namespace Draft

/-- Whether a part has been read. -/
def has (d : Draft) : Part → Bool
  | .mcpGameVersion => d.mcpGameVersion.isSome
  | .mcpChannel => d.mcpChannel.isSome
  | .mcpBuild => d.mcpBuild.isSome
  | .yarnGameVersion => d.yarnGameVersion.isSome
  | .yarnBuild => d.yarnBuild.isSome
  | .mcpSourceCode => d.mcpSourceCode.isSome
  | .yarnSourceCode => d.yarnSourceCode.isSome
  | .mcpSourceClasspath => d.mcpSourceClasspath.isSome
  | .yarnSourceClasspath => d.yarnSourceClasspath.isSome
  | .mcpToYarn => d.mcpToYarn.isSome
  | .remapClientServerMarker => d.remapClientServerMarker.isSome
  | .minimumClassCount => d.minimumClassCount.isSome

/-- Reads a text. -/
def textPart (bytes : Bytes) : Except Fault (String × Bytes) := Json.expectString "a string" bytes

/-- Reads a path. -/
def pathPart (bytes : Bytes) : Except Fault (Path × Bytes) := do
  let (s, rest) ← Json.expectString "path string" bytes
  return (⟨s⟩, rest)

/-- Reads a list of paths. -/
def pathsPart (bytes : Bytes) : Except Fault (List Path × Bytes) := do
  let (strings, rest) ← Json.expectStrings "path string" bytes
  return (strings.map Path.mk, rest)

/-- Reads the value of a part. -/
def readPart (d : Draft) (part : Part) (bytes : Bytes) : Except Fault (Draft × Bytes) := do
  match part with
  | .mcpGameVersion =>
      let (v, rest) ← textPart bytes
      return ({ d with mcpGameVersion := some v }, rest)
  | .mcpChannel =>
      let (v, rest) ← textPart bytes
      return ({ d with mcpChannel := some v }, rest)
  | .mcpBuild =>
      let (v, rest) ← textPart bytes
      return ({ d with mcpBuild := some v }, rest)
  | .yarnGameVersion =>
      let (v, rest) ← textPart bytes
      return ({ d with yarnGameVersion := some v }, rest)
  | .yarnBuild =>
      let (v, rest) ← textPart bytes
      return ({ d with yarnBuild := some v }, rest)
  | .mcpSourceCode =>
      let (v, rest) ← pathPart bytes
      return ({ d with mcpSourceCode := some v }, rest)
  | .yarnSourceCode =>
      let (v, rest) ← pathPart bytes
      return ({ d with yarnSourceCode := some v }, rest)
  | .mcpSourceClasspath =>
      let (v, rest) ← pathsPart bytes
      return ({ d with mcpSourceClasspath := some v }, rest)
  | .yarnSourceClasspath =>
      let (v, rest) ← pathsPart bytes
      return ({ d with yarnSourceClasspath := some v }, rest)
  | .mcpToYarn =>
      let (v, rest) ← Json.expectBool bytes
      return ({ d with mcpToYarn := some v }, rest)
  | .remapClientServerMarker =>
      let (v, rest) ← Json.expectBool bytes
      return ({ d with remapClientServerMarker := some v }, rest)
  | .minimumClassCount =>
      let (v, rest) ← Json.expectCount bytes
      return ({ d with minimumClassCount := some v }, rest)

/-- The value of a part that cannot be left out. -/
def required {α : Type} (part : Part) : Option α → Except Fault α
  | some v => .ok v
  | none => .error (.mismatch (.missing part.name))

/-- The configuration, if no part is missing. The first one that is missing is the fault. -/
def finish (d : Draft) : Except Fault Config := do
  let config : Config := {
    mcpGameVersion := ← required .mcpGameVersion d.mcpGameVersion
    mcpChannel := ← required .mcpChannel d.mcpChannel
    mcpBuild := ← required .mcpBuild d.mcpBuild
    yarnGameVersion := ← required .yarnGameVersion d.yarnGameVersion
    yarnBuild := ← required .yarnBuild d.yarnBuild
    mcpSourceCode := ← required .mcpSourceCode d.mcpSourceCode
    yarnSourceCode := ← required .yarnSourceCode d.yarnSourceCode }
  return { config with
    mcpSourceClasspath := d.mcpSourceClasspath.getD config.mcpSourceClasspath
    yarnSourceClasspath := d.yarnSourceClasspath.getD config.yarnSourceClasspath
    direction := match d.mcpToYarn with
      | some false => .yarnToMcp
      | _ => .mcpToYarn
    remapClientServerMarker := d.remapClientServerMarker.getD config.remapClientServerMarker
    minimumClassCount := d.minimumClassCount.getD config.minimumClassCount }

end Draft

/-- Reads the members of an object, of which there are at most `steps`. -/
def readMembers :
    (steps : Nat) → (first : Bool) → Draft → Bytes → Except Fault (Draft × Bytes)
  | 0, _, _, _ => .error .truncated
  | steps + 1, first, d, bytes => do
      match ← Json.nextMember first bytes with
      | none => return (d, bytes)
      | some (name, bytes) =>
          match Part.ofName? name with
          | none =>
              let rest ← Json.skipValue (← Json.memberColon bytes)
              readMembers steps false d rest
          | some part =>
              if d.has part then throw (.mismatch (.duplicate name))
              let (d, rest) ← d.readPart part (← Json.memberColon bytes)
              readMembers steps false d rest

/-- What a configuration is called in faults. -/
def kind : String := "struct Config"

/-- Reads the parts of an array, the first of which has the position `index`. -/
def readElements : (parts : List Part) → (index : Nat) → Draft → Bytes →
    Except Fault (Draft × Bytes)
  | [], _, d, bytes => .ok (d, bytes)
  | part :: later, index, d, bytes => do
      match ← Json.nextElement (index = 0) bytes with
      | some bytes =>
          let (d, rest) ← d.readPart part bytes
          readElements later (index + 1) d rest
      | none =>
          match (part :: later).findIdx? fun part => !part.isOptional with
          | none => return (d, bytes)
          | some ahead =>
              throw (.mismatch
                (.tooShort (index + ahead) s!"{kind} with {Part.all.length} elements"))

/-- Reads a configuration from the start of the bytes that are left. -/
def readValue (bytes : Bytes) : Except Fault (Config × Bytes) :=
  match Json.skipBlanks bytes with
  | [] => .error .truncated
  | b :: rest =>
      if b = Json.code '{' then do
        let (d, rest) ← readMembers rest.length true {} rest
        let config ← d.finish
        return (config, ← Json.closeObject rest)
      else if b = Json.code '[' then do
        let (d, rest) ← readElements Part.all 0 {} rest
        let config ← d.finish
        return (config, ← Json.closeArray rest)
      else .error (Json.mismatch kind bytes)

/-- Reads the content of a configuration file. -/
def read (bytes : Bytes) : Except Fault Config := do
  let (config, rest) ← readValue bytes
  Json.closeText rest
  return config

/-- Reads a configuration file that was opened but can be unreadable. -/
def ofContent : Except OsError Bytes → Except Fault Config
  | .ok bytes => read bytes
  | .error error => .error (.unreadable error)

end Namebridge.Config
