import Namebridge.CommandLine.Program

/-!
# Running the program

The program on this machine: files are those of the operating system, events are printed when they
are reported, and there is no network, so that all files with mappings have to be in the cache.
-/

namespace Namebridge.CommandLine

/-- Runs on this machine, which show events as the verbosity says. -/
abbrev Console := ReaderT Nat IO

namespace Console

/-- The refusal that an exception stands for. -/
def osError : IO.Error → OsError
  | .noFileOrDirectory .. => .notFound
  | .alreadyExists .. => .alreadyExists
  | .inappropriateType .. => .notADirectory
  | error => .other (toString error)

/-- Catches refusals. -/
def catching {α : Type} (action : IO α) : Console (Except OsError α) := do
  match ← action.toBaseIO with
  | .ok value => return .ok value
  | .error error => return .error (osError error)

/-- Visits all that is below a directory, given its path. A directory that cannot be read is visited,
and refused. -/
partial def visits (directory : Path) : IO (List (Except OsError Visited)) := do
  match ← ((← IO.currentDir) / directory.text).readDir.toBaseIO with
  | .error error => return [.error (osError error)]
  | .ok entries =>
      let mut visited := []
      for entry in entries do
        let path := directory.join entry.fileName
        if ← entry.path.isDir then
          visited := visited ++ .ok ⟨path, .folder⟩ :: (← visits path)
        else
          visited := visited ++ [.ok ⟨path, .file⟩]
      return visited

instance : Host Console where
  openFile p := do
    let place := (← IO.currentDir) / p.text
    if ← place.isDir then
      return .ok (.error .isADirectory)
    match ← catching (IO.FS.readBinFile place) with
    | .ok content => return .ok (.ok content.toList)
    | .error error => return .error error
  pathExists p := do ((← IO.currentDir) / p.text).pathExists
  isDirectory p := do ((← IO.currentDir) / p.text).isDir
  walk p := return .ok ⟨p, .folder⟩ :: (← visits p)
  createDirectories p := do catching (IO.FS.createDirAll ((← IO.currentDir) / p.text))
  writeFile p content := do
    catching (IO.FS.writeBinFile ((← IO.currentDir) / p.text) (ByteArray.mk content.toArray))
  request _ := return .refused
  readers := return .standard
  report event := do
    if shows (← read) event then
      IO.eprintln (eventLine event)

end Console

end Namebridge.CommandLine

open Namebridge.CommandLine in
/-- Runs the program. -/
def main (arguments : List String) : IO UInt32 := do
  let program : Console Outcome := Outcome.ofArguments arguments
  let outcome ← program.run (Transcript.verbosity .standard arguments)
  outcome.output.forM fun line => IO.println line
  outcome.complaints.forM fun line => IO.eprintln line
  return outcome.status.toUInt32
