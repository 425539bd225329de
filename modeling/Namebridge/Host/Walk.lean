import Namebridge.Host.FileSystem

/-!
# Walks

A walk visits a directory and all that is below it, one after the other. It says of each whether it
is a file or a directory, and it can fail on the way. In which order it visits them is up to the
walk; `FileSystem.walk` is one that takes each directory before what is in it.
-/

namespace Namebridge

/-- What was found to be at a path. -/
inductive Kind where
  | file
  | folder
deriving DecidableEq, Repr

/-- What a walk comes to. -/
structure Visited where
  path : Path
  kind : Kind
deriving DecidableEq, Repr

/-- Walks from a path of a file system on. What could not be visited is a refusal. -/
abbrev Walk := FileSystem → Path → List (Except OsError Visited)

/-- All that is below a directory, given its own path. -/
def Directory.visits (base : Path) : Directory → List Visited
  | empty => []
  | file name _ rest => ⟨base.join name, .file⟩ :: rest.visits base
  | folder name inside rest =>
      ⟨base.join name, .folder⟩ :: (inside.visits (base.join name) ++ rest.visits base)

/-- The walk that takes all entries in the order in which they were made, and each directory before
what is in it. -/
def FileSystem.walk : Walk := fun fs root =>
  match fs.entry root with
  | .error error => [.error error]
  | .ok (.file _) => [.ok ⟨root, .file⟩]
  | .ok (.folder inside) => (⟨root, .folder⟩ :: inside.visits root).map Except.ok

end Namebridge
