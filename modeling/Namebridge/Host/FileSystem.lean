import Namebridge.Host.Directory
import Namebridge.Host.OsError

/-!
# File systems

A file system is a root directory and the place in it where relative paths start. Paths are followed
name by name, so that `a/..` needs a directory `a`. Failed operations leave everything as it was,
except that directories made on the way to one that cannot be made stay.
-/

namespace Namebridge

/-- All files, and the place where relative paths start. -/
structure FileSystem where
  root : Directory := .empty
  start : List String := []
  isTree : root.IsTree := by decide
deriving DecidableEq

namespace FileSystem

/-- The most bytes that a name may have. -/
def maximumName : Nat := 255

/-- The most bytes that a path may have. -/
def maximumPath : Nat := 4095

/-- Follows one name from a place. -/
def follow (fs : FileSystem) (place : List String) (name : String) :
    Except OsError (List String) :=
  match fs.root.at? place with
  | none => .error .notFound
  | some (.file _) => .error .notADirectory
  | some (.folder inside) =>
      if Path.isBlank name then .ok place
      else if name = ".." then .ok place.dropLast
      else if maximumName < name.utf8ByteSize then .error .nameTooLong
      else match inside.child? name with
        | some _ => .ok (place ++ [name])
        | none => .error .notFound

/-- The names of a path from its start on, if it is fit to be followed at all. -/
def namesOf (p : Path) : Except OsError (List String) :=
  if p.text.toList.any (·.toNat = 0) then .error .nulInPath
  else if p.text = "" then .error .notFound
  else if maximumPath < p.text.utf8ByteSize then .error .nameTooLong
  else .ok (Text.fields '/' p.text)

/-- The place from which a path starts. -/
def startOf (fs : FileSystem) (p : Path) : List String := if p.isAbsolute then [] else fs.start

/-- The place to which a path leads. -/
def resolve (fs : FileSystem) (p : Path) : Except OsError (List String) := do
  (← namesOf p).foldlM fs.follow (fs.startOf p)

/-- What stands where a path leads. -/
def entry (fs : FileSystem) (p : Path) : Except OsError Entry := do
  match fs.root.at? (← fs.resolve p) with
  | some entry => return entry
  | none => throw .notFound

/-- Whether a path leads anywhere. -/
def pathExists (fs : FileSystem) (p : Path) : Bool := (fs.entry p).toOption.isSome

/-- Whether a path leads to a directory. -/
def isDirectory (fs : FileSystem) (p : Path) : Bool :=
  match fs.entry p with
  | .ok (.folder _) => true
  | _ => false

/-- Opens what a path leads to. A directory can be opened like a file, but it cannot be read. -/
def openFile (fs : FileSystem) (p : Path) : Except OsError (Except OsError Bytes) := do
  match ← fs.entry p with
  | .file content => return .ok content
  | .folder _ => return .error .isADirectory

/-- Puts something under a name into the directory to which names lead, if that can be over what is
there. -/
def putAfter (fs : FileSystem) (p : Path) (names : List String) {name : String}
    (hname : Path.Plain name) (new : Standing) (allow : Option Entry → Except OsError Unit) :
    Except OsError FileSystem := do
  let place ← names.foldlM fs.follow (fs.startOf p)
  match fs.root.at? place with
  | some (.folder inside) =>
      if maximumName < name.utf8ByteSize then throw .nameTooLong
      allow (inside.child? name)
      return { fs with
        root := fs.root.putAt name new.bare place
        isTree := fs.isTree.putAt hname (Directory.isTree_bare new) place }
  | some (.file _) => throw .notADirectory
  | none => throw .notFound

/-- Whether a new directory can be over what is there. -/
def folderOver : Option Entry → Except OsError Unit
  | some _ => .error .alreadyExists
  | none => .ok ()

/-- Makes a directory in one that is there. -/
def createDirectory (fs : FileSystem) (p : Path) : Except OsError FileSystem := do
  let names := ((← namesOf p).reverse.dropWhile (· = "")).reverse
  match names.getLast? with
  | none => throw .alreadyExists
  | some name =>
      if hname : Path.Plain name then
        fs.putAfter p names.dropLast hname .folder folderOver
      else
        -- the last name is `.` or `..`
        let _ ← fs.resolve p
        throw .alreadyExists

/-- Whether a file can be over what is there. -/
def fileOver : Option Entry → Except OsError Unit
  | some (.folder _) => .error .isADirectory
  | _ => .ok ()

/-- Makes a file in a directory that is there, or gives a file that is there a new content. -/
def writeFile (fs : FileSystem) (p : Path) (content : Bytes) : Except OsError FileSystem := do
  let names ← namesOf p
  match names.getLast? with
  | none => throw .notFound
  | some name =>
      if hname : Path.Plain name then
        fs.putAfter p names.dropLast hname (.file content) fileOver
      else
        -- the last name is `.` or `..`, or the path ends in a slash
        let _ ← fs.resolve p
        throw .isADirectory

/-- Makes a directory, and before it those that lead to it, up to `depth` of them. -/
def createToDepth : (depth : Nat) → FileSystem → Path → Except OsError Unit × FileSystem
  | depth, fs, p =>
      if p.text = "" then (.ok (), fs)
      else match fs.createDirectory p with
        | .ok made => (.ok (), made)
        | .error error =>
            if error ≠ .notFound then
              (if fs.isDirectory p then .ok () else .error error, fs)
            else match depth, p.parent? with
              | depth + 1, some parent =>
                  match createToDepth depth fs parent with
                  | (.error error, fs) => (.error error, fs)
                  | (.ok (), fs) =>
                      match fs.createDirectory p with
                      | .ok made => (.ok (), made)
                      | .error error =>
                          (if fs.isDirectory p then .ok () else .error error, fs)
              | _, _ => (.error (.other "failed to create whole tree"), fs)

/-- Makes a directory and all that lead to it. One that is there is left as it is. -/
def createDirectories (fs : FileSystem) (p : Path) : Except OsError Unit × FileSystem :=
  createToDepth p.text.length fs p

end FileSystem

end Namebridge
