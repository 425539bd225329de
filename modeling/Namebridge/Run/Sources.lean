import Namebridge.Host
import Namebridge.Run.Remark

/-!
# Source files

Finds the files that use the names, after checking that all that they are compiled with is there.
-/

namespace Namebridge.Sources

/-- Why source files cannot be found. -/
inductive Error where
  | noClasspathEntry (entry : Path)
  | noRoot (root : Path)
  | notListed (root : Path) (error : OsError)
deriving DecidableEq, Repr

def Error.remarks : Error → List Remark
  | noClasspathEntry entry =>
      [.sentence s!"classpath entry {entry.quoted} doesn't exist"]
  | noRoot root => [.sentence s!"source root {root.quoted} is not a directory"]
  | notListed root error =>
      Remark.sentences [s!"failed to walk {root.quoted}", error.message]

/-- Whether a file is a source file, by its extension. -/
def isSource (file : Path) : Bool := file.extension? == some "java"

variable {m : Type → Type} [Monad m] [Host m]

/-- Refuses the first entry of a classpath that is not there. -/
def checkClasspath (classpath : List Path) : ExceptT Error m Unit :=
  classpath.forM fun entry => do
    unless ← Host.pathExists entry do
      throw (.noClasspathEntry entry)

/-- Whether a walk came to a source file. A directory is none, whatever its name is. -/
def isSourceFile (visited : Visited) : Bool :=
  visited.kind = .file && isSource visited.path

/-- The source files below a directory, if it and all entries of the classpath are there. -/
def find (root : Path) (classpath : List Path) : ExceptT Error m (List Path) := do
  checkClasspath classpath
  unless ← Host.isDirectory root do
    throw (.noRoot root)
  let visits ← MonadExcept.ofExcept
    ((← Host.walk root).mapM fun visit => visit.mapError (.notListed root))
  let sources := (visits.filter isSourceFile).map Visited.path
  Host.report (.sourcesFound sources.length root.text)
  return sources

end Namebridge.Sources
