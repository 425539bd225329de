import Namebridge.Format.ReadableNames
import Namebridge.Format.Tiny
import Namebridge.Format.Tsrg
import Namebridge.Host
import Namebridge.Run.Remark

/-!
# Files of mappings

Reads files in the three formats. A file that cannot be opened is reported by the refusal alone, and
any other fault under the name of the file.
-/

namespace Namebridge.MappingFile

/-- Why a file cannot be read. -/
inductive Error where
  | notOpened (error : OsError)
  | names (path : Path) (error : ReadableNames.Error)
  | tsrg (path : Path) (error : Tsrg.Error)
  | tiny (path : Path) (error : Tiny.Error)
deriving DecidableEq, Repr

def Error.remarks : Error → List Remark
  | notOpened error => [.sentence error.message]
  | names path error =>
      Remark.sentences (s!"failed to read name overlay {path.quoted}" :: error.trail)
  | tsrg path error =>
      Remark.sentences (s!"failed to read mappings file {path.quoted} as tsrg file" :: error.trail)
  | tiny path error =>
      Remark.sentences (s!"failed to read mappings file {path.quoted} as tiny file" :: error.trail)

variable {m : Type → Type} [Monad m] [Host m]

/-- The lines of a file. -/
def lines (path : Path) : ExceptT Error m (List Line) := do
  match ← Host.openFile path with
  | .error error => throw (.notOpened error)
  | .ok content => return Line.ofContent content

/-- Reads a table of readable names. -/
def readNames (path : Path) : ExceptT Error m NameTable := do
  MonadExcept.ofExcept ((ReadableNames.ofLines (← lines path)).mapError (.names path))

/-- Reads a file in TSRG format. -/
def readTsrg (memberNames : Tsrg.MemberNames) (path : Path) : ExceptT Error m Mappings := do
  MonadExcept.ofExcept ((Tsrg.ofLines memberNames (← lines path)).mapError (.tsrg path))

/-- Reads a file in tiny format. -/
def readTiny (source target : String) (path : Path) : ExceptT Error m Mappings := do
  let result ← Host.announce (Tiny.reporting (Tiny.ofLines source target (← lines path)))
  MonadExcept.ofExcept (result.mapError (.tiny path))

end Namebridge.MappingFile
