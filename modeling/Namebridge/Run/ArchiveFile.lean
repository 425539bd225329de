import Namebridge.Host
import Namebridge.Run.Remark

/-!
# Files in archives

Takes the content of a single entry out of an archive file.
-/

namespace Namebridge.ArchiveFile

/-- Why an entry of an archive file cannot be had. -/
inductive Error where
  | notOpened (archive : Path) (error : OsError)
  | notAnArchive (archive : Path) (fault : Archive.Fault)
  | noEntry (entry : String) (archive : Path) (fault : Archive.Fault)
  | notRead (entry : String) (archive : Path) (fault : Archive.Fault)
deriving DecidableEq, Repr

def Error.remarks : Error → List Remark
  | notOpened archive error =>
      Remark.sentences [s!"failed to open {archive.quoted}", error.message]
  | notAnArchive archive fault =>
      [.sentence s!"{archive.quoted} is not a zip file, try to delete it from the cache",
        .archive fault]
  | noEntry entry archive fault =>
      [.sentence s!"cannot find {Text.quoted entry} in {archive.quoted}", .archive fault]
  | notRead entry archive fault =>
      [.sentence s!"failed to read {Text.quoted entry} from {archive.quoted}", .archive fault]

variable {m : Type → Type} [Monad m] [Host m]

/-- The content of an entry of an archive file. -/
def extract (archive : Path) (entry : String) : ExceptT Error m Bytes := do
  match ← Host.openFile archive with
  | .error error => throw (.notOpened archive error)
  | .ok content =>
      let opened ← MonadExcept.ofExcept
        (((← Host.readers).archive content).mapError (.notAnArchive archive))
      let found ← MonadExcept.ofExcept ((opened entry).mapError (.noEntry entry archive))
      MonadExcept.ofExcept (found.mapError (.notRead entry archive))

end Namebridge.ArchiveFile
