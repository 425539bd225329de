import Namebridge.Host
import Namebridge.Run.Remark
import Namebridge.Text.Cut

/-!
# Cached downloads

Files are downloaded into one directory, each under the name that its URL ends in, and a file that
is there is not downloaded again. A file is only made when its whole content has arrived, so that
no failed download is ever taken for a file.
-/

namespace Namebridge.Cache

/-- Why a file cannot be had. -/
inductive Error where
  | noFileName (url : String)
  | noDirectory (directory : Path) (error : OsError)
  | refused
  | badStatus (status : Nat) (url : String)
  | cutShort (url : String)
  | notWritten (size : Nat) (url : String) (path : Path) (error : OsError)
deriving DecidableEq, Repr

def Error.remarks : Error → List Remark
  | noFileName url => [.sentence s!"url {Text.quoted url} doesn't end in a file name"]
  | noDirectory directory error =>
      Remark.sentences [s!"failed to create cache directory {directory.quoted}", error.message]
  | refused => [.network]
  | badStatus status url =>
      [.sentence ("Got a \"" ++ Status.describe status ++ s!"\" for {Text.quoted url}")]
  | cutShort url => [.sentence s!"failed to download {Text.quoted url}", .network]
  | notWritten size url path error =>
      let target := s!"{Text.quoted url} to {path.quoted}"
      Remark.sentences [s!"failed to write {size} bytes from {target}", error.message]

/-- The name under which the file of a URL is kept. -/
def fileName? (url : String) : Option String :=
  match Text.cutLast? '/' url with
  | none | some (_, "") => none
  | some (_, name) => some name

/-- Where the file of a URL is kept. -/
def place? (directory : Path) (url : String) : Option Path := (fileName? url).map directory.join

/-- The whole content of a successful answer. -/
def body (url : String) : Exchange → Except Error Bytes
  | .refused => .error .refused
  | .answered status body =>
      if Status.isSuccess status then
        match body with
        | some content => .ok content
        | none => .error (.cutShort url)
      else .error (.badStatus status url)

variable {m : Type → Type} [Monad m] [Host m]

/-- Downloads the file of a URL to a path in the cache directory. -/
def download (directory : Path) (url : String) (path : Path) : ExceptT Error m Unit := do
  Host.report (.downloading url)
  if let .error error ← Host.createDirectories directory then
    throw (.noDirectory directory error)
  let content ← MonadExcept.ofExcept (body url (← Host.request url))
  if let .error error ← Host.writeFile path content then
    throw (.notWritten content.length url path error)

/-- The path of the file of a URL, which is downloaded if it is not there yet. -/
def fetch (directory : Path) (url : String) : ExceptT Error m Path := do
  let some path := place? directory url | throw (.noFileName url)
  if ← Host.pathExists path then
    Host.report (.cacheHit path.text url)
  else
    download directory url path
  return path

end Namebridge.Cache
