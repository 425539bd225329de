import Namebridge.Host
import Namebridge.Mappings.Listing
import Namebridge.Run.Remark

/-!
# Listing files

Writes the listings of a mapping, one file for each of its tables.
-/

namespace Namebridge.ListingFile

/-- Why listings cannot be written. -/
inductive Error where
  | noDirectory (directory : Path) (error : OsError)
  | notWritten (path : Path) (error : OsError)
deriving DecidableEq, Repr

def Error.remarks : Error → List Remark
  | noDirectory directory error =>
      Remark.sentences [s!"failed to create directory {directory.quoted}", error.message]
  | notWritten path error =>
      Remark.sentences [s!"failed to create {path.quoted}", error.message]

/-- The tables of a mapping, under the names of their files. -/
def tables (mappings : Mappings) : List (String × NameTable) :=
  [("classes.txt", mappings.classes), ("fields.txt", mappings.fields),
    ("methods.txt", mappings.methods)]

variable {m : Type → Type} [Monad m] [Host m]

/-- Writes the listing of a table to a file. -/
def writeTable (path : Path) (table : NameTable) : ExceptT Error m Unit := do
  if let .error error ← Host.writeFile path (Utf8.encode table.listing) then
    throw (.notWritten path error)
  Host.report (.listed table.size path.text)

/-- Writes the listings of a mapping to a directory, which is made if it is not there. -/
def writeAll (directory : Path) (mappings : Mappings) : ExceptT Error m Unit := do
  if let .error error ← Host.createDirectories directory then
    throw (.noDirectory directory error)
  (tables mappings).forM fun (name, table) => writeTable (directory.join name) table

end Namebridge.ListingFile
