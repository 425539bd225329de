import Namebridge.Mappings
import Namebridge.Text.Cut
import Namebridge.Text.Line
import Namebridge.Text.Quoted

/-!
# Tables of readable names

The readable names of members come as comma separated tables. The first row is a header. Each other
row starts with the opaque identifier of a member, such as `field_70170_p`, and its readable name;
further columns say nothing here.
-/

namespace Namebridge.ReadableNames

/-- Why a table of readable names cannot be read. -/
inductive Error where
  | noHeader
  | unreadable (line : Nat) (fault : Line.Fault)
  | shortRow (line : Nat) (text : String)
deriving DecidableEq, Repr

/-- What went wrong, the more general first. -/
def Error.trail : Error → List String
  | noHeader => ["no header line"]
  | unreadable line fault => [Line.unreadableMessage line, fault.message]
  | shortRow line text => [s!"expected at least two fields in line {line}: {Text.quoted text}"]

/-- The text of a line. -/
def lineText (line : Line) : Except Error String :=
  line.text.mapError (.unreadable line.number)

/-- The identifier and the name in a row. -/
def parseRow (line : Line) : Except Error (String × String) := do
  let text ← lineText line
  match Text.fields ',' text with
  | id :: name :: _ => return (id, name)
  | _ => throw (.shortRow line.number text)

/-- Reads the lines of a table. The header may say anything, but it has to be there. -/
def ofLines : List Line → Except Error NameTable
  | [] => .error .noHeader
  | header :: rows => do
      let _ ← lineText header
      let entries ← rows.mapM parseRow
      return .ofPairs entries

/-- Reads a table. -/
def read (bytes : Bytes) : Except Error NameTable := ofLines (Line.ofBytes bytes)

end Namebridge.ReadableNames
