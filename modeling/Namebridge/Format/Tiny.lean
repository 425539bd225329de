import Namebridge.Mappings.Declaration
import Namebridge.Event
import Namebridge.Text.Line

/-!
# The tiny format

A table with tab separated columns that gives each symbol a name in several naming schemes. The
header names the schemes after its first column. A class row has one name per scheme after its
tag. A field or method row first has the class it belongs to and the descriptor, both in the first
scheme, and then one name per scheme. Rows with other tags say nothing here.
-/

namespace Namebridge.Tiny

/-- The row lacks a column that is needed. -/
structure Fault where
  needed : Nat
  present : Nat
deriving DecidableEq, Repr

def Fault.message (fault : Fault) : String :=
  s!"expected at least {fault.needed} fields, got {fault.present}"

/-- Why a file cannot be read. -/
inductive Error where
  | noHeader
  | unreadable (line : Nat) (fault : Line.Fault)
  | noScheme (line : Nat) (scheme : String) (present : List String)
  | badLine (line : Nat) (text : String) (fault : Fault)
  | badDescriptor (error : Declaration.BadDescriptor)
deriving DecidableEq, Repr

/-- What went wrong, the more general first. -/
def Error.trail : Error → List String
  | noHeader => ["no header line"]
  | unreadable line fault => [Line.unreadableMessage line, fault.message]
  | noScheme line scheme present =>
      [s!"cannot find namespace {Text.quoted scheme} in header line {line}, "
        ++ s!"only got {Text.quotedList present}"]
  | badLine line text fault =>
      [s!"invalid tiny line {Text.quoted text} in line {line}", fault.message]
  | badDescriptor error => error.trail

/-- The positions of the source and the target scheme among the schemes of the header. -/
structure Columns where
  source : Nat
  target : Nat
deriving DecidableEq, Repr

/-- The part of a row that counts, for a source and a target scheme. -/
inductive Row where
  | classNamed (source target : String)
  | field (owner source target : String)
  | method (owner descriptor source target : String)
  | other
deriving DecidableEq, Repr

/-- The text of a line. -/
def lineText (line : Line) : Except Error String :=
  line.text.mapError (.unreadable line.number)

/-- The position of a scheme in the header. Its first column names none. -/
def findScheme (header : Line) (text scheme : String) : Except Error Nat :=
  let schemes := (Text.fields '\t' text).drop 1
  match schemes.idxOf? scheme with
  | some column => .ok column
  | none => .error (.noScheme header.number scheme schemes)

/-- The positions of the two schemes in the header. -/
def parseHeader (header : Line) (source target : String) : Except Error Columns := do
  let text ← lineText header
  let sourceColumn ← findScheme header text source
  let targetColumn ← findScheme header text target
  return ⟨sourceColumn, targetColumn⟩

/-- The field of a row at an index. -/
def column (fields : List String) (index : Nat) : Except Fault String :=
  match fields[index]? with
  | some field => .ok field
  | none => .error ⟨index + 1, fields.length⟩

/-- Reads a row. One column comes before the names of a class, three before those of a member. -/
def parseRow (columns : Columns) (text : String) : Except Fault Row := do
  let fields := Text.fields '\t' text
  match fields.head? with
  | some "CLASS" =>
      let source ← column fields (columns.source + 1)
      let target ← column fields (columns.target + 1)
      return .classNamed source target
  | some "FIELD" =>
      let owner ← column fields 1
      let source ← column fields (columns.source + 3)
      let target ← column fields (columns.target + 3)
      return .field owner source target
  | some "METHOD" =>
      let owner ← column fields 1
      let descriptor ← column fields 2
      let source ← column fields (columns.source + 3)
      let target ← column fields (columns.target + 3)
      return .method owner descriptor source target
  | _ => return .other

/-- Reads the line of a row. -/
def readRow (columns : Columns) (line : Line) : Except Error Row := do
  let text ← lineText line
  (parseRow columns text).mapError (.badLine line.number text)

/-- The rows so far: the classes they name, and what they declare, the latest first. -/
structure Progress where
  classes : NameTable := .empty
  declared : List Declaration := []

/-- The class that owns a member, with the counterpart that a row so far gives it. -/
def Progress.ownerPair (progress : Progress) (owner : String) : ClassPair :=
  ⟨owner, progress.classes.rename owner⟩

/-- Goes on with one more row. -/
def Progress.add (progress : Progress) : Row → Progress
  | .classNamed source target =>
      { classes := progress.classes.insert source target
        declared := .classNamed ⟨source, target⟩ :: progress.declared }
  | .field owner source target =>
      { progress with
        declared := .field (progress.ownerPair owner) source target :: progress.declared }
  | .method owner descriptor source target =>
      { progress with
        declared := .method (progress.ownerPair owner) source descriptor target
          :: progress.declared }
  | .other => progress

/-- What the rows declare. -/
def declarations (rows : List Row) : List Declaration :=
  (rows.foldl Progress.add {}).declared.reverse

/-- Reads the lines of a file, from a source scheme to a target scheme. A bad line is found before
a bad descriptor. -/
def ofLines (source target : String) : List Line → Except Error Mappings
  | [] => .error .noHeader
  | header :: lines => do
      let columns ← parseHeader header source target
      let rows ← lines.mapM (readRow columns)
      (Mappings.ofDeclarations (declarations rows)).mapError .badDescriptor

/-- Reads a file, from a source scheme to a target scheme. -/
def read (source target : String) (bytes : Bytes) : Except Error Mappings :=
  ofLines source target (Line.ofBytes bytes)

/-- The report that a file was read. -/
def readEvent (m : Mappings) : Event :=
  .tinyRead m.classes.size m.fields.size m.methods.size

/-- Reports that a file was read, if it could be. -/
def reporting (result : Except Error Mappings) : Reporting (Except Error Mappings) := do
  match result with
  | .ok m => Reporting.report (readEvent m)
  | .error _ => pure ()
  return result

end Namebridge.Tiny
