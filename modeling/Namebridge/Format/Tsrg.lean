import Namebridge.Mappings.Declaration
import Namebridge.Text.Line

/-!
# The TSRG format

A line without indentation names a class and its counterpart. The lines below it, each indented by
one tab, are the members of the class: `name counterpart` for a field, and
`name descriptor counterpart` for a method. Single spaces separate the words of a line.

The counterparts of members can be opaque identifiers, for which there are tables of readable names.
-/

namespace Namebridge.Tsrg

/-- The readable names of fields and of methods. -/
structure MemberNames where
  fields : NameTable := .empty
  methods : NameTable := .empty
deriving DecidableEq

/-- What is wrong with a line. -/
inductive Fault where
  | memberOutsideClass
  | classWords (words : List String)
  | memberWords (words : List String)
deriving DecidableEq, Repr

def Fault.message : Fault → String
  | memberOutsideClass => "member line is not in a class"
  | classWords words =>
      s!"illegal number of arguments ({words.length}) for class mapping, expected 2, "
        ++ s!"got {Text.quotedList words}"
  | memberWords words =>
      s!"illegal number of arguments ({words.length}) for member mapping, expected 2 or 3, "
        ++ s!"got {Text.quotedList words}"

/-- Why a file cannot be read. -/
inductive Error where
  | unreadable (line : Nat) (fault : Line.Fault)
  | badLine (line : Nat) (text : String) (fault : Fault)
  | badDescriptor (error : Declaration.BadDescriptor)
deriving DecidableEq, Repr

/-- What went wrong, the more general first. -/
def Error.trail : Error → List String
  | unreadable line fault => [Line.unreadableMessage line, fault.message]
  | badLine line text fault =>
      [s!"invalid tsrg line {Text.quoted text} in line {line}", fault.message]
  | badDescriptor error => error.trail

/-- A word is not empty, and it has no tab, which would mean a deeper indentation. -/
def isWord (s : String) : Bool := !s.isEmpty && !s.toList.contains '\t'

/-- A descriptor starts with its parameters. It may be followed by anything. -/
def isDescriptor (s : String) : Bool := s.toList.head? == some '('

/-- Reads a line without indentation. -/
def parseClass (text : String) : Except Fault Declaration :=
  match Text.fields ' ' text with
  | [source, target] =>
      if isWord source && isWord target then .ok (.classNamed ⟨source, target⟩)
      else .error (.classWords [source, target])
  | words => .error (.classWords words)

/-- Reads what follows the tab in the line of a member. -/
def parseMember (names : MemberNames) (owner : ClassPair) (text : String) :
    Except Fault Declaration :=
  match Text.fields ' ' text with
  | [source, target] =>
      if isWord source && isWord target then
        .ok (.field owner source (names.fields.rename target))
      else .error (.memberWords [source, target])
  | [source, descriptor, target] =>
      if isWord source && isDescriptor descriptor && isWord target then
        .ok (.method owner source descriptor (names.methods.rename target))
      else .error (.memberWords [source, descriptor, target])
  | words => .error (.memberWords words)

/-- Reads a line that follows the members of `owner?`, if there is a class already. -/
def parseLine (names : MemberNames) (owner? : Option ClassPair) (text : String) :
    Except Fault Declaration :=
  match text.toList, owner? with
  | '\t' :: _, none => .error .memberOutsideClass
  | '\t' :: member, some owner => parseMember names owner (String.ofList member)
  | _, _ => parseClass text

/-- Reads one more line after the declarations so far, the latest of which comes first. -/
def readLine (names : MemberNames) (declared : List Declaration) (line : Line) :
    Except Error (List Declaration) := do
  let text ← line.text.mapError (.unreadable line.number)
  let declaration ←
    (parseLine names (declared.head?.map Declaration.owner) text).mapError
      (.badLine line.number text)
  return declaration :: declared

/-- The declarations in the lines of a file. -/
def declarations (names : MemberNames) (lines : List Line) : Except Error (List Declaration) :=
  (lines.foldlM (readLine names) []).map List.reverse

/-- Reads the lines of a file. A bad line is found before a bad descriptor. -/
def ofLines (names : MemberNames) (lines : List Line) : Except Error Mappings := do
  let ds ← declarations names lines
  (Mappings.ofDeclarations ds).mapError .badDescriptor

/-- Reads a file. -/
def read (names : MemberNames) (bytes : Bytes) : Except Error Mappings :=
  ofLines names (Line.ofBytes bytes)

end Namebridge.Tsrg
