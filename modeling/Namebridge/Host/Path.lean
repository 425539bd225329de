import Namebridge.Text.Cut
import Namebridge.Text.Quoted

/-!
# Paths

A path is a text in which slashes separate names. Empty names and `.` change nothing, except for a
`.` at the very start, which is a part of the path; `..` leads to the directory above. All
operations keep the text of the path as it was written, as far as it stays.
-/

namespace Namebridge

/-- A path to a file or a directory. -/
structure Path where
  text : String
deriving DecidableEq, Repr, Inhabited

namespace Path

/-- A path in messages. -/
def quoted (p : Path) : String := Text.quoted p.text

/-- Whether the path starts at the root. -/
def isAbsolute (p : Path) : Bool := p.text.toList.head? == some '/'

/-- A slash or a `.` at the start, which are parts of the path, and the text after it. -/
def leadAndBody (p : Path) : String × String :=
  match p.text.toList with
  | '/' :: rest => ("/", String.ofList rest)
  | ['.'] => (".", "")
  | '.' :: '/' :: rest => (".", String.ofList ('/' :: rest))
  | _ => ("", p.text)

/-- Whether a name between slashes changes nothing. -/
def isBlank (name : String) : Bool := name = "" || name = "."

/-- Whether a name leads from a directory to something in it. -/
def Descends (name : String) : Prop := isBlank name = false ∧ name ≠ ".."

theorem descends_iff (name : String) :
    Descends name ↔ name ≠ "" ∧ name ≠ "." ∧ name ≠ ".." := by
  simp [Descends, isBlank, and_assoc]

/-- Whether a name leads one step down, wherever it is added. -/
def Plain (name : String) : Prop := Descends name ∧ '/' ∉ name.toList

instance : DecidablePred Plain := fun _ => inferInstanceAs (Decidable ((_ ∧ _) ∧ _))

/-- Drops names at the end that change nothing. -/
def trimNames (names : List String) : List String := (names.reverse.dropWhile isBlank).reverse

/-- The names after the start of the path, without those at the end that change nothing. -/
def names (p : Path) : List String := trimNames (Text.fields '/' p.leadAndBody.2)

/-- The name of what the path leads to. A path that ends in `..`, or that has no names, gives
none. -/
def fileName? (p : Path) : Option String := p.names.getLast?.filter (· ≠ "..")

/-- The path without its last name. -/
def parent? (p : Path) : Option Path :=
  let lead := p.leadAndBody.1
  match p.names with
  | [] => if lead = "." then some ⟨""⟩ else none
  | names => some ⟨lead ++ "/".intercalate (trimNames names.dropLast)⟩

/-- The path that `rest` leads to from here. -/
def join (p : Path) (rest : String) : Path :=
  if rest.toList.head? = some '/' then ⟨rest⟩
  else if p.text = "" || p.text.toList.getLast? = some '/' then ⟨p.text ++ rest⟩
  else ⟨p.text ++ "/" ++ rest⟩

/-- Gives what the path leads to another name. -/
def withFileName (p : Path) (name : String) : Path :=
  match p.fileName?, p.parent? with
  | some _, some parent => parent.join name
  | _, _ => p.join name

/-- A file name without its extension, and the extension: the text after the last dot, unless the
name starts with it. -/
def splitExtension (name : String) : String × Option String :=
  match Text.cutLast? '.' name with
  | none | some ("", _) => (name, none)
  | some (stem, extension) => (stem, some extension)

/-- The file name without its extension. -/
def stem? (p : Path) : Option String := p.fileName?.map fun name => (splitExtension name).1

/-- The extension of the file name. -/
def extension? (p : Path) : Option String := p.fileName?.bind fun name => (splitExtension name).2

example : (Path.mk "a/./b.json").withFileName "c" = ⟨"a/c"⟩ := by decide
example : (Path.mk "//x").parent? = some ⟨"/"⟩ := by decide
example : (Path.mk "./.").fileName? = none ∧ (Path.mk "a/.").fileName? = some "a" := by decide
example : (Path.mk "..a").stem? = some "." ∧ (Path.mk ".java").extension? = none := by decide

end Path

end Namebridge
