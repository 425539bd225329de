import Namebridge.Lookup.Renamer

/-!
# Renaming in source text

The identifiers to rename are given by the bytes of the text that they take up. They are replaced in
the order of their first bytes, and all other text stays as it is. Places that overlap, that reach
beyond the text or that cut a character in two are refused.
-/

namespace Namebridge

/-- An identifier in a text: the bytes from `first` up to but not including `last`, and what it
stands for. -/
structure Occurrence where
  first : Nat
  last : Nat
  binding : Binding
deriving DecidableEq, Repr

/-- An occurrence as messages show it. -/
def Occurrence.describe (o : Occurrence) : String :=
  s!"Occurrence \x7b span: {o.first}..{o.last}, binding: {o.binding.describe} \x7d"

namespace Splice

/-- Why a text cannot be renamed. -/
inductive Fault where
  | overlap (o : Occurrence)
  | noPlace (o : Occurrence)
  /-- The text between two places that were passed cannot be copied. -/
  | torn (first last : Nat)
deriving DecidableEq, Repr

def Fault.message : Fault → String
  | overlap o => s!"occurrence {o.describe} overlaps with a previous one"
  | noPlace o => s!"occurrence {o.describe} is out of bounds or not on a char boundary"
  | torn first last => s!"the text from {first} to {last} cannot be copied"

/-- The part of a text between two places, given in bytes. There is one if the places are in order
and neither is beyond the text or inside a character. -/
def slice? (text : String) (first last : Nat) : Option String :=
  if h : first ≤ last ∧ String.Pos.Raw.IsValid text ⟨first⟩ ∧ String.Pos.Raw.IsValid text ⟨last⟩ then
    some (String.extract (text.pos ⟨first⟩ h.2.1) (text.pos ⟨last⟩ h.2.2))
  else none

/-- How far the renaming is: what is written, the place up to which that accounts for the text, and
the place up to which the occurrences so far reach. -/
structure Progress where
  written : String := ""
  copied : Nat := 0
  reached : Nat := 0

/-- Copies the text up to a place behind what is written. -/
def Progress.copyTo (progress : Progress) (text : String) (place : Nat) : Except Fault String :=
  match slice? text progress.copied place with
  | some part => .ok (progress.written ++ part)
  | none => .error (.torn progress.copied place)

/-- Renames one more occurrence. The text before it is copied only when a new name follows. -/
def step (r : Renamer) (text : String) (progress : Progress) (o : Occurrence) :
    ExceptT Fault Reporting Progress := do
  if o.first < progress.reached then throw (.overlap o)
  let some word := slice? text o.first o.last | throw (.noPlace o)
  match ← r.rename o.binding word with
  | none => return { progress with reached := o.last }
  | some newName =>
      let copied ← progress.copyTo text o.first
      return { written := copied ++ newName, copied := o.last, reached := o.last }

/-- The order of places: by the first byte, and equal ones as they are listed. -/
def inOrder (occurrences : List Occurrence) : List Occurrence :=
  occurrences.mergeSort fun a b => a.first ≤ b.first

/-- Renames the occurrences in a text. -/
def apply (r : Renamer) (text : String) (occurrences : List Occurrence) :
    ExceptT Fault Reporting String := do
  let progress ← (inOrder occurrences).foldlM (step r text) {}
  progress.copyTo text text.utf8ByteSize

end Splice

end Namebridge
