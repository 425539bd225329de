import Namebridge.Text.Cut
import Namebridge.Text.Quoted

/-!
# Method descriptors

A descriptor such as `(ILjava/lang/String;[La/B;)La/C;` holds class names between an `L` and the
next `;`. All else stands for itself. In a text `name(parameters)result` class names are looked for
after the first parenthesis only, so that an `L` in the name starts none.

`pieces?` reads the part from the parenthesis on, `render` writes it back, and `rename` gives the
class names new ones in between. `render_pieces` says that reading loses nothing.
-/

namespace Namebridge.Descriptor

/-- What a descriptor is made of. -/
inductive Piece where
  /-- A character that stands for itself: a primitive type, an array marker, a parenthesis. -/
  | mark (c : Char)
  /-- A class name, written between `L` and `;`. -/
  | className (name : List Char)
deriving DecidableEq, Repr

/-- How a piece is written. -/
def Piece.chars : Piece → List Char
  | mark c => [c]
  | className name => 'L' :: name ++ [';']

/-- Reads characters into pieces, after an `L` and the characters `opened` (in reverse) of a class
name, or, for `none`, outside of class names. There are none if the last class name is not ended. -/
def scan : (opened : Option (List Char)) → List Char → Option (List Piece)
  | none, [] => some []
  | none, c :: rest =>
      if c = 'L' then scan (some []) rest else (scan none rest).map (.mark c :: ·)
  | some _, [] => none
  | some name, c :: rest =>
      if c = ';' then (scan none rest).map (.className name.reverse :: ·)
      else scan (some (c :: name)) rest

/-- The pieces of a text that stands outside of class names. -/
def pieces? (cs : List Char) : Option (List Piece) := scan none cs

/-- How pieces are written one after the other. -/
def render (pieces : List Piece) : List Char := pieces.flatMap Piece.chars

/-- Gives a class name its new name. -/
def Piece.rename (f : String → String) : Piece → Piece
  | mark c => mark c
  | className name => className (f (String.ofList name)).toList

/-- The descriptor ends inside a class name. -/
structure Fault where
  descriptor : String
deriving DecidableEq, Repr

def Fault.message (fault : Fault) : String :=
  s!"descriptor {Text.quoted fault.descriptor} has a missing semicolon somewhere"

/-- Gives the class names in a descriptor, or in a text `name(parameters)result`, new names. -/
def rename (f : String → String) (descriptor : String) : Except Fault String :=
  match pieces? (Text.since '(' descriptor).toList with
  | some pieces =>
      .ok (Text.before '(' descriptor ++ String.ofList (render (pieces.map (Piece.rename f))))
  | none => .error ⟨descriptor⟩

/-- The class names that stand in a descriptor. There are none to rename if it cannot be read. -/
def classNames (descriptor : String) : List String :=
  ((pieces? (Text.since '(' descriptor).toList).getD []).filterMap fun
    | .mark _ => none
    | .className name => some (String.ofList name)

/-! ## Laws -/

theorem render_scan {opened : Option (List Char)} {cs : List Char} {ps : List Piece}
    (h : scan opened cs = some ps) :
    render ps = (match opened with
      | none => cs
      | some name => 'L' :: name.reverse ++ cs) := by
  induction cs generalizing opened ps with
  | nil =>
      cases opened with
      | none =>
          simp only [scan, Option.some.injEq] at h
          simp [← h, render]
      | some name => simp [scan] at h
  | cons c rest ih =>
      cases opened with
      | none =>
          by_cases hc : c = 'L'
          · simp only [scan, hc, if_true] at h
            simpa [hc] using ih h
          · simp only [scan, hc, if_false, Option.map_eq_some_iff] at h
            obtain ⟨qs, hq, rfl⟩ := h
            simpa [render, Piece.chars] using ih hq
      | some name =>
          by_cases hc : c = ';'
          · simp only [scan, hc, if_true, Option.map_eq_some_iff] at h
            obtain ⟨qs, hq, rfl⟩ := h
            simpa [render, Piece.chars, hc] using ih hq
          · simp only [scan, hc, if_false] at h
            simpa using ih h

/-- Writing the pieces of a text gives the text. -/
theorem render_pieces {cs : List Char} {ps : List Piece} (h : pieces? cs = some ps) :
    render ps = cs := render_scan h

example : rename (fun c => if c = "a/B" then "x/Y" else c) "(La/B;[La/C;)La/B;"
    = .ok "(Lx/Y;[La/C;)Lx/Y;" := rfl
example : rename (fun c => if c = "L" then "M" else c) "getLevel(LL;)V" =
    .ok "getLevel(LM;)V" := rfl
example : rename id "(La/B)V" = .error ⟨"(La/B)V"⟩ := rfl

end Namebridge.Descriptor
