import Mathlib.Tactic.MkIffOfInductiveProp
import Namebridge.Proofs.Descriptor
import Namebridge.Proofs.MemberKey
import Namebridge.Proofs.NameTable

/-!
# The layout of a descriptor

A text has one layout: what stands before its first parenthesis, the pieces from there on, and what
follows a last `L` without a semicolon, if there is such an `L`. `Spells` says this without the
scanner, so `exists_unique_layout` is a statement on texts: an `L` before the parenthesis, inside of
a class name or after the closing parenthesis leaves no choice.

A renaming keeps the layout. It changes the class names that the table has, and fails if the text
ends inside of a class name, whatever the table is.
-/

namespace Namebridge.Descriptor

/-- The parts that a text is made of. -/
@[ext] structure Layout where
  /-- What stands before the first parenthesis. -/
  head : String
  /-- What stands from there on. -/
  pieces : List Piece
  /-- What follows the last `L`, if no semicolon does. -/
  unended : Option (List Char)
deriving DecidableEq

namespace Layout

/-- How the beginning of a class name is written. -/
def openChars : Option (List Char) → List Char
  | none => []
  | some name => 'L' :: name

/-- What is written from the first parenthesis on. -/
def tail (l : Layout) : List Char := render l.pieces ++ openChars l.unended

/-- A text is written in this layout. -/
@[mk_iff] structure Spells (l : Layout) (s : String) : Prop where
  head_plain : '(' ∉ l.head.toList
  opens : ∀ c ∈ l.tail.head?, c = '('
  legible : ∀ p ∈ l.pieces, p.Legible
  unended_plain : ∀ name ∈ l.unended, ';' ∉ name
  written : s = l.head ++ String.ofList l.tail

instance (l : Layout) (s : String) : Decidable (l.Spells s) :=
  -- the general instance for characters would go through all of them
  letI : Decidable (∀ c ∈ l.tail.head?, c = '(') := Option.decidableForallMem _
  decidable_of_iff' _ (spells_iff l s)

variable {l l' : Layout} {s : String}

/-! ## One layout for each text -/

/-- What a semicolon after the text makes of its end. -/
def ending : Option (List Char) → Piece
  | none => .mark ';'
  | some name => .className name

theorem ending_inj {o o' : Option (List Char)} (h : ending o = ending o') : o = o' := by
  cases o <;> cases o' <;> simp_all [ending]

theorem chars_ending (o : Option (List Char)) : (ending o).chars = openChars o ++ [';'] := by
  cases o <;> rfl

/-- With a semicolon at the end no class name is left open, and the text can be read. -/
theorem Spells.pieces?_semicolon (h : l.Spells s) :
    pieces? (l.tail ++ [';']) = some (l.pieces ++ [ending l.unended]) := by
  have hending : (ending l.unended).Legible := by
    cases hname : l.unended with
    | none => exact (by decide : ';' ≠ 'L')
    | some name => exact h.unended_plain name hname
  have hwritten : render (l.pieces ++ [ending l.unended]) = l.tail ++ [';'] := by
    rw [render, List.flatMap_append, List.flatMap_singleton, chars_ending, tail, List.append_assoc]
    rfl
  rw [← hwritten]
  refine pieces_render fun p hp => ?_
  rcases List.mem_append.mp hp with hp | hp
  · exact h.legible p hp
  · rwa [List.mem_singleton.mp hp]

theorem Spells.before_eq (h : l.Spells s) : Text.before '(' s = l.head := by
  rw [h.written]
  exact Text.before_append h.head_plain (by simpa using h.opens)

theorem Spells.since_eq (h : l.Spells s) : Text.since '(' s = String.ofList l.tail := by
  rw [h.written]
  exact Text.since_append h.head_plain (by simpa using h.opens)

theorem Spells.unique (h : l.Spells s) (h' : l'.Spells s) : l = l' := by
  have hhead : l.head = l'.head := h.before_eq.symm.trans h'.before_eq
  have htail : l.tail = l'.tail := String.ofList_injective (h.since_eq.symm.trans h'.since_eq)
  have hread := h.pieces?_semicolon
  rw [htail, h'.pieces?_semicolon, Option.some.injEq] at hread
  obtain ⟨hpieces, hending⟩ := List.append_inj' hread rfl
  have hunended : l.unended = l'.unended := ending_inj (List.singleton_inj.mp hending).symm
  exact Layout.ext hhead hpieces.symm hunended

/-- Parts that make up the text from the first parenthesis on make a layout. -/
theorem spells_of_tail {ps : List Piece} {unended : Option (List Char)}
    (hlegible : ∀ p ∈ ps, p.Legible) (hunended : ∀ name ∈ unended, ';' ∉ name)
    (htail : (Text.since '(' s).toList = render ps ++ openChars unended) :
    Spells ⟨Text.before '(' s, ps, unended⟩ s := by
  refine ⟨Text.not_mem_before '(' s, ?opens, hlegible, hunended, ?written⟩
  case opens =>
    rw [tail, ← htail]
    exact Text.head?_since '(' s
  case written =>
    rw [tail, ← htail, String.ofList_toList]
    exact (Text.before_append_since '(' s).symm

theorem exists_spells (s : String) : ∃ l : Layout, l.Spells s := by
  cases hps : pieces? (Text.since '(' s).toList with
  | some ps =>
      have htail : (Text.since '(' s).toList = render ps ++ openChars none := by
        rw [openChars, List.append_nil, render_pieces hps]
      exact ⟨⟨_, ps, none⟩, spells_of_tail (legible_of_scan hps (by simp)) (by simp) htail⟩
  | none =>
      obtain ⟨ps, name, hlegible, hname, htail⟩ := (pieces?_eq_none_iff s).mp hps
      exact ⟨⟨_, ps, some name⟩, spells_of_tail hlegible (by simpa using hname) htail⟩

/-! ## Renaming by layout -/

theorem Spells.pieces?_since (h : l.Spells s) (hended : l.unended = none) :
    pieces? (Text.since '(' s).toList = some l.pieces := by
  have htail : l.tail = render l.pieces := by simp [tail, hended, openChars]
  rw [h.since_eq, String.toList_ofList, htail]
  exact pieces_render h.legible

/-- A text is left open exactly if its layout says so. -/
theorem Spells.leavesOpen_iff (h : l.Spells s) : LeavesOpen s ↔ l.unended.isSome := by
  cases hname : l.unended with
  | none =>
      rw [← pieces?_eq_none_iff, h.pieces?_since hname]
      simp
  | some name =>
      refine iff_of_true ⟨l.pieces, name, h.legible, h.unended_plain name hname, ?_⟩ rfl
      rw [h.since_eq, String.toList_ofList, tail, hname]
      rfl

end Layout

/-- What becomes of a piece: a class name that the table has gets its new name, and all else stays
as it is. -/
inductive Piece.Becomes (t : NameTable) : Piece → Piece → Prop
  | mark (c : Char) : Becomes t (.mark c) (.mark c)
  | renamed {name : List Char} {target : String} (h : t.get? (String.ofList name) = some target) :
      Becomes t (.className name) (.className target.toList)
  | kept {name : List Char} (h : t.get? (String.ofList name) = none) :
      Becomes t (.className name) (.className name)

theorem Piece.becomes_rename (t : NameTable) (p : Piece) : p.Becomes t (p.rename t.rename) := by
  cases p with
  | mark c => exact .mark c
  | className name =>
      rw [Piece.rename]
      cases h : t.get? (String.ofList name) with
      | none =>
          rw [NameTable.rename_of_get?_eq_none h, String.toList_ofList]
          exact .kept h
      | some target =>
          rw [NameTable.rename_of_get? h]
          exact .renamed h

/-- What tables do to a text of this layout. -/
structure Layout.Rewritten (l : Layout) (s : String) : Prop where
  /-- Whether a renaming fails does not depend on the table. -/
  fails_iff : ∀ (t : NameTable) fault,
    rename t.rename s = .error fault ↔ l.unended.isSome ∧ fault = ⟨s⟩
  /-- Otherwise each piece stays or is renamed, in its place. -/
  rewrites : l.unended = none → ∀ t : NameTable,
    ∃ pieces, List.Forall₂ (Piece.Becomes t) l.pieces pieces ∧
      rename t.rename s = .ok (l.head ++ String.ofList (render pieces))
  /-- The name in front stays, and the descriptor is renamed. -/
  from_descriptor : ∀ (t : NameTable) renamed, rename t.rename s = .ok renamed ↔
    ∃ rest, rename t.rename (MemberKey.descriptorPart s) = .ok rest ∧
      renamed = MemberKey.namePart s ++ rest
  /-- Without entries nothing changes. -/
  keeps : l.unended = none → rename (NameTable.rename .empty) s = .ok s
  /-- Only the entries of the class names in the text matter. -/
  depends : ∀ t t' : NameTable, (∀ name, .className name ∈ l.pieces →
    t.get? (String.ofList name) = t'.get? (String.ofList name)) →
    rename t.rename s = rename t'.rename s

theorem Layout.Spells.rewritten {l : Layout} {s : String} (h : l.Spells s) : l.Rewritten s := by
  refine ⟨?fails_iff, ?rewrites, ?from_descriptor, ?keeps, ?depends⟩
  case fails_iff =>
    intro t fault
    rw [rename_eq_error_iff, h.leavesOpen_iff]
  case rewrites =>
    intro hended t
    refine ⟨l.pieces.map (Piece.rename t.rename), ?_, ?_⟩
    · rw [List.forall₂_map_right_iff, List.forall₂_same]
      exact fun p _ => p.becomes_rename t
    · rw [rename_of_pieces (h.pieces?_since hended), h.before_eq]
  case from_descriptor =>
    intro t renamed
    exact rename_eq_ok_iff_since t.rename s renamed
  case keeps =>
    intro hended
    refine rename_eq_self (fun c _ => NameTable.rename_of_get?_eq_none rfl) ?_
    rw [h.leavesOpen_iff, hended]
    simp
  case depends =>
    intro t t' hnames
    refine rename_congr fun c hc => ?_
    cases hended : l.unended with
    | none =>
        have hmem := (mem_classNames_iff (h.pieces?_since hended) c).mp hc
        have hget := hnames c.toList hmem
        rw [String.ofList_toList] at hget
        rw [NameTable.rename, NameTable.rename, hget]
    | some name =>
        have hopen : LeavesOpen s := h.leavesOpen_iff.mpr (by rw [hended]; rfl)
        rw [classNames_of_no_pieces ((pieces?_eq_none_iff s).mpr hopen)] at hc
        cases hc

/-- **Layout**: a text is written in exactly one way as a name without a parenthesis, marks and
ended class names from the first parenthesis on, and perhaps the beginning of a class name that is
not ended. A renaming fails in the last case only, and else rewrites the class names. -/
theorem exists_unique_layout (s : String) :
    ∃ layout : Layout, (∀ other : Layout, other.Spells s ↔ other = layout) ∧
      layout.Rewritten s := by
  obtain ⟨layout, hlayout⟩ := Layout.exists_spells s
  refine ⟨layout, fun other => ⟨fun hother => hother.unique hlayout, ?_⟩, hlayout.rewritten⟩
  rintro rfl
  exact hlayout

/-- An `L` in front, in a class name and at the end, and a parenthesis in a class name. -/
example : Layout.Spells ⟨"toL", [.mark '(', .className ['L', '('], .mark ')'], some ['a']⟩
    "toL(LL(;)La" := by decide

end Namebridge.Descriptor
