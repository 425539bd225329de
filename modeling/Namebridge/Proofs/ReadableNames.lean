import Namebridge.Format.ReadableNames
import Namebridge.Proofs.Cut
import Namebridge.Proofs.NameTable
import Namebridge.Proofs.Traversal

/-!
# The grammar of tables of readable names

A row says an identifier and its readable name, whatever follows. `ofLines_eq_ok_iff` is that
exactly the rows of a file are read. The grammar asks that there is a second column, but not that
anything stands in it: a row can give its identifier an empty name, which is put in like any other
(`blanks_iff`).
-/

namespace Namebridge.ReadableNames

/-! ## Rows -/

/-- What a line after the header says: an identifier and its name. -/
def SaysRow (line : Line) (row : String × String) : Prop :=
  ∃ text more, line.text = .ok text ∧ Text.Joins ',' (row.1 :: row.2 :: more) text

/-- What the lines of a file say after a header, which can be anything. -/
inductive Spells : List Line → List (String × String) → Prop
  | file {header : Line} {text : String} {lines : List Line} {rows : List (String × String)}
      (htext : header.text = .ok text) (hrows : List.Forall₂ SaysRow lines rows) :
      Spells (header :: lines) rows

theorem parseRow_eq_ok_iff (line : Line) (row : String × String) :
    parseRow line = .ok row ↔ SaysRow line row := by
  obtain ⟨id, name⟩ := row
  simp only [parseRow, lineText, Traversal.bind_eq_ok_iff, Traversal.mapError_eq_ok_iff]
  constructor
  · intro h
    obtain ⟨text, htext, h⟩ := h
    split at h
    · rename_i id' name' more hfields
      cases h
      exact ⟨text, more, htext, (Text.fields_eq_iff ',' text _).mp hfields⟩
    · cases h
  · intro h
    obtain ⟨text, more, htext, hjoins⟩ := h
    refine ⟨text, htext, ?_⟩
    rw [(Text.fields_eq_iff ',' text _).mpr hjoins]
    rfl

/-- A table holds what the rows of its file say, the last row for an identifier. -/
theorem ofLines_eq_ok_iff (lines : List Line) (t : NameTable) :
    ofLines lines = .ok t ↔ ∃ rows, Spells lines rows ∧ t = .ofPairs rows := by
  cases lines with
  | nil =>
      constructor
      · intro h
        cases h
      · rintro ⟨rows, hrows, -⟩
        cases hrows
  | cons header lines =>
      simp only [ofLines, lineText, Traversal.bind_eq_ok_iff, Traversal.mapError_eq_ok_iff,
        Traversal.mapM_eq_ok_iff, parseRow_eq_ok_iff]
      constructor
      · intro h
        obtain ⟨text, htext, rows, hrows, h⟩ := h
        cases h
        exact ⟨rows, .file htext hrows, rfl⟩
      · rintro ⟨rows, hspells, rfl⟩
        cases hspells with
        | file htext hrows => exact ⟨_, htext, rows, hrows, rfl⟩

/-! ## Empty names -/

/-- The last row for an identifier has nothing in its second column. -/
def Blanks (lines : List Line) (id : String) : Prop :=
  ∃ before after, Spells lines (before ++ (id, "") :: after) ∧ id ∉ after.map Prod.fst

theorem SaysRow.unique {line : Line} {row row' : String × String} (h : SaysRow line row)
    (h' : SaysRow line row') : row = row' := by
  rw [← parseRow_eq_ok_iff] at h h'
  exact Except.ok.inj (h.symm.trans h')

theorem Spells.unique {lines : List Line} {rows rows' : List (String × String)}
    (h : Spells lines rows) (h' : Spells lines rows') : rows = rows' := by
  cases h with
  | file htext hrows =>
      cases h' with
      | file htext' hrows' =>
          exact List.right_unique_forall₂' (fun _ _ _ hrow hrow' => hrow.unique hrow') hrows hrows'

/-- An identifier is looked up as empty exactly if its last row blanks it. -/
theorem blanks_iff {lines : List Line} {t : NameTable} (h : ofLines lines = .ok t) (id : String) :
    Blanks lines id ↔ t.get? id = some "" := by
  obtain ⟨rows, hrows, rfl⟩ := (ofLines_eq_ok_iff lines t).mp h
  rw [OrderedMap.get?_ofPairs_eq_some_iff]
  constructor
  · rintro ⟨before, after, hspells, hlast⟩
    exact ⟨before, after, hrows.unique hspells, hlast⟩
  · rintro ⟨before, after, rfl, hlast⟩
    exact ⟨before, after, hrows, hlast⟩

/-- Only a row can leave nothing of an identifier. -/
theorem rename_eq_empty_iff {lines : List Line} {t : NameTable} (h : ofLines lines = .ok t)
    {id : String} (hid : id ≠ "") : t.rename id = "" ↔ Blanks lines id := by
  rw [blanks_iff h]
  cases hget : t.get? id with
  | none => simp [NameTable.rename_of_get?_eq_none hget, hid]
  | some name => simp [NameTable.rename_of_get? hget]

end Namebridge.ReadableNames
