import Namebridge.Proofs.Line
import Namebridge.Proofs.TinyGrammar

/-!
# What is wrong with a tiny file

A first line that has not both schemes ends the reading: `BadHeader`. Below one that has them, a
line is bad if it cannot be read, or if its tag needs columns that it does not have: `Bad`, with the
error for it in `Offends`. The first such line decides, whatever descriptors stand above it. Without
one, the first method decides whose descriptor ends in a class name. A file with none of these is
read. That is `verdict_read`.

Rows with other tags and columns after the names are padding (`Pads`), which no table shows.
-/

namespace Namebridge.Tiny

/-! ## Lines that offend -/

/-- What is wrong with the first line of a file. The source scheme is looked for first. -/
inductive BadHeader (source target : String) (header : Line) : Error → Prop
  | unreadable {fault : Line.Fault} (htext : header.text = .error fault) :
      BadHeader source target header (.unreadable header.number fault)
  | noSource {text first : String} {schemes : List String} (htext : header.text = .ok text)
      (hjoins : Text.Joins '\t' (first :: schemes) text) (hsource : source ∉ schemes) :
      BadHeader source target header (.noScheme header.number source schemes)
  | noTarget {text first : String} {schemes : List String} (htext : header.text = .ok text)
      (hjoins : Text.Joins '\t' (first :: schemes) text) (hsource : source ∈ schemes)
      (htarget : target ∉ schemes) :
      BadHeader source target header (.noScheme header.number target schemes)

/-- A row ends before its last name. One column comes before the names of a class, and three before
those of a member. -/
inductive Short (columns : Columns) (cells : List String) : Prop
  | classRow (htag : cells[0]? = some "CLASS")
      (hlength : cells.length ≤ max columns.source columns.target + 1)
  | memberRow (htag : cells[0]? = some "FIELD" ∨ cells[0]? = some "METHOD")
      (hlength : cells.length ≤ max columns.source columns.target + 3)

/-- The columns that a row with this tag needs, in the order in which they are looked for. -/
def Columns.needed (columns : Columns) : Option String → List Nat
  | some "CLASS" => [columns.source + 1, columns.target + 1]
  | some "FIELD" => [1, columns.source + 3, columns.target + 3]
  | some "METHOD" => [1, 2, columns.source + 3, columns.target + 3]
  | _ => []

/-- The first column that is looked for in a row, but is not there. -/
def Columns.missing? (columns : Columns) (cells : List String) : Option Nat :=
  (columns.needed cells[0]?).find? (cells.length ≤ ·)

/-- What is wrong with a line after the header. -/
inductive Offends (columns : Columns) (line : Line) : Error → Prop
  | unreadable {fault : Line.Fault} (htext : line.text = .error fault) :
      Offends columns line (.unreadable line.number fault)
  | short {text : String} {cells : List String} {index : Nat} (htext : line.text = .ok text)
      (hjoins : Text.Joins '\t' cells text) (hshort : Short columns cells)
      (hmissing : columns.missing? cells = some index) :
      Offends columns line (.badLine line.number text ⟨index + 1, cells.length⟩)

/-- A line after the header cannot be read, or is too short. -/
inductive Bad (columns : Columns) (line : Line) : Prop
  | unreadable {fault : Line.Fault} (htext : line.text = .error fault)
  | short {text : String} {cells : List String} (htext : line.text = .ok text)
      (hjoins : Text.Joins '\t' cells text) (hshort : Short columns cells)

/-- No line is bad. -/
def Sound (columns : Columns) (lines : List Line) : Prop := ∀ line ∈ lines, ¬ Bad columns line

/-- The message of an error ends with the number of a line. -/
def Error.NamesLine (e : Error) (number : Nat) : Prop :=
  ∃ opening, e.trail.head? = some (opening ++ " line " ++ toString number)

theorem Offends.namesLine {columns : Columns} {line : Line} {e : Error}
    (h : Offends columns line e) : e.NamesLine line.number := by
  cases h with
  | unreadable htext =>
      obtain ⟨opening, hopening⟩ := Line.exists_unreadableMessage_eq line.number
      exact ⟨opening, congrArg some hopening⟩
  | @short text cells index htext hjoins hshort hmissing =>
      have hin : " in line " = " in" ++ " line " := by decide
      have hsplit := congrArg (s!"invalid tiny line {Text.quoted text}" ++ ·) hin
      rw [← String.append_assoc] at hsplit
      exact ⟨_, congrArg (fun opening => some (opening ++ toString line.number)) hsplit⟩

/-! ## Reading the header -/

theorem findScheme_eq_error_iff (header : Line) (text scheme : String) (e : Error) :
    findScheme header text scheme = .error e ↔
      scheme ∉ (Text.fields '\t' text).drop 1 ∧
        e = .noScheme header.number scheme ((Text.fields '\t' text).drop 1) := by
  rw [← List.idxOf?_eq_none_iff, findScheme]
  cases ((Text.fields '\t' text).drop 1).idxOf? scheme <;> simp [eq_comm]

theorem exists_findScheme_iff (header : Line) (text scheme : String) :
    (∃ i, findScheme header text scheme = .ok i) ↔ scheme ∈ (Text.fields '\t' text).drop 1 := by
  simp only [findScheme_eq_ok_iff, exists_schemeAt_iff]

/-- A header is refused for what is wrong with it. -/
theorem parseHeader_eq_error_iff (source target : String) (header : Line) (e : Error) :
    parseHeader header source target = .error e ↔ BadHeader source target header e := by
  simp only [parseHeader, lineText, Traversal.bind_eq_error_iff, Traversal.mapError_eq_error_iff,
    Traversal.mapError_eq_ok_iff, pure, Except.pure, reduceCtorEq, and_false, exists_false,
    or_false, findScheme_eq_error_iff]
  constructor
  · intro h
    rcases h with ⟨fault, htext, rfl⟩ | ⟨text, htext, h⟩
    · exact .unreadable htext
    · have hjoins := Text.joins_fields '\t' text
      obtain ⟨first, schemes, hfields⟩ := List.exists_cons_of_ne_nil hjoins.ne_nil
      rw [hfields] at hjoins
      rcases h with ⟨hsource, rfl⟩ | ⟨i, hi, htarget, rfl⟩
      · rw [hfields] at hsource ⊢
        exact .noSource htext hjoins hsource
      · have hsource := (exists_findScheme_iff header text source).mp ⟨i, hi⟩
        rw [hfields] at hsource htarget ⊢
        exact .noTarget htext hjoins hsource htarget
  · intro h
    cases h with
    | unreadable htext => exact .inl ⟨_, htext, rfl⟩
    | @noSource text first schemes htext hjoins hsource =>
        have hfields := (Text.fields_eq_iff '\t' text _).mpr hjoins
        refine .inr ⟨text, htext, .inl ?_⟩
        rw [hfields]
        exact ⟨hsource, rfl⟩
    | @noTarget text first schemes htext hjoins hsource htarget =>
        have hfields := (Text.fields_eq_iff '\t' text _).mpr hjoins
        have hfound : source ∈ (Text.fields '\t' text).drop 1 := by
          rw [hfields]
          exact hsource
        obtain ⟨i, hi⟩ := (exists_findScheme_iff header text source).mpr hfound
        refine .inr ⟨text, htext, .inr ⟨i, hi, ?_⟩⟩
        rw [hfields]
        exact ⟨htarget, rfl⟩

/-! ## Reading a row -/

theorem column_eq_error_iff (cells : List String) (index : Nat) (fault : Fault) :
    column cells index = .error fault ↔
      cells.length ≤ index ∧ fault = ⟨index + 1, cells.length⟩ := by
  rw [← List.getElem?_eq_none_iff, column]
  cases cells[index]? <;> simp [eq_comm]

/-- Columns are looked for one after the other, up to the first that is not there. -/
theorem mapM_column_eq_error_iff (cells : List String) (indices : List Nat) (fault : Fault) :
    indices.mapM (column cells) = .error fault ↔
      ∃ index, indices.find? (cells.length ≤ ·) = some index ∧
        fault = ⟨index + 1, cells.length⟩ := by
  induction indices with
  | nil => exact ⟨nofun, nofun⟩
  | cons i rest ih =>
      simp only [List.mapM_cons, Traversal.bind_eq_error_iff, column_eq_error_iff,
        column_eq_ok_iff, pure, Except.pure, reduceCtorEq, and_false, exists_false, or_false, ih]
      by_cases hi : cells.length ≤ i
      · simp [hi]
      · have hcell : ∃ cell, cells[i]? = some cell := ⟨_, List.getElem?_eq_getElem (by omega)⟩
        simp [hi, hcell]

/-- A row is refused for the first column that it lacks. -/
theorem parseRow_eq_error_iff (columns : Columns) (text : String) (fault : Fault) :
    parseRow columns text = .error fault ↔
      ∃ index, columns.missing? (Text.fields '\t' text) = some index ∧
        fault = ⟨index + 1, (Text.fields '\t' text).length⟩ := by
  rw [Columns.missing?, ← mapM_column_eq_error_iff, parseRow, List.head?_eq_getElem?]
  generalize Text.fields '\t' text = cells
  generalize cells[0]? = tag
  -- both sides look for the same columns, one after the other
  split <;> simp only [Columns.needed, List.mapM_cons, List.mapM_nil, Traversal.bind_eq_error_iff,
    pure, Except.pure, reduceCtorEq, and_false, exists_false, or_false]

/-- A column is missing exactly if the row is too short for its tag. -/
theorem exists_missing?_iff (columns : Columns) (cells : List String) :
    (∃ index, columns.missing? cells = some index) ↔ Short columns cells := by
  simp only [Columns.missing?, ← Option.isSome_iff_exists, List.find?_isSome, decide_eq_true_eq]
  constructor
  · intro h
    obtain ⟨index, hindex, hle⟩ := h
    unfold Columns.needed at hindex
    split at hindex
    · rename_i htag
      simp only [List.mem_cons, List.not_mem_nil, or_false] at hindex
      exact .classRow htag (by omega)
    · rename_i htag
      simp only [List.mem_cons, List.not_mem_nil, or_false] at hindex
      exact .memberRow (.inl htag) (by omega)
    · rename_i htag
      simp only [List.mem_cons, List.not_mem_nil, or_false] at hindex
      exact .memberRow (.inr htag) (by omega)
    · cases hindex
  · intro h
    -- the later of the two names is not there
    cases h with
    | classRow htag hlength =>
        rw [htag]
        exact ⟨max columns.source columns.target + 1, by simp [Columns.needed]; omega, hlength⟩
    | memberRow htag hlength =>
        refine ⟨max columns.source columns.target + 3, ?_, hlength⟩
        rcases htag with htag | htag <;> rw [htag] <;> simp [Columns.needed] <;> omega

/-- Something is wrong with a line exactly if it is bad. -/
theorem exists_offends_iff (columns : Columns) (line : Line) :
    (∃ e, Offends columns line e) ↔ Bad columns line := by
  constructor
  · intro h
    obtain ⟨_, h⟩ := h
    cases h with
    | unreadable htext => exact .unreadable htext
    | short htext hjoins hshort _ => exact .short htext hjoins hshort
  · intro h
    cases h with
    | unreadable htext => exact ⟨_, .unreadable htext⟩
    | short htext hjoins hshort =>
        obtain ⟨index, hmissing⟩ := (exists_missing?_iff columns _).mpr hshort
        exact ⟨_, .short htext hjoins hshort hmissing⟩

/-- A line is refused for what is wrong with it. -/
theorem readRow_eq_error_iff (columns : Columns) (line : Line) (e : Error) :
    readRow columns line = .error e ↔ Offends columns line e := by
  simp only [readRow, lineText, Traversal.bind_eq_error_iff, Traversal.mapError_eq_error_iff,
    Traversal.mapError_eq_ok_iff, parseRow_eq_error_iff]
  constructor
  · intro h
    rcases h with ⟨fault, htext, rfl⟩ | ⟨text, htext, fault, ⟨index, hmissing, rfl⟩, rfl⟩
    · exact .unreadable htext
    · exact .short htext (Text.joins_fields '\t' text)
        ((exists_missing?_iff columns _).mp ⟨index, hmissing⟩) hmissing
  · intro h
    cases h with
    | unreadable htext => exact .inl ⟨_, htext, rfl⟩
    | @short text cells index htext hjoins hshort hmissing =>
        obtain rfl := (Text.fields_eq_iff '\t' text cells).mpr hjoins
        exact .inr ⟨text, htext, _, ⟨index, hmissing, rfl⟩, rfl⟩

/-! ## Descriptors -/

/-- A row names a method in whose descriptor a class name is not ended. -/
inductive Row.HasFault : Row → Declaration.BadDescriptor → Prop
  | method {owner descriptor source target : String} (hopen : Descriptor.LeavesOpen descriptor) :
      HasFault (.method owner descriptor source target)
        ⟨MemberKey.method owner source descriptor, ⟨descriptor⟩⟩

theorem hasFault_declaration?_iff {classes : NameTable} {row : Row} {d : Declaration}
    (hd : row.declaration? classes = some d) (e : Declaration.BadDescriptor) :
    d.HasFault e ↔ row.HasFault e := by
  cases row with
  | classNamed source target =>
      cases hd
      exact ⟨nofun, nofun⟩
  | field owner source target =>
      cases hd
      exact ⟨nofun, nofun⟩
  | method owner descriptor source target =>
      cases hd
      constructor
      · intro h
        cases h with
        | method hopen => exact .method hopen
      · intro h
        cases h with
        | method hopen => exact .method hopen
  | other => cases hd

theorem Row.HasFault.exists_declaration? {row : Row} {e : Declaration.BadDescriptor}
    (h : row.HasFault e) (classes : NameTable) : ∃ d, row.declaration? classes = some d := by
  cases h with
  | method hopen => exact ⟨_, rfl⟩

/-- Rows are refused exactly for the first descriptor that cannot be read. -/
theorem ofDeclarations_declarations_eq_error_iff (rows : List Row)
    (e : Declaration.BadDescriptor) :
    Mappings.ofDeclarations (declarations rows) = .error e ↔
      ∃ before row after, rows = before ++ row :: after ∧
        (∀ b ∈ before, ∀ e', ¬ b.HasFault e') ∧ row.HasFault e := by
  rw [Mappings.ofDeclarations_eq_error_iff]
  constructor
  · intro hparts
    obtain ⟨_, d, after, hds, hbefore, hd⟩ := hparts
    obtain ⟨above, row, below, rfl, rfl, hrow⟩ := exists_row_of_declarations hds
    -- a row above with a fault would have been declared before this one
    refine ⟨above, row, below, rfl, fun b hb e' hfault => ?_,
      (hasFault_declaration?_iff hrow e).mp hd⟩
    obtain ⟨earlier, later, rfl⟩ := List.append_of_mem hb
    obtain ⟨d', hd'⟩ := hfault.exists_declaration? (classTable earlier)
    exact hbefore d' ((mem_declarations_iff _ d').mpr ⟨earlier, b, later, rfl, hd'⟩) e'
      ((hasFault_declaration?_iff hd' e').mpr hfault)
  · intro hparts
    obtain ⟨before, row, after, rfl, hbefore, hrow⟩ := hparts
    obtain ⟨d, hd⟩ := hrow.exists_declaration? (classTable before)
    obtain ⟨rest, hrest⟩ := declarations_prefix (before ++ [row]) after
    refine ⟨declarations before, d, rest, ?_, ?_, (hasFault_declaration?_iff hd e).mpr hrow⟩
    · rw [declarations_concat, hd, List.append_assoc, List.append_assoc] at hrest
      exact hrest.symm
    · intro d' hd' e' hfault
      obtain ⟨earlier, b, later, rfl, hb⟩ := (mem_declarations_iff _ d').mp hd'
      exact hbefore b (by simp) e' ((hasFault_declaration?_iff hb e').mp hfault)

/-- Rows make tables exactly if no descriptor is bad. -/
theorem exists_ofDeclarations_declarations_iff (rows : List Row) :
    (∃ m, Mappings.ofDeclarations (declarations rows) = .ok m) ↔
      ∀ row ∈ rows, ∀ e, ¬ row.HasFault e := by
  constructor
  · intro h row hrow e hfault
    rw [Mappings.exists_ofDeclarations_iff] at h
    obtain ⟨before, after, rfl⟩ := List.append_of_mem hrow
    obtain ⟨d, hd⟩ := hfault.exists_declaration? (classTable before)
    exact h d ((mem_declarations_iff _ d).mpr ⟨before, row, after, rfl, hd⟩) e
      ((hasFault_declaration?_iff hd e).mpr hfault)
  · intro h
    cases hresult : Mappings.ofDeclarations (declarations rows) with
    | ok m => exact ⟨m, rfl⟩
    | error e =>
        obtain ⟨before, row, after, rfl, -, hrow⟩ :=
          (ofDeclarations_declarations_eq_error_iff rows e).mp hresult
        exact absurd hrow (h row (by simp) e)

/-! ## Padding -/

/-- Lines with further lines among them that say nothing, and with further columns after those that
their tags need. -/
inductive Pads (columns : Columns) : List Line → List Line → Prop
  | nil : Pads columns [] []
  | silent {line : Line} {lines lines' : List Line} (hline : SaysLine columns line .other)
      (hrest : Pads columns lines lines') : Pads columns lines (line :: lines')
  | same {line line' : Line} {lines lines' : List Line} (htext : line'.text = line.text)
      (hrest : Pads columns lines lines') : Pads columns (line :: lines) (line' :: lines')
  | wider {line line' : Line} {text text' : String} {cells more : List String}
      {lines lines' : List Line} (htext : line.text = .ok text) (htext' : line'.text = .ok text')
      (hjoins : Text.Joins '\t' cells text) (hjoins' : Text.Joins '\t' (cells ++ more) text')
      (hlong : ¬ Short columns cells) (hrest : Pads columns lines lines') :
      Pads columns (line :: lines) (line' :: lines')

/-- A file that has both schemes, and another one that has them in the same columns and is padded
below. -/
inductive PadsFile (source target : String) : List Line → List Line → Prop
  | mk {header header' : Line} {text text' : String} {columns : Columns}
      {lines lines' : List Line} (htext : header.text = .ok text)
      (hheader : SaysHeader source target text columns) (htext' : header'.text = .ok text')
      (hheader' : SaysHeader source target text' columns) (hlines : Pads columns lines lines') :
      PadsFile source target (header :: lines) (header' :: lines')

/-- A row says what its tag and the columns that this tag needs say. -/
theorem SaysRow.congr {columns : Columns} {cells cells' : List String} {row : Row}
    (h : SaysRow columns cells row) (htag : cells'[0]? = cells[0]?)
    (hneeded : ∀ i ∈ columns.needed cells[0]?, cells'[i]? = cells[i]?) :
    SaysRow columns cells' row := by
  cases h with
  | classRow hclass hsource htarget =>
      simp only [hclass, Columns.needed, List.forall_mem_cons] at hneeded
      obtain ⟨hsource', htarget', -⟩ := hneeded
      exact .classRow (htag.trans hclass) (hsource'.trans hsource) (htarget'.trans htarget)
  | fieldRow hfield howner hsource htarget =>
      simp only [hfield, Columns.needed, List.forall_mem_cons] at hneeded
      obtain ⟨howner', hsource', htarget', -⟩ := hneeded
      exact .fieldRow (htag.trans hfield) (howner'.trans howner) (hsource'.trans hsource)
        (htarget'.trans htarget)
  | methodRow hmethod howner hdescriptor hsource htarget =>
      simp only [hmethod, Columns.needed, List.forall_mem_cons] at hneeded
      obtain ⟨howner', hdescriptor', hsource', htarget', -⟩ := hneeded
      exact .methodRow (htag.trans hmethod) (howner'.trans howner)
        (hdescriptor'.trans hdescriptor) (hsource'.trans hsource) (htarget'.trans htarget)
  | otherRow hclass hfield hmethod =>
      exact .otherRow (htag ▸ hclass) (htag ▸ hfield) (htag ▸ hmethod)

/-- Columns after those that are needed say nothing. -/
theorem saysRow_append_iff {columns : Columns} {cells : List String} (hne : cells ≠ [])
    (hlong : ¬ Short columns cells) (more : List String) (row : Row) :
    SaysRow columns (cells ++ more) row ↔ SaysRow columns cells row := by
  have htag : (cells ++ more)[0]? = cells[0]? :=
    List.getElem?_append_left (List.length_pos_iff.mpr hne)
  have hneeded : ∀ i ∈ columns.needed cells[0]?, (cells ++ more)[i]? = cells[i]? := by
    intro i hi
    refine List.getElem?_append_left (not_le.mp fun hle => hlong ?_)
    rw [← exists_missing?_iff, ← Option.isSome_iff_exists, Columns.missing?, List.find?_isSome]
    exact ⟨i, hi, decide_eq_true hle⟩
  constructor
  · intro h
    exact h.congr htag.symm fun i hi => (hneeded i (htag ▸ hi)).symm
  · intro h
    exact h.congr htag hneeded

theorem saysLine_of_joins {columns : Columns} {line : Line} {text : String} {cells : List String}
    (htext : line.text = .ok text) (hjoins : Text.Joins '\t' cells text) (row : Row) :
    SaysLine columns line row ↔ SaysRow columns cells row := by
  constructor
  · intro h
    obtain ⟨text', cells', htext', hjoins', hrow⟩ := h
    cases htext.symm.trans htext'
    exact hjoins.unique hjoins' ▸ hrow
  · intro h
    exact ⟨text, cells, htext, hjoins, h⟩

/-- The rows that say something. -/
def spoken (rows : List Row) : List Row := rows.filter (· ≠ .other)

/-- Rows that say nothing declare nothing. -/
theorem declarations_spoken (rows : List Row) : declarations (spoken rows) = declarations rows := by
  have hskip : (fun progress row => if decide (row ≠ .other) = true then
      Progress.add progress row else progress) = Progress.add := by
    funext progress row
    cases row <;> rfl
  rw [declarations, declarations, spoken, List.foldl_filter, hskip]

/-- The rows that the lines after a header tell, without those that say nothing. -/
def Tells (columns : Columns) (lines : List Line) (rows : List Row) : Prop :=
  ∃ all, List.Forall₂ (SaysLine columns) lines all ∧ spoken all = rows

theorem tells_cons_iff (columns : Columns) (line : Line) (lines : List Line) (rows : List Row) :
    Tells columns (line :: lines) rows ↔
      ∃ row rest, SaysLine columns line row ∧ Tells columns lines rest ∧
        rows = spoken [row] ++ rest := by
  have hspoken (row : Row) (all : List Row) : spoken (row :: all) = spoken [row] ++ spoken all :=
    List.filter_append [row] all
  constructor
  · intro h
    obtain ⟨_, hsays, rfl⟩ := h
    obtain ⟨row, all, hrow, hall, rfl⟩ := List.forall₂_cons_left_iff.mp hsays
    exact ⟨row, spoken all, hrow, ⟨all, hall, rfl⟩, hspoken row all⟩
  · intro h
    obtain ⟨row, _, hrow, ⟨all, hall, rfl⟩, rfl⟩ := h
    exact ⟨row :: all, .cons hrow hall, hspoken row all⟩

theorem SaysLine.unique {columns : Columns} {line : Line} {row row' : Row}
    (h : SaysLine columns line row) (h' : SaysLine columns line row') : row = row' := by
  rw [← readRow_eq_ok_iff] at h h'
  exact Except.ok.inj (h.symm.trans h')

/-- Padding changes nothing about what is told. -/
theorem Pads.tells_iff {columns : Columns} {lines lines' : List Line}
    (h : Pads columns lines lines') (rows : List Row) :
    Tells columns lines' rows ↔ Tells columns lines rows := by
  -- by induction on the padding: a silent line tells nothing, the others tell what they told
  induction h generalizing rows with
  | nil => exact Iff.rfl
  | @silent line lines lines' hline _ ih =>
      rw [tells_cons_iff]
      constructor
      · intro h
        obtain ⟨row, rest, hrow, hrest, rfl⟩ := h
        cases hrow.unique hline
        exact (ih rest).mp hrest
      · intro h
        exact ⟨.other, rows, hline, (ih rows).mpr h, rfl⟩
  | @same line line' lines lines' htext _ ih =>
      have hline (row : Row) : SaysLine columns line' row ↔ SaysLine columns line row := by
        rw [SaysLine, SaysLine, htext]
      simp only [tells_cons_iff, hline, ih]
  | @wider line line' text text' cells more lines lines' htext htext' hjoins hjoins' hlong _ ih =>
      have hline (row : Row) : SaysLine columns line' row ↔ SaysLine columns line row := by
        rw [saysLine_of_joins htext' hjoins', saysLine_of_joins htext hjoins,
          saysRow_append_iff hjoins.ne_nil hlong]
      simp only [tells_cons_iff, hline, ih]

/-- A file is read into the tables of what its lines tell. -/
theorem ofLines_cons_eq_ok_iff {source target : String} {header : Line} {text : String}
    {columns : Columns} (htext : header.text = .ok text)
    (hheader : SaysHeader source target text columns) (lines : List Line) (m : Mappings) :
    ofLines source target (header :: lines) = .ok m ↔
      ∃ rows, Tells columns lines rows ∧ Mappings.ofDeclarations (declarations rows) = .ok m := by
  have hcolumns := (parseHeader_eq_ok_iff header source target columns).mpr ⟨text, htext, hheader⟩
  have hspells (rows : List Row) : Spells source target (header :: lines) rows ↔
      List.Forall₂ (SaysLine columns) lines rows := by
    simp only [spells_iff, readRows, hcolumns, Traversal.bind_eq_ok_iff, Except.ok.injEq,
      exists_eq_left', Traversal.mapM_eq_ok_iff, readRow_eq_ok_iff]
  simp only [ofLines_eq_ok_iff, hspells]
  constructor
  · intro h
    obtain ⟨rows, hrows, hm⟩ := h
    exact ⟨spoken rows, ⟨rows, hrows, rfl⟩, declarations_spoken rows ▸ hm⟩
  · intro h
    obtain ⟨_, ⟨rows, hrows, rfl⟩, hm⟩ := h
    exact ⟨rows, hrows, declarations_spoken rows ▸ hm⟩

/-- Padding changes no table, and makes no file unreadable. -/
theorem PadsFile.ofLines_eq_ok_iff {source target : String} {lines lines' : List Line}
    (h : PadsFile source target lines lines') (m : Mappings) :
    ofLines source target lines' = .ok m ↔ ofLines source target lines = .ok m := by
  cases h with
  | @mk header header' text text' columns lines lines' htext hheader htext' hheader' hlines =>
      simp only [ofLines_cons_eq_ok_iff htext' hheader', ofLines_cons_eq_ok_iff htext hheader,
        hlines.tells_iff]

/-! ## The verdict -/

/-- What becomes of the lines of a file. -/
inductive Verdict (source target : String) : List Line → Except Error Mappings → Prop
  /-- There has to be a header. -/
  | noHeader : Verdict source target [] (.error .noHeader)
  /-- A header that has not both schemes is blamed, whatever is below it. -/
  | badHeader {header : Line} {below : List Line} {e : Error}
      (hheader : BadHeader source target header e) :
      Verdict source target (header :: below) (.error e)
  /-- Below a header with both, the first line that offends is blamed. -/
  | badLine {header line : Line} {text : String} {columns : Columns} {above below : List Line}
      {e : Error} (htext : header.text = .ok text)
      (hheader : SaysHeader source target text columns) (habove : Sound columns above)
      (hline : Offends columns line e) (hnumber : e.NamesLine (above.length + 2)) :
      Verdict source target (header :: (above ++ line :: below)) (.error e)
  /-- Without such a line, the first method with a bad descriptor is blamed. -/
  | badDescriptor {header : Line} {text : String} {columns : Columns} {lines : List Line}
      {before after : List Row} {row : Row} {e : Declaration.BadDescriptor}
      (htext : header.text = .ok text) (hheader : SaysHeader source target text columns)
      (hsound : Sound columns lines)
      (hrows : List.Forall₂ (SaysLine columns) lines (before ++ row :: after))
      (hbefore : ∀ b ∈ before, ∀ e', ¬ b.HasFault e') (hrow : row.HasFault e) :
      Verdict source target (header :: lines) (.error (.badDescriptor e))
  /-- Without either, the file is read. -/
  | accepted {header : Line} {text : String} {columns : Columns} {lines : List Line}
      {rows : List Row} {m : Mappings} (htext : header.text = .ok text)
      (hheader : SaysHeader source target text columns) (hsound : Sound columns lines)
      (hrows : List.Forall₂ (SaysLine columns) lines rows)
      (hfaults : ∀ row ∈ rows, ∀ e, ¬ row.HasFault e)
      (hm : Mappings.ofDeclarations (declarations rows) = .ok m) :
      Verdict source target (header :: lines) (.ok m)

/-- A line is read exactly if it is not bad. -/
theorem exists_readRow_iff (columns : Columns) (line : Line) :
    (∃ row, readRow columns line = .ok row) ↔ ¬ Bad columns line := by
  simp only [← exists_offends_iff, ← readRow_eq_error_iff]
  cases readRow columns line <;> simp

theorem sound_iff (columns : Columns) (lines : List Line) :
    Sound columns lines ↔ ∀ line ∈ lines, ∃ row, readRow columns line = .ok row := by
  simp only [exists_readRow_iff, Sound]

/-- Rows that were read make tables, or a descriptor is blamed. -/
theorem verdict_of_rows {source target : String} {header : Line} {text : String}
    {columns : Columns} (htext : header.text = .ok text)
    (hheader : SaysHeader source target text columns) {lines : List Line} {rows : List Row}
    (hsound : Sound columns lines) (hrows : List.Forall₂ (SaysLine columns) lines rows) :
    Verdict source target (header :: lines) (ofLines source target (header :: lines)) := by
  have hspells : Spells source target (header :: lines) rows := .file htext hheader hrows
  rw [hspells.ofLines_eq]
  cases hresult : Mappings.ofDeclarations (declarations rows) with
  | ok m =>
      have hfaults := (exists_ofDeclarations_declarations_iff rows).mp ⟨m, hresult⟩
      exact .accepted htext hheader hsound hrows hfaults hresult
  | error e =>
      obtain ⟨before, row, after, rfl, hbefore, hrow⟩ :=
        (ofDeclarations_declarations_eq_error_iff rows e).mp hresult
      exact .badDescriptor htext hheader hsound hrows hbefore hrow

/-- The verdict on lines below a header with both schemes. -/
theorem verdict_of_header {source target : String} {header : Line} {columns : Columns}
    (hcolumns : parseHeader header source target = .ok columns) {lines : List Line}
    (hnumber : ∀ above line below, lines = above ++ line :: below →
      line.number = above.length + 2) :
    Verdict source target (header :: lines) (ofLines source target (header :: lines)) := by
  obtain ⟨text, htext, hheader⟩ := (parseHeader_eq_ok_iff header source target columns).mp hcolumns
  cases hrows : lines.mapM (readRow columns) with
  | ok rows =>
      have hsound := (sound_iff columns lines).mpr ((Traversal.exists_mapM_iff _ _).mp ⟨_, hrows⟩)
      simp only [Traversal.mapM_eq_ok_iff, readRow_eq_ok_iff] at hrows
      exact verdict_of_rows htext hheader hsound hrows
  | error e =>
      obtain ⟨above, line, below, rfl, habove, hline⟩ :=
        (Traversal.mapM_eq_error_iff _ _ _).mp hrows
      have hoffends := (readRow_eq_error_iff columns line e).mp hline
      have hread : ofLines source target (header :: (above ++ line :: below)) = .error e := by
        rw [ofLines_eq, readRows, hcolumns]
        exact congrArg (· >>= _) hrows
      rw [hread]
      refine .badLine htext hheader ((sound_iff columns above).mpr habove) hoffends ?_
      exact hnumber above line below rfl ▸ hoffends.namesLine

/-- **The first offender is blamed**: a tiny file fails at a header that has not both schemes,
whatever is below it. Else it fails at its first line that offends, by the number of the line, else
at its first method with a bad descriptor, by the key of the method, and else it is read. Padding
changes nothing about what is read. -/
theorem verdict_read (source target : String) (file : Bytes) :
    Verdict source target (Line.ofBytes file) (read source target file) ∧
      (∀ header e below file' below', BadHeader source target header e →
        Line.ofBytes file = header :: below → Line.ofBytes file' = header :: below' →
        read source target file' = read source target file) ∧
      ∀ file', PadsFile source target (Line.ofBytes file) (Line.ofBytes file') →
        ∀ m, read source target file' = .ok m ↔ read source target file = .ok m := by
  refine ⟨?verdict, ?header, fun file' hpads m => hpads.ofLines_eq_ok_iff m⟩
  case verdict =>
    rw [read]
    cases hlines : Line.ofBytes file with
    | nil => exact .noHeader
    | cons header lines =>
        cases hcolumns : parseHeader header source target with
        | error e =>
            rw [ofLines, hcolumns]
            exact .badHeader ((parseHeader_eq_error_iff source target header e).mp hcolumns)
        | ok columns =>
            refine verdict_of_header hcolumns fun above line below hparts => ?_
            have hfile : Line.ofBytes file = (header :: above) ++ line :: below := by
              rw [hlines, hparts, List.cons_append]
            exact Line.number_of_ofBytes hfile
  case header =>
    intro header e below file' below' hbad hfile hfile'
    have hfails := (parseHeader_eq_error_iff source target header e).mpr hbad
    rw [read, read, hfile, hfile', ofLines, ofLines, hfails]
    rfl

/-- A bad descriptor loses against a short row below it, which has a column too few for the second
scheme. -/
example : read "a" "b" (Utf8.encode "v\ta\tb\nMETHOD\to\t(Lc)V\tm\tn\n\nCLASS\tc\n")
    = .error (.badLine 4 "CLASS\tc" ⟨3, 2⟩) := by decide

end Namebridge.Tiny
