import Mathlib.Data.List.Perm.Basic
import Namebridge.Proofs.TinyVerdict

/-!
# The order of rows in a tiny file

A member row looks its owner up among the class rows above it. Where all classes come first, every
member sees all of them, and shuffled rows declare the same in another order, as far as no name is
declared twice (`Row.Shuffled.perm_declarations`). Rows with other tags declare nothing wherever
they stand. So files can be `Reordered` with the same outcome: `read_reordered`.
-/

namespace Namebridge.Tiny

/-! ## Lines in another order -/

/-- The first column of a row. -/
def tag? (text : String) : Option String := (Text.fields '\t' text).head?

/-- The line is a row of a class or of a member, or it cannot be read. -/
def Speaks (line : Except Line.Fault String) : Prop :=
  ∀ text ∈ line.toOption, tag? text ∈ [some "CLASS", some "FIELD", some "METHOD"]

instance (line : Except Line.Fault String) : Decidable (Speaks line) :=
  inferInstanceAs (Decidable (∀ _ ∈ _, _))

/-- The lines without rows that have other tags. -/
def speaking (lines : List (Except Line.Fault String)) : List (Except Line.Fault String) :=
  lines.filter (Speaks ·)

/-- Rows of classes, and the rows of members below them. A line that cannot be read may stand for
either. -/
structure Body where
  classes : List (Except Line.Fault String)
  members : List (Except Line.Fault String)
  classes_tagged : ∀ line ∈ classes, ∀ text ∈ line.toOption, tag? text = some "CLASS" := by decide
  members_tagged : ∀ line ∈ members, ∀ text ∈ line.toOption,
    tag? text ∈ [some "FIELD", some "METHOD"] := by decide

namespace Body

/-- The lines of all rows. -/
def lines (b : Body) : List (Except Line.Fault String) := b.classes ++ b.members

/-- The classes in another order, and the members in another order. -/
structure Shuffled (b b' : Body) : Prop where
  classes : b.classes.Perm b'.classes
  members : b.members.Perm b'.members

theorem Shuffled.symm {b b' : Body} (h : b.Shuffled b') : b'.Shuffled b :=
  ⟨h.classes.symm, h.members.symm⟩

end Body

/-- The lines of a file in another order, below the same header. The classes still come first, and
rows with other tags come and go. -/
inductive Reordered : List (Except Line.Fault String) → List (Except Line.Fault String) → Prop
  | empty : Reordered [] []
  | below {header : Except Line.Fault String} {lines lines' : List (Except Line.Fault String)}
      {b b' : Body} (hlines : speaking lines = b.lines) (hlines' : speaking lines' = b'.lines)
      (hbody : b.Shuffled b') : Reordered (header :: lines) (header :: lines')

theorem Reordered.symm {texts texts' : List (Except Line.Fault String)}
    (h : Reordered texts texts') : Reordered texts' texts := by
  cases h with
  | empty => exact .empty
  | below hlines hlines' hbody => exact .below hlines' hlines hbody.symm

/-! ## Rows in another order -/

/-- Rows of classes in another order, and below them rows of members in another order. -/
inductive Row.Shuffled : List Row → List Row → Prop
  | mk {classes classes' members members' : List Row} (hclasses : classes.Perm classes')
      (hmembers : members.Perm members') (hfirst : ∀ row ∈ classes, row.classPair? ≠ none)
      (hthen : ∀ row ∈ members, row.classPair? = none) :
      Shuffled (classes ++ members) (classes' ++ members')

theorem Row.Shuffled.symm {rows rows' : List Row} (h : Row.Shuffled rows rows') :
    Row.Shuffled rows' rows := by
  cases h with
  | mk hclasses hmembers hfirst hthen =>
      exact .mk hclasses.symm hmembers.symm (fun row hrow => hfirst row (hclasses.mem_iff.mpr hrow))
        fun row hrow => hthen row (hmembers.mem_iff.mpr hrow)

theorem map_fst_classPair? (rows : List Row) :
    (rows.filterMap Row.classPair?).map Prod.fst = rows.filterMap (Row.key? .classes) := by
  rw [List.map_filterMap]
  refine List.filterMap_congr fun row _ => ?_
  cases row <;> rfl

/-- What rows declare depends on the names of the owners only. -/
theorem declaration?_of_agrees {classes classes' : NameTable} (h : classes.Agrees classes') :
    Row.declaration? classes = Row.declaration? classes' := by
  funext row
  cases row <;> simp only [Row.declaration?, NameTable.rename_of_agrees h]

/-- Rows of classes declare the same whatever is known above them. -/
theorem declarations_of_classes (classes : NameTable) {rows : List Row}
    (h : ∀ row ∈ rows, row.classPair? ≠ none) :
    declarations rows = rows.filterMap (Row.declaration? classes) := by
  induction rows using List.reverseRecOn with
  | nil => rfl
  | append_singleton rows row ih =>
      rw [List.forall_mem_append, List.forall_mem_singleton] at h
      rw [declarations_concat, ih h.1, List.filterMap_append]
      refine congrArg _ ?_
      cases row with
      | classNamed source target => rfl
      | field owner source target => exact absurd rfl h.2
      | method owner descriptor source target => exact absurd rfl h.2
      | other => exact absurd rfl h.2

/-- Where classes come first, each row declares what it does when all of them are known. -/
theorem declarations_classes_append {classes members : List Row}
    (hfirst : ∀ row ∈ classes, row.classPair? ≠ none)
    (hthen : ∀ row ∈ members, row.classPair? = none) :
    declarations (classes ++ members)
      = (classes ++ members).filterMap (Row.declaration? (classTable classes)) := by
  rw [declarations_append_members _ hthen, declarations_of_classes (classTable classes) hfirst,
    List.filterMap_append]

/-- Shuffled rows declare the same in another order, where no class is declared twice. -/
theorem Row.Shuffled.perm_declarations {rows rows' : List Row} (h : Row.Shuffled rows rows')
    (hdistinct : Declaration.Distinct (declarations rows)) :
    (declarations rows).Perm (declarations rows') := by
  cases h with
  | @mk classes classes' members members' hclasses hmembers hfirst hthen =>
      have hfirst' : ∀ row ∈ classes', row.classPair? ≠ none := fun row hrow =>
        hfirst row (hclasses.mem_iff.mpr hrow)
      have hthen' : ∀ row ∈ members', row.classPair? = none := fun row hrow =>
        hthen row (hmembers.mem_iff.mpr hrow)
      have hkeys : ((classes.filterMap Row.classPair?).map Prod.fst).Nodup := by
        have hall := hdistinct .classes
        rw [map_key_declarations, List.filterMap_append] at hall
        rw [map_fst_classPair?]
        exact hall.of_append_left
      -- the tables of classes differ in their order only, which no member sees
      have htable : (classTable classes).Agrees (classTable classes') :=
        OrderedMap.agrees_ofPairs_of_perm (hclasses.filterMap _) hkeys
      rw [declarations_classes_append hfirst hthen, declarations_classes_append hfirst' hthen',
        declaration?_of_agrees htable]
      exact (hclasses.append hmembers).filterMap _

/-! ## What lines in another order say -/

/-- What a line with this text says. -/
def SaysText (columns : Columns) (line : Except Line.Fault String) (row : Row) : Prop :=
  ∃ text, line = .ok text ∧ SaysRow columns (Text.fields '\t' text) row

theorem saysLine_iff (columns : Columns) (line : Line) (row : Row) :
    SaysLine columns line row ↔ SaysText columns line.text row := by
  refine exists_congr fun text => ?_
  simp only [← Text.fields_eq_iff, exists_and_left, exists_eq_left']

/-- A row that says something has one of the three tags. -/
theorem SaysText.speaks_iff {columns : Columns} {line : Except Line.Fault String} {row : Row}
    (h : SaysText columns line row) : Speaks line ↔ row ≠ .other := by
  obtain ⟨text, rfl, hrow⟩ := h
  have htag : tag? text = (Text.fields '\t' text)[0]? := List.head?_eq_getElem?
  simp only [Speaks, Except.toOption, Option.mem_def, Option.some.injEq, forall_eq', htag]
  cases hrow with
  | classRow htag => simp [htag]
  | fieldRow htag => simp [htag]
  | methodRow htag => simp [htag]
  | otherRow hclass hfield hmethod => simp [hclass, hfield, hmethod]

/-- A row names a class exactly if its tag is that of a class. -/
theorem SaysText.classPair?_eq_none_iff {columns : Columns} {line : Except Line.Fault String}
    {row : Row} (h : SaysText columns line row) :
    row.classPair? = none ↔ ∀ text ∈ line.toOption, tag? text ≠ some "CLASS" := by
  obtain ⟨text, rfl, hrow⟩ := h
  have htag : tag? text = (Text.fields '\t' text)[0]? := List.head?_eq_getElem?
  simp only [Except.toOption, Option.mem_def, Option.some.injEq, forall_eq', htag]
  cases hrow with
  | classRow htag => simp [htag, Row.classPair?]
  | fieldRow htag => simp [htag, Row.classPair?]
  | methodRow htag => simp [htag, Row.classPair?]
  | otherRow hclass => simp [hclass, Row.classPair?]

/-- A line that does not speak says nothing. -/
theorem saysText_other {line : Except Line.Fault String} (h : ¬ Speaks line) (columns : Columns) :
    SaysText columns line .other := by
  simp only [Speaks, not_forall, Option.mem_def] at h
  obtain ⟨text, htext, htag⟩ := h
  cases line with
  | error fault => cases htext
  | ok text =>
      cases htext
      simp only [List.mem_cons, List.not_mem_nil, or_false, not_or] at htag
      rw [tag?, List.head?_eq_getElem?] at htag
      exact ⟨text, rfl, .otherRow htag.1 htag.2.1 htag.2.2⟩

/-- What is told is what the lines that speak say. -/
theorem tells_iff (columns : Columns) (lines : List Line) (rows : List Row) :
    Tells columns lines rows ↔
      List.Forall₂ (SaysText columns) (speaking (lines.map Line.text)) rows := by
  -- by induction on the lines: one is left out exactly if its row is
  induction lines generalizing rows with
  | nil => simp [Tells, speaking, spoken, eq_comm]
  | cons line rest ih =>
      simp only [tells_cons_iff, saysLine_iff, ih]
      by_cases hspeaks : Speaks line.text
      · have hlines : speaking ((line :: rest).map Line.text)
            = line.text :: speaking (rest.map Line.text) := by simp [speaking, hspeaks]
        rw [hlines, List.forall₂_cons_left_iff]
        refine exists_congr fun row => exists_congr fun told => and_congr_right fun hrow => ?_
        have hspoken : spoken [row] = [row] := by simp [spoken, hrow.speaks_iff.mp hspeaks]
        rw [hspoken, List.singleton_append]
      · have hlines : speaking ((line :: rest).map Line.text) = speaking (rest.map Line.text) := by
          simp [speaking, hspeaks]
        rw [hlines]
        constructor
        · intro h
          obtain ⟨row, told, hrow, htold, rfl⟩ := h
          obtain rfl : row = .other := not_not.mp fun hne => hspeaks (hrow.speaks_iff.mpr hne)
          exact htold
        · intro h
          exact ⟨.other, rows, saysText_other hspeaks columns, h, rfl⟩

/-- Shuffled lines say shuffled rows. -/
theorem Body.Shuffled.exists_rows {b b' : Body} (h : b.Shuffled b') {columns : Columns}
    {rows : List Row} (hrows : List.Forall₂ (SaysText columns) b.lines rows) :
    ∃ rows', List.Forall₂ (SaysText columns) b'.lines rows' ∧ Row.Shuffled rows rows' := by
  obtain ⟨classes, members, hclasses, hmembers, rfl⟩ :=
    Traversal.forall₂_append_left_iff.mp hrows
  obtain ⟨classes', hclasses', hpermClasses⟩ := List.perm_comp_forall₂ h.classes.symm hclasses
  obtain ⟨members', hmembers', hpermMembers⟩ := List.perm_comp_forall₂ h.members.symm hmembers
  refine ⟨classes' ++ members', List.rel_append hclasses' hmembers',
    .mk hpermClasses.symm hpermMembers.symm (fun row hrow hnone => ?named) fun row hrow => ?member⟩
  case named =>
    obtain ⟨line, hline, hsaid⟩ := Traversal.exists_of_mem_right hclasses hrow
    have htag := hsaid.classPair?_eq_none_iff.mp hnone
    obtain ⟨text, rfl, -⟩ := hsaid
    exact htag text rfl (b.classes_tagged _ hline text rfl)
  case member =>
    obtain ⟨line, hline, hsaid⟩ := Traversal.exists_of_mem_right hmembers hrow
    refine hsaid.classPair?_eq_none_iff.mpr fun text htext hclass => ?_
    have htag := b.members_tagged line hline text htext
    simp [hclass] at htag

/-- Lines in another order spell rows that say the same in another order. -/
theorem Reordered.exists_spells {lines lines' : List Line}
    (h : Reordered (lines.map Line.text) (lines'.map Line.text)) {source target : String}
    {rows : List Row} (hspells : Spells source target lines rows) :
    ∃ rows', Spells source target lines' rows' ∧ Row.Shuffled (spoken rows) (spoken rows') := by
  cases hspells with
  | @file header text columns lines rows htext hheader hrows =>
      generalize htexts : lines'.map Line.text = texts' at h
      rw [List.map_cons] at h
      cases h with
      | @below _ _ _ b b' hlines hlines' hbody =>
          obtain ⟨header', lines', rfl, hsame, rfl⟩ := List.map_eq_cons_iff.mp htexts
          have htells : Tells columns lines (spoken rows) := ⟨rows, hrows, rfl⟩
          rw [tells_iff, hlines] at htells
          obtain ⟨told, htold, hshuffled⟩ := hbody.exists_rows htells
          rw [← hlines', ← tells_iff] at htold
          obtain ⟨rows', hrows', rfl⟩ := htold
          exact ⟨rows', .file (hsame.trans htext) hheader hrows', hshuffled⟩

/-! ## Files in another order -/

theorem distinct_declarations_iff (rows : List Row) :
    Declaration.Distinct (declarations rows) ↔
      ∀ kind, (rows.filterMap (Row.key? kind)).Nodup := by
  simp only [Declaration.Distinct, map_key_declarations]

/-- **Rows can stand in any order below the classes**: where no class, no field and no method is
declared twice, the classes of a tiny file can be reordered, and the members below them, and rows
with other tags can come and go. All orders are refused, or all are read into the same entries. -/
theorem read_reordered (source target : String) {file file' : Bytes}
    (h : Reordered (Line.texts file) (Line.texts file'))
    (hdistinct : ∀ rows, Spells source target (Line.ofBytes file) rows →
      ∀ kind, (rows.filterMap (Row.key? kind)).Nodup) :
    Mappings.SameOutcome (read source target file) (read source target file') := by
  have hread (file : Bytes) (m : Mappings) : read source target file = .ok m ↔
      ∃ ds, (∃ rows, Spells source target (Line.ofBytes file) rows ∧ declarations rows = ds) ∧
        Mappings.ofDeclarations ds = .ok m := by
    rw [read, ofLines_eq_ok_iff]
    simp only [exists_exists_and_eq_and]
  have hperm {rows rows' : List Row} (hrows : Spells source target (Line.ofBytes file) rows)
      (hshuffled : Row.Shuffled (spoken rows) (spoken rows')) :
      (declarations rows).Perm (declarations rows') := by
    rw [← declarations_spoken rows, ← declarations_spoken rows']
    refine hshuffled.perm_declarations ?_
    rw [declarations_spoken, distinct_declarations_iff]
    exact hdistinct rows hrows
  refine Mappings.sameOutcome_of_perm (hread file) (hread file') ?there ?back ?distinct
  case there =>
    rintro _ ⟨rows, hrows, rfl⟩
    obtain ⟨rows', hrows', hshuffled⟩ := h.exists_spells hrows
    exact ⟨_, ⟨rows', hrows', rfl⟩, hperm hrows hshuffled⟩
  case back =>
    rintro _ ⟨rows', hrows', rfl⟩
    obtain ⟨rows, hrows, hshuffled⟩ := h.symm.exists_spells hrows'
    exact ⟨_, ⟨rows, hrows, rfl⟩, hperm hrows hshuffled.symm⟩
  case distinct =>
    rintro _ ⟨rows, hrows, rfl⟩
    exact (distinct_declarations_iff rows).mpr (hdistinct rows hrows)

/-- Two classes, and members that mention both. -/
def listed : Body where
  classes := [.ok "CLASS\ta\tA", .ok "CLASS\tc\tC"]
  members := [.ok "METHOD\ta\t(Lc;)V\tm\tn", .ok "FIELD\tc\tI\tf\tx"]

/-- The same, each the other way round. -/
def listedBackwards : Body where
  classes := [.ok "CLASS\tc\tC", .ok "CLASS\ta\tA"]
  members := [.ok "FIELD\tc\tI\tf\tx", .ok "METHOD\ta\t(Lc;)V\tm\tn"]

/-- A field changes places with a method, and there are an empty line and a comment. -/
theorem read_reordered_backwards :
    Mappings.SameOutcome
      (read "o" "n" (Utf8.encode
        "v\to\tn\nCLASS\ta\tA\nCLASS\tc\tC\nMETHOD\ta\t(Lc;)V\tm\tn\nFIELD\tc\tI\tf\tx\n"))
      (read "o" "n" (Utf8.encode
        "v\to\tn\n\nCLASS\tc\tC\n#\nCLASS\ta\tA\nFIELD\tc\tI\tf\tx\nMETHOD\ta\t(Lc;)V\tm\tn")) := by
  have hbody : listed.Shuffled listedBackwards := ⟨.swap .., .swap ..⟩
  refine read_reordered "o" "n" (.below (by decide) (by decide) hbody) fun rows hspells => ?_
  rw [spells_iff] at hspells
  have hrows : rows = [.classNamed "a" "A", .classNamed "c" "C",
      .method "a" "(Lc;)V" "m" "n", .field "c" "f" "x"] :=
    Except.ok.inj (hspells.symm.trans (by decide))
  subst hrows
  intro kind
  cases kind <;> decide

/-- A member does not see a class below it. -/
example : (read "o" "n" (Utf8.encode "v\to\tn\nFIELD\tc\tI\tf\tx\nCLASS\tc\tC\n")).map
    (fun m => m.fields.get? "c:f") = .ok (some "c:x") := by decide

end Namebridge.Tiny
