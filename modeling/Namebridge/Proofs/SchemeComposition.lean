import Namebridge.Proofs.SchemeView
import Namebridge.Proofs.TinyVerdict

/-!
# Three schemes of one file

The class rows of a tiny file are one list, from which each pair of schemes takes two names. So the
tables that are read between the schemes are tables `between` names of the same items: two of them
chained are the third (`chain_between`), and one turned around is the one that is read the other way
(`inverse_between`), as far as the names determine each other. That is `read_classes_compose`.
-/

namespace Namebridge

namespace NameTable

open OrderedMap

/-! ## Tables read off one list -/

variable {ι : Type} {items : List ι} {first second third : ι → String}

/-- The table that gives one name of each item another one. -/
def between (first second : ι → String) (items : List ι) : NameTable :=
  .ofPairs (items.map fun i => (first i, second i))

theorem keys_between (first second : ι → String) (items : List ι) :
    (between first second items).keys = (items.map first).eraseDups := by
  rw [between, keys_ofPairs, List.map_map]
  rfl

theorem get?_between (first second : ι → String) (items : List ι) (name : String) :
    (between first second items).get? name
      = (items.reverse.find? (first · = name)).map second :=
  get?_ofPairs_map first second items name

theorem between_concat (first second : ι → String) (items : List ι) (i : ι) :
    between first second (items ++ [i])
      = (between first second items).insert (first i) (second i) := by
  rw [between, List.map_append]
  exact ofPairs_concat _ (first i, second i)

/-- An item has an entry for its first name, if no other item says something else about it. -/
theorem get?_between_of_mem
    (h : ∀ i ∈ items, ∀ j ∈ items, first i = first j → second i = second j) {i : ι}
    (hi : i ∈ items) : (between first second items).get? (first i) = some (second i) := by
  rw [get?_between, Option.map_eq_some_iff]
  have hfound : (items.reverse.find? (first · = first i)).isSome := by
    rw [List.find?_isSome]
    exact ⟨i, List.mem_reverse.mpr hi, by simp⟩
  obtain ⟨j, hj⟩ := Option.isSome_iff_exists.mp hfound
  have hsame : first j = first i := by simpa using List.find?_some hj
  exact ⟨j, hj, h j (List.mem_reverse.mp (List.mem_of_find?_eq_some hj)) i hi hsame⟩

/-- What goes from the first names to the second ones goes on to the third, if no two items with one
second name differ in the third. -/
theorem chain_between
    (h : ∀ i ∈ items, ∀ j ∈ items, second i = second j → third i = third j) :
    (between first second items).chain (between second third items) .drop
      = between first third items := by
  have hmember {name : String} {i : ι} (hi : items.reverse.find? (first · = name) = some i) :
      i ∈ items := List.mem_reverse.mp (List.mem_of_find?_eq_some hi)
  apply eq_of_keys_eq
  · -- nothing is dropped
    rw [keys_between, chain_drop_eq, keys_filterMap_of_forall, keys_between]
    intro name middle hget
    rw [get?_between, Option.map_eq_some_iff] at hget
    obtain ⟨i, hi, rfl⟩ := hget
    exact ⟨third i, get?_between_of_mem h (hmember hi)⟩
  · intro name
    rw [get?_chain_drop, get?_between first second, get?_between first third]
    cases hi : items.reverse.find? (first · = name) with
    | none => rfl
    | some i => exact get?_between_of_mem h (hmember hi)

/-- Where the two names of an item determine each other, the table that goes from one to the other
is turned around by going the other way. -/
theorem inverse_between (h : ∀ i ∈ items, ∀ j ∈ items, first i = first j ↔ second i = second j) :
    (between first second items).inverse = between second first items := by
  -- the last item says what another one said, or something new in both directions
  induction items using List.reverseRecOn with
  | nil => rfl
  | append_singleton items i ih =>
      have hitems : ∀ j ∈ items, ∀ j' ∈ items, first j = first j' ↔ second j = second j' :=
        fun j hj j' hj' => h j (by simp [hj]) j' (by simp [hj'])
      have hlast : ∀ j ∈ items, first j = first i ↔ second j = second i :=
        fun j hj => h j (by simp [hj]) i (by simp)
      have ih := ih hitems
      rw [between_concat, between_concat]
      by_cases hseen : ∃ j ∈ items, first j = first i
      · obtain ⟨j, hj, hfirst⟩ := hseen
        have hsecond := (hlast j hj).mp hfirst
        have hthere := get?_between_of_mem (fun i hi j hj => (hitems i hi j hj).mp) hj
        have hback := get?_between_of_mem (fun i hi j hj => (hitems i hi j hj).mpr) hj
        rw [hfirst, hsecond] at hthere hback
        rw [insert_eq_self hthere, insert_eq_self hback, ih]
      · have hfirst : first i ∉ (between first second items).keys := by
          rw [keys_between, List.mem_eraseDups]
          simpa using hseen
        have hsecond : second i ∉ (between second first items).keys := by
          rw [keys_between, List.mem_eraseDups, List.mem_map]
          rintro ⟨j, hj, hsame⟩
          exact hseen ⟨j, hj, (hlast j hj).mpr hsame⟩
        have hvalues : second i ∉ (between first second items).values := by
          rwa [← ih, keys_inverse, List.mem_eraseDups] at hsecond
        have hentries : ((between first second items).insert (first i) (second i)).entries
            = (between first second items).entries ++ [(first i, second i)] :=
          upsert_of_not_mem (second i) hfirst
        apply OrderedMap.ext
        rw [entries_inverse_append hentries (by simp) (by simpa using hvalues), ih]
        exact (upsert_of_not_mem (first i) hsecond).symm

end NameTable

namespace Tiny

/-! ## Lines below a header -/

/-- The first line of a file is a header with these schemes, and these lines follow it. -/
inductive Headed : List Line → List String → List Line → Prop
  | mk {header : Line} {text first : String} {schemes : List String} {below : List Line}
      (htext : header.text = .ok text) (hjoins : Text.Joins '\t' (first :: schemes) text) :
      Headed (header :: below) schemes below

variable {source target : String} {lines below : List Line} {schemes : List String}
  {rows : List Row}

theorem Spells.exists_headed (h : Spells source target lines rows) :
    ∃ schemes below, Headed lines schemes below := by
  cases h with
  | file htext hheader hrows =>
      cases hheader with
      | mk hjoins hsource htarget => exact ⟨_, _, .mk htext hjoins⟩

/-- Below a header, the rows are said by the lines in the columns of the two schemes. -/
theorem Headed.spells_iff (h : Headed lines schemes below) :
    Spells source target lines rows ↔ ∃ columns, SchemesAt schemes source target columns ∧
      List.Forall₂ (SaysLine columns) below rows := by
  cases h with
  | @mk header text first _ _ htext hjoins =>
      constructor
      · intro h
        cases h with
        | file htext' hheader hrows =>
            cases htext.symm.trans htext'
            cases hheader with
            | mk hjoins' hsource htarget =>
                cases hjoins.unique hjoins'
                exact ⟨_, ⟨hsource, htarget⟩, hrows⟩
      · intro h
        obtain ⟨columns, hcolumns, hrows⟩ := h
        exact .file htext (.mk hjoins hcolumns.source hcolumns.target) hrows

/-! ## Lines that can be read -/

/-- A line names a method in whose descriptor a class name is not ended. -/
def LeavesOpen (line : Line) : Prop :=
  ∃ text cells descriptor, line.text = .ok text ∧ Text.Joins '\t' cells text ∧
    cells[0]? = some "METHOD" ∧ cells[2]? = some descriptor ∧ Descriptor.LeavesOpen descriptor

/-- Descriptors do not depend on the schemes. -/
theorem SaysLine.exists_hasFault_iff {columns : Columns} {line : Line} {row : Row}
    (h : SaysLine columns line row) : (∃ e, row.HasFault e) ↔ LeavesOpen line := by
  obtain ⟨text, cells, htext, hjoins, hrow⟩ := h
  constructor
  · intro h
    obtain ⟨e, hfault⟩ := h
    cases hfault with
    | method hopen =>
        cases hrow with
        | methodRow htag howner hdescriptor hsource htarget =>
            exact ⟨text, cells, _, htext, hjoins, htag, hdescriptor, hopen⟩
  · intro h
    obtain ⟨text', cells', descriptor, htext', hjoins', htag', hdescriptor', hopen⟩ := h
    cases htext.symm.trans htext'
    cases hjoins.unique hjoins'
    cases hrow with
    | classRow htag => simp [htag] at htag'
    | fieldRow htag => simp [htag] at htag'
    | methodRow htag howner hdescriptor hsource htarget =>
        cases hdescriptor.symm.trans hdescriptor'
        exact ⟨_, .method hopen⟩
    | otherRow hclass hfield hmethod => exact absurd htag' hmethod

/-- Columns that end no later need no more cells. -/
theorem Bad.mono {columns columns' : Columns} {line : Line}
    (hle : max columns.source columns.target ≤ max columns'.source columns'.target)
    (h : Bad columns line) : Bad columns' line := by
  cases h with
  | unreadable htext => exact .unreadable htext
  | short htext hjoins hshort =>
      cases hshort with
      | classRow htag hlength => exact .short htext hjoins (.classRow htag (by omega))
      | memberRow htag hlength => exact .short htext hjoins (.memberRow htag (by omega))

/-- A file can be read exactly if its header has both schemes, its rows reach as far as these, and
the descriptors are good. -/
theorem Headed.exists_ofLines_iff (h : Headed lines schemes below) :
    (∃ m, ofLines source target lines = .ok m) ↔
      ∃ columns, SchemesAt schemes source target columns ∧
        (∀ line ∈ below, ¬ Bad columns line) ∧ ∀ line ∈ below, ¬ LeavesOpen line := by
  simp only [ofLines_eq_ok_iff, h.spells_iff]
  constructor
  · intro hread
    obtain ⟨m, rows, ⟨columns, hcolumns, hrows⟩, hm⟩ := hread
    have hfaults := (exists_ofDeclarations_declarations_iff rows).mp ⟨m, hm⟩
    refine ⟨columns, hcolumns, fun line hline => ?_, fun line hline hopen => ?_⟩
    · obtain ⟨row, -, hrow⟩ := Traversal.exists_of_mem_left hrows hline
      exact (exists_readRow_iff columns line).mp ⟨row, (readRow_eq_ok_iff _ _ _).mpr hrow⟩
    · obtain ⟨row, hmem, hrow⟩ := Traversal.exists_of_mem_left hrows hline
      obtain ⟨e, hfault⟩ := hrow.exists_hasFault_iff.mpr hopen
      exact hfaults row hmem e hfault
  · intro hparts
    obtain ⟨columns, hcolumns, hsound, hclosed⟩ := hparts
    obtain ⟨rows, hrows⟩ :=
      (Traversal.exists_mapM_iff _ _).mpr ((sound_iff columns below).mp hsound)
    simp only [Traversal.mapM_eq_ok_iff, readRow_eq_ok_iff] at hrows
    have hfaults : ∀ row ∈ rows, ∀ e, ¬ row.HasFault e := by
      intro row hrow e hfault
      obtain ⟨line, hline, hsaid⟩ := Traversal.exists_of_mem_right hrows hrow
      exact hclosed line hline (hsaid.exists_hasFault_iff.mp ⟨e, hfault⟩)
    obtain ⟨m, hm⟩ := (exists_ofDeclarations_declarations_iff rows).mpr hfaults
    exact ⟨m, rows, ⟨columns, hcolumns, hrows⟩, hm⟩

theorem SchemesAt.unique {columns columns' : Columns}
    (h : SchemesAt schemes source target columns) (h' : SchemesAt schemes source target columns') :
    columns = columns' := by
  cases columns
  cases columns'
  rw [Columns.mk.injEq]
  exact ⟨h.source.unique h'.source, h.target.unique h'.target⟩

/-- A file that can be read from a first scheme to a second one, and from there to a third, can be
read from the first to the third. -/
theorem Headed.exists_ofLines_trans {first second third : String} (h : Headed lines schemes below)
    (h₁ : ∃ m, ofLines first second lines = .ok m) (h₂ : ∃ m, ofLines second third lines = .ok m) :
    ∃ m, ofLines first third lines = .ok m := by
  obtain ⟨columns, hcolumns, hsound, hclosed⟩ := h.exists_ofLines_iff.mp h₁
  obtain ⟨columns', hcolumns', hsound', -⟩ := h.exists_ofLines_iff.mp h₂
  refine h.exists_ofLines_iff.mpr ⟨⟨columns.source, columns'.target⟩,
    ⟨hcolumns.source, hcolumns'.target⟩, fun line hline hbad => ?_, hclosed⟩
  -- a line that is too short for the outer columns is so for one of the inner pairs
  rcases Nat.le_total columns.source columns'.target with hle | hle
  · exact hsound' line hline (hbad.mono (by dsimp only; omega))
  · exact hsound line hline (hbad.mono (by dsimp only; omega))

/-- A file can be read between two schemes in both directions or in none. -/
theorem Headed.exists_ofLines_symm {first second : String} (h : Headed lines schemes below)
    (h₁ : ∃ m, ofLines first second lines = .ok m) :
    ∃ m, ofLines second first lines = .ok m := by
  obtain ⟨columns, hcolumns, hsound, hclosed⟩ := h.exists_ofLines_iff.mp h₁
  refine h.exists_ofLines_iff.mpr ⟨⟨columns.target, columns.source⟩,
    ⟨hcolumns.target, hcolumns.source⟩, fun line hline hbad => ?_, hclosed⟩
  exact hsound line hline (hbad.mono (by dsimp only; omega))

/-! ## The class rows of a file -/

/-- The cells of a row that names a class. -/
def classCells? (line : Line) : Option (List String) :=
  match line.text with
  | .ok text =>
      let cells := Text.fields '\t' text
      if cells[0]? = some "CLASS" then some cells else none
  | .error _ => none

/-- The name of a class in a column. -/
def nameIn (column : Nat) (cells : List String) : String := cells.getD (column + 1) ""

theorem SaysLine.classPair?_eq {columns : Columns} {line : Line} {row : Row}
    (h : SaysLine columns line row) : row.classPair?
      = (classCells? line).map fun cells =>
          (nameIn columns.source cells, nameIn columns.target cells) := by
  obtain ⟨text, cells, htext, hjoins, hrow⟩ := h
  rw [classCells?, htext]
  simp only [(Text.fields_eq_iff '\t' text cells).mpr hjoins]
  cases hrow with
  | classRow htag hsource htarget => simp [htag, Row.classPair?, nameIn, hsource, htarget]
  | fieldRow htag => simp [htag, Row.classPair?]
  | methodRow htag => simp [htag, Row.classPair?]
  | otherRow hclass => simp [hclass, Row.classPair?]

/-- The pairs that rows have for their classes are taken off the cells of the file. -/
theorem filterMap_classPair?_eq {columns : Columns}
    (h : List.Forall₂ (SaysLine columns) below rows) : rows.filterMap Row.classPair?
      = (below.filterMap classCells?).map fun cells =>
          (nameIn columns.source cells, nameIn columns.target cells) := by
  induction h with
  | nil => rfl
  | cons hrow _ ih =>
      rw [List.filterMap_cons, List.filterMap_cons, hrow.classPair?_eq, ih]
      cases classCells? _ <;> rfl

/-- No two rows for one name differ in its counterpart. -/
def Row.Functional (rows : List Row) : Prop :=
  ∀ s t t', .classNamed s t ∈ rows → .classNamed s t' ∈ rows → t = t'

/-- Two rows have one name exactly if they have one counterpart. -/
def Row.OneToOne (rows : List Row) : Prop :=
  ∀ s t s' t', .classNamed s t ∈ rows → .classNamed s' t' ∈ rows → (s = s' ↔ t = t')

theorem classNamed_nameIn_mem {columns : Columns} (h : List.Forall₂ (SaysLine columns) below rows)
    {cells : List String} (hcells : cells ∈ below.filterMap classCells?) :
    .classNamed (nameIn columns.source cells) (nameIn columns.target cells) ∈ rows := by
  rw [classNamed_mem_iff, filterMap_classPair?_eq h]
  exact List.mem_map_of_mem hcells

/-! ## Three schemes -/

theorem Headed.forall₂_saysLine (h : Headed lines schemes below) {columns : Columns}
    (hcolumns : SchemesAt schemes source target columns)
    (hspells : Spells source target lines rows) : List.Forall₂ (SaysLine columns) below rows := by
  obtain ⟨columns', hcolumns', hrows⟩ := h.spells_iff.mp hspells
  rw [hcolumns.unique hcolumns']
  exact hrows

/-- The table of classes goes between the names in the columns of the two schemes. -/
theorem Headed.classes_eq_between (h : Headed lines schemes below) {columns : Columns}
    (hcolumns : SchemesAt schemes source target columns) {m : Mappings}
    (hm : ofLines source target lines = .ok m) :
    m.classes = .between (nameIn columns.source) (nameIn columns.target)
      (below.filterMap classCells?) := by
  obtain ⟨rows, hspells, hm⟩ := (ofLines_eq_ok_iff source target lines m).mp hm
  have hrows := h.forall₂_saysLine hcolumns hspells
  rw [classes_eq_classTable hm, classTable, filterMap_classPair?_eq hrows]
  rfl

/-- **Three schemes**: a file that can be read from a first scheme to a second one, and from there
to a third, can be read from the first to the third. If no two class rows with one second name
differ in the third, the tables of classes chained are what is then read, in the same order, also
where first names repeat. If first and second names determine each other, what is read the other way
is the table of classes turned around. -/
theorem read_classes_compose {first second : String} {file : Bytes} {m : Mappings}
    {rows : List Row} (hm : read first second file = .ok m)
    (hrows : Spells first second (Line.ofBytes file) rows) :
    (∀ third n rows', read second third file = .ok n →
      Spells second third (Line.ofBytes file) rows' → Row.Functional rows' →
      ∃ whole, read first third file = .ok whole ∧
        (m.chain n .drop).classes = whole.classes) ∧
    (Row.OneToOne rows → ∃ back, read second first file = .ok back ∧
      back.classes = m.inverse.classes) := by
  obtain ⟨schemes, below, hfile⟩ := hrows.exists_headed
  obtain ⟨columns, hcolumns, hnamed⟩ := hfile.spells_iff.mp hrows
  constructor
  · intro third n rows' hn hrows' hfunctional
    obtain ⟨columns', hcolumns', hnamed'⟩ := hfile.spells_iff.mp hrows'
    have hmiddle : columns.target = columns'.source := hcolumns.target.unique hcolumns'.source
    have hwhole : SchemesAt schemes first third ⟨columns.source, columns'.target⟩ :=
      ⟨hcolumns.source, hcolumns'.target⟩
    obtain ⟨whole, hread⟩ := hfile.exists_ofLines_trans ⟨m, hm⟩ ⟨n, hn⟩
    refine ⟨whole, hread, ?_⟩
    show m.classes.chain n.classes .drop = whole.classes
    rw [hfile.classes_eq_between hcolumns hm, hfile.classes_eq_between hcolumns' hn,
      hfile.classes_eq_between hwhole hread, hmiddle]
    apply NameTable.chain_between
    intro cells hcells cells' hcells' hsame
    have hrow := classNamed_nameIn_mem hnamed' hcells
    rw [hsame] at hrow
    exact hfunctional _ _ _ hrow (classNamed_nameIn_mem hnamed' hcells')
  · intro hone
    have hback : SchemesAt schemes second first ⟨columns.target, columns.source⟩ :=
      ⟨hcolumns.target, hcolumns.source⟩
    obtain ⟨back, hread⟩ := hfile.exists_ofLines_symm ⟨m, hm⟩
    refine ⟨back, hread, ?_⟩
    show back.classes = m.classes.inverse
    rw [hfile.classes_eq_between hback hread, hfile.classes_eq_between hcolumns hm]
    refine (NameTable.inverse_between ?_).symm
    intro cells hcells cells' hcells'
    exact hone _ _ _ _ (classNamed_nameIn_mem hnamed hcells) (classNamed_nameIn_mem hnamed hcells')

/-- The class `p` is named twice, and goes to `Q` by way of its last name in the second scheme. -/
def threeNamed : Bytes :=
  Utf8.encode "v1\ta\tb\tc\nCLASS\tp\tx\tP\nCLASS\tq\ty\tQ\nCLASS\tp\ty\tQ\n"

theorem read_classes_compose_threeNamed :
    ∃ m n, read "a" "b" threeNamed = .ok m ∧ read "b" "c" threeNamed = .ok n ∧
      m.classes.entries = [("p", "y"), ("q", "y")] ∧
      n.classes.entries = [("x", "P"), ("y", "Q")] ∧
      (∃ whole, read "a" "c" threeNamed = .ok whole ∧
        (m.chain n .drop).classes = whole.classes) ∧
      ∃ back, read "c" "b" threeNamed = .ok back ∧ back.classes = n.inverse.classes := by
  have hm : read "a" "b" threeNamed = .ok { classes := .ofPairs [("p", "y"), ("q", "y")] } := by
    decide
  have hn : read "b" "c" threeNamed = .ok { classes := .ofPairs [("x", "P"), ("y", "Q")] } := by
    decide
  have hrows : Spells "a" "b" (Line.ofBytes threeNamed)
      [.classNamed "p" "x", .classNamed "q" "y", .classNamed "p" "y"] :=
    (spells_iff _ _ _ _).mpr (by decide)
  have hrows' : Spells "b" "c" (Line.ofBytes threeNamed)
      [.classNamed "x" "P", .classNamed "y" "Q", .classNamed "y" "Q"] :=
    (spells_iff _ _ _ _).mpr (by decide)
  have hone : Row.OneToOne [.classNamed "x" "P", .classNamed "y" "Q", .classNamed "y" "Q"] := by
    intro s t s' t' h h'
    simp only [List.mem_cons, Row.classNamed.injEq, List.not_mem_nil, or_false, or_self] at h h'
    rcases h with ⟨rfl, rfl⟩ | ⟨rfl, rfl⟩ <;> rcases h' with ⟨rfl, rfl⟩ | ⟨rfl, rfl⟩ <;> decide
  have hfunctional : Row.Functional [.classNamed "x" "P", .classNamed "y" "Q",
      .classNamed "y" "Q"] := fun s t t' h h' => (hone s t s t' h h').mp rfl
  exact ⟨_, _, hm, hn, by decide, by decide,
    (read_classes_compose hm hrows).1 "c" _ _ hn hrows' hfunctional,
    (read_classes_compose hn hrows').2 hone⟩

end Tiny

end Namebridge
