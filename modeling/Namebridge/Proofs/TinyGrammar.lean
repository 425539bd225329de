import Mathlib.Data.List.Induction
import Namebridge.Format.Tiny
import Namebridge.Proofs.Declaration
import Namebridge.Proofs.Cut

/-!
# The grammar of the tiny format

`SaysHeader` is where the header has the two schemes, `SaysRow` what the columns of one row say, and
`Spells` what the lines of a file say after the header. None of them mentions how a line is read.
`ofLines_eq_ok_iff` is that reading finds exactly this.

A member row names its owner in the source scheme only. What it declares depends on the class rows
before it: `mem_declarations_iff`.
-/

namespace Namebridge.Tiny

/-! ## Lines -/

/-- A column is the first one for a scheme. -/
structure SchemeAt (schemes : List String) (scheme : String) (column : Nat) : Prop where
  here : schemes[column]? = some scheme
  not_before : ∀ i < column, schemes[i]? ≠ some scheme

/-- Where the header has the two schemes, not counting its first column. -/
inductive SaysHeader (source target text : String) : Columns → Prop
  | mk {first : String} {schemes : List String} {sourceColumn targetColumn : Nat}
      (hjoins : Text.Joins '\t' (first :: schemes) text)
      (hsource : SchemeAt schemes source sourceColumn)
      (htarget : SchemeAt schemes target targetColumn) :
      SaysHeader source target text ⟨sourceColumn, targetColumn⟩

/-- What the columns of a row say. -/
inductive SaysRow (columns : Columns) (cells : List String) : Row → Prop
  | classRow {source target : String} (htag : cells[0]? = some "CLASS")
      (hsource : cells[columns.source + 1]? = some source)
      (htarget : cells[columns.target + 1]? = some target) :
      SaysRow columns cells (.classNamed source target)
  | fieldRow {owner source target : String} (htag : cells[0]? = some "FIELD")
      (howner : cells[1]? = some owner) (hsource : cells[columns.source + 3]? = some source)
      (htarget : cells[columns.target + 3]? = some target) :
      SaysRow columns cells (.field owner source target)
  | methodRow {owner descriptor source target : String} (htag : cells[0]? = some "METHOD")
      (howner : cells[1]? = some owner) (hdescriptor : cells[2]? = some descriptor)
      (hsource : cells[columns.source + 3]? = some source)
      (htarget : cells[columns.target + 3]? = some target) :
      SaysRow columns cells (.method owner descriptor source target)
  | otherRow (hclass : cells[0]? ≠ some "CLASS") (hfield : cells[0]? ≠ some "FIELD")
      (hmethod : cells[0]? ≠ some "METHOD") : SaysRow columns cells .other

/-- What a line after the header says. -/
def SaysLine (columns : Columns) (line : Line) (row : Row) : Prop :=
  ∃ text cells, line.text = .ok text ∧ Text.Joins '\t' cells text ∧ SaysRow columns cells row

/-- What the lines of a file say, after a header that has both schemes. -/
inductive Spells (source target : String) : List Line → List Row → Prop
  | file {header : Line} {text : String} {columns : Columns} {lines : List Line}
      {rows : List Row} (htext : header.text = .ok text)
      (hheader : SaysHeader source target text columns)
      (hrows : List.Forall₂ (SaysLine columns) lines rows) :
      Spells source target (header :: lines) rows

/-! ## Reading a line -/

theorem column_eq_ok_iff (cells : List String) (index : Nat) (cell : String) :
    column cells index = .ok cell ↔ cells[index]? = some cell := by
  rw [column]
  cases cells[index]? <;> simp

theorem schemeAt_iff (schemes : List String) (scheme : String) (i : Nat) :
    schemes.idxOf? scheme = some i ↔ SchemeAt schemes scheme i := by
  rw [List.idxOf?_eq_some_iff]
  constructor
  · intro h
    obtain ⟨hlt, hhere, hbefore⟩ := h
    refine ⟨by rw [List.getElem?_eq_getElem hlt, hhere], fun j hj => ?_⟩
    rw [List.getElem?_eq_getElem (Nat.lt_trans hj hlt)]
    exact fun heq => hbefore j hj (Option.some.inj heq)
  · intro h
    obtain ⟨hhere, hbefore⟩ := h
    obtain ⟨hlt, hhere⟩ := List.getElem?_eq_some_iff.mp hhere
    refine ⟨hlt, hhere, fun j hj heq => hbefore j hj ?_⟩
    rw [List.getElem?_eq_getElem (Nat.lt_trans hj hlt), heq]

theorem exists_schemeAt_iff (schemes : List String) (scheme : String) :
    (∃ i, SchemeAt schemes scheme i) ↔ scheme ∈ schemes := by
  simp only [← schemeAt_iff, ← Option.isSome_iff_exists, List.isSome_idxOf?]

theorem SchemeAt.unique {schemes : List String} {scheme : String} {i j : Nat}
    (h : SchemeAt schemes scheme i) (h' : SchemeAt schemes scheme j) : i = j := by
  rw [← schemeAt_iff] at h h'
  exact Option.some.inj (h.symm.trans h')

theorem findScheme_eq_ok_iff (header : Line) (text scheme : String) (i : Nat) :
    findScheme header text scheme = .ok i
      ↔ SchemeAt ((Text.fields '\t' text).drop 1) scheme i := by
  rw [← schemeAt_iff, findScheme]
  cases ((Text.fields '\t' text).drop 1).idxOf? scheme <;> simp

theorem parseHeader_eq_ok_iff (header : Line) (source target : String) (columns : Columns) :
    parseHeader header source target = .ok columns ↔
      ∃ text, header.text = .ok text ∧ SaysHeader source target text columns := by
  simp only [parseHeader, lineText, Traversal.bind_eq_ok_iff, Traversal.mapError_eq_ok_iff,
    findScheme_eq_ok_iff]
  constructor
  · intro hparts
    obtain ⟨text, htext, i, hsource, j, htarget, h⟩ := hparts
    cases h
    refine ⟨text, htext, ?_⟩
    obtain ⟨first, schemes, hfields⟩ :=
      List.exists_cons_of_ne_nil (Text.joins_fields '\t' text).ne_nil
    rw [hfields] at hsource htarget
    exact .mk (hfields ▸ Text.joins_fields '\t' text) hsource htarget
  · intro hparts
    obtain ⟨text, htext, hheader⟩ := hparts
    cases hheader with
    | @mk first schemes i j hjoins hsource htarget =>
        have hfields := (Text.fields_eq_iff '\t' text _).mpr hjoins
        refine ⟨text, htext, i, ?_, j, ?_, rfl⟩
        · rw [hfields]
          exact hsource
        · rw [hfields]
          exact htarget

theorem parseRow_eq_ok_iff (columns : Columns) (text : String) (row : Row) :
    parseRow columns text = .ok row ↔ SaysRow columns (Text.fields '\t' text) row := by
  generalize hcells : Text.fields '\t' text = cells
  unfold parseRow
  simp only [hcells, List.head?_eq_getElem?]
  constructor
  · intro h
    split at h
    · rename_i htag
      simp only [Traversal.bind_eq_ok_iff, column_eq_ok_iff] at h
      obtain ⟨source, hsource, target, htarget, h⟩ := h
      cases h
      exact .classRow htag hsource htarget
    · rename_i htag
      simp only [Traversal.bind_eq_ok_iff, column_eq_ok_iff] at h
      obtain ⟨owner, howner, source, hsource, target, htarget, h⟩ := h
      cases h
      exact .fieldRow htag howner hsource htarget
    · rename_i htag
      simp only [Traversal.bind_eq_ok_iff, column_eq_ok_iff] at h
      obtain ⟨owner, howner, descriptor, hdescriptor, source, hsource, target, htarget, h⟩ := h
      cases h
      exact .methodRow htag howner hdescriptor hsource htarget
    · rename_i hclass hfield hmethod
      cases h
      exact .otherRow hclass hfield hmethod
  · intro h
    cases h with
    | classRow htag hsource htarget =>
        simp only [htag, Traversal.bind_eq_ok_iff, column_eq_ok_iff]
        exact ⟨_, hsource, _, htarget, rfl⟩
    | fieldRow htag howner hsource htarget =>
        simp only [htag, Traversal.bind_eq_ok_iff, column_eq_ok_iff]
        exact ⟨_, howner, _, hsource, _, htarget, rfl⟩
    | methodRow htag howner hdescriptor hsource htarget =>
        simp only [htag, Traversal.bind_eq_ok_iff, column_eq_ok_iff]
        exact ⟨_, howner, _, hdescriptor, _, hsource, _, htarget, rfl⟩
    | otherRow hclass hfield hmethod =>
        split
        · rename_i htag
          exact absurd htag hclass
        · rename_i htag
          exact absurd htag hfield
        · rename_i htag
          exact absurd htag hmethod
        · rfl

theorem readRow_eq_ok_iff (columns : Columns) (line : Line) (row : Row) :
    readRow columns line = .ok row ↔ SaysLine columns line row := by
  simp only [readRow, lineText, Traversal.bind_eq_ok_iff, Traversal.mapError_eq_ok_iff,
    parseRow_eq_ok_iff]
  constructor
  · intro h
    obtain ⟨text, htext, hrow⟩ := h
    exact ⟨text, _, htext, Text.joins_fields '\t' text, hrow⟩
  · intro h
    obtain ⟨text, cells, htext, hjoins, hrow⟩ := h
    exact ⟨text, htext, (Text.fields_eq_iff '\t' text cells).mpr hjoins ▸ hrow⟩

/-! ## Reading a file -/

/-- The rows of a file, read one by one. -/
def readRows (source target : String) : List Line → Except Error (List Row)
  | [] => .error .noHeader
  | header :: lines => do
      let columns ← parseHeader header source target
      lines.mapM (readRow columns)

theorem ofLines_eq (source target : String) (lines : List Line) :
    ofLines source target lines = readRows source target lines >>= fun rows =>
      (Mappings.ofDeclarations (declarations rows)).mapError .badDescriptor := by
  cases lines with
  | nil => rfl
  | cons header lines =>
      simp only [ofLines, readRows, bind_assoc]

/-- The rows of a file are what its lines spell. -/
theorem spells_iff (source target : String) (lines : List Line) (rows : List Row) :
    Spells source target lines rows ↔ readRows source target lines = .ok rows := by
  cases lines with
  | nil =>
      constructor
      · intro h
        cases h
      · intro h
        cases h
  | cons header lines =>
      simp only [readRows, Traversal.bind_eq_ok_iff, parseHeader_eq_ok_iff,
        Traversal.mapM_eq_ok_iff, readRow_eq_ok_iff]
      constructor
      · intro hparts
        obtain ⟨htext, hheader, hrows⟩ := hparts
        exact ⟨_, ⟨_, htext, hheader⟩, hrows⟩
      · intro hparts
        obtain ⟨columns, ⟨text, htext, hheader⟩, hrows⟩ := hparts
        exact .file htext hheader hrows

/-- Lines that spell rows are read as far as what these declare makes tables. -/
theorem Spells.ofLines_eq {source target : String} {lines : List Line} {rows : List Row}
    (h : Spells source target lines rows) : ofLines source target lines
      = (Mappings.ofDeclarations (declarations rows)).mapError .badDescriptor := by
  rw [Tiny.ofLines_eq, (spells_iff source target lines rows).mp h]
  rfl

/-- A file is read into the tables of what its rows declare. -/
theorem ofLines_eq_ok_iff (source target : String) (lines : List Line) (m : Mappings) :
    ofLines source target lines = .ok m ↔
      ∃ rows, Spells source target lines rows ∧
        Mappings.ofDeclarations (declarations rows) = .ok m := by
  simp only [ofLines_eq, Traversal.bind_eq_ok_iff, Traversal.mapError_eq_ok_iff, spells_iff]

/-- The lines of a file spell one list of rows only. -/
theorem Spells.unique {source target : String} {lines : List Line} {rows rows' : List Row}
    (h : Spells source target lines rows) (h' : Spells source target lines rows') :
    rows = rows' := by
  rw [spells_iff] at h h'
  rw [h] at h'
  exact Except.ok.inj h'

/-- The tables of a file are those of what its rows declare. -/
theorem ofDeclarations_of_read {source target : String} {file : Bytes} {rows : List Row}
    {m : Mappings} (h : read source target file = .ok m)
    (hspells : Spells source target (Line.ofBytes file) rows) :
    Mappings.ofDeclarations (declarations rows) = .ok m := by
  obtain ⟨rows', hspells', hm⟩ := (ofLines_eq_ok_iff source target _ m).mp h
  rw [hspells.unique hspells']
  exact hm

/-! ## What rows declare -/

/-- The class that a row names, with its counterpart. -/
def Row.classPair? : Row → Option (String × String)
  | classNamed source target => some (source, target)
  | _ => none

/-- The counterparts that rows give to classes. -/
def classTable (rows : List Row) : NameTable := .ofPairs (rows.filterMap Row.classPair?)

/-- What a row declares below rows that give these counterparts to classes. -/
def Row.declaration? (classes : NameTable) : Row → Option Declaration
  | classNamed source target => some (.classNamed ⟨source, target⟩)
  | field owner source target => some (.field ⟨owner, classes.rename owner⟩ source target)
  | method owner descriptor source target =>
      some (.method ⟨owner, classes.rename owner⟩ source descriptor target)
  | other => none

/-- The name that a row declares, as the table of a kind gives it. -/
def Row.key? : SymbolKind → Row → Option String
  | .classes, classNamed source _ => some source
  | .fields, field owner source _ => some (MemberKey.field owner source)
  | .methods, method owner descriptor source _ => some (MemberKey.method owner source descriptor)
  | _, _ => none

theorem classTable_concat (rows : List Row) (row : Row) :
    classTable (rows ++ [row]) = match row.classPair? with
      | some pair => (classTable rows).insert pair.1 pair.2
      | none => classTable rows := by
  rw [classTable, List.filterMap_append]
  cases row with
  | classNamed source target => exact OrderedMap.ofPairs_concat _ (source, target)
  | field owner source target => exact congrArg OrderedMap.ofPairs (List.append_nil _)
  | method owner descriptor source target => exact congrArg OrderedMap.ofPairs (List.append_nil _)
  | other => exact congrArg OrderedMap.ofPairs (List.append_nil _)

theorem classNamed_mem_iff (rows : List Row) (s t : String) :
    .classNamed s t ∈ rows ↔ (s, t) ∈ rows.filterMap Row.classPair? := by
  rw [List.mem_filterMap]
  constructor
  · intro h
    exact ⟨_, h, rfl⟩
  · intro h
    obtain ⟨row, hrow, hpair⟩ := h
    cases row with
    | classNamed source target =>
        cases hpair
        exact hrow
    | field owner source target => cases hpair
    | method owner descriptor source target => cases hpair
    | other => cases hpair

/-- The table of classes holds what class rows say. -/
theorem mem_of_get?_classTable {rows : List Row} {k v : String}
    (h : (classTable rows).get? k = some v) : .classNamed k v ∈ rows := by
  obtain ⟨before, after, hpairs, -⟩ := (OrderedMap.get?_ofPairs_eq_some_iff _ k v).mp h
  rw [classNamed_mem_iff, hpairs]
  simp

/-- What no class row has in its target, no counterpart of an owner has. -/
theorem not_mem_rename_classTable {rows : List Row} {c : Char}
    (h : ∀ source target, .classNamed source target ∈ rows → c ∉ target.toList) {name : String}
    (hname : c ∉ name.toList) : c ∉ ((classTable rows).rename name).toList := by
  refine NameTable.not_mem_rename (fun v hv => ?_) hname
  obtain ⟨k, hget⟩ := (NameTable.mem_values_iff _ v).mp hv
  exact h k v (mem_of_get?_classTable hget)

/-- Rows below that do not name a class change nothing about it. -/
theorem rename_classTable_append (before : List Row) {after : List Row} {name : String}
    (h : ∀ row ∈ after, row.classPair?.map Prod.fst ≠ some name) :
    (classTable (before ++ after)).rename name = (classTable before).rename name := by
  have hnone : OrderedMap.lookup name (after.filterMap Row.classPair?).reverse = none := by
    rw [OrderedMap.lookup_eq_none_iff, List.map_reverse, List.mem_reverse, List.mem_map]
    rintro ⟨pair, hpair, rfl⟩
    obtain ⟨row, hrow, hrowPair⟩ := List.mem_filterMap.mp hpair
    exact h row hrow (by rw [hrowPair, Option.map_some])
  rw [NameTable.rename, NameTable.rename, classTable, classTable, OrderedMap.get?_ofPairs,
    OrderedMap.get?_ofPairs, List.filterMap_append, List.reverse_append,
    OrderedMap.lookup_append, hnone, Option.none_or]

/-- The rows so far are kept as the counterparts they give and what they declare. -/
theorem foldl_add (rows : List Row) :
    rows.foldl Progress.add {} = ⟨classTable rows, (declarations rows).reverse⟩ := by
  have hclasses : (rows.foldl Progress.add {}).classes = classTable rows := by
    induction rows using List.reverseRecOn with
    | nil => rfl
    | append_singleton rows row ih =>
        rw [List.foldl_append, classTable_concat, ← ih]
        cases row <;> rfl
  rw [← hclasses, declarations, List.reverse_reverse]

theorem declarations_concat (rows : List Row) (row : Row) :
    declarations (rows ++ [row])
      = declarations rows ++ (row.declaration? (classTable rows)).toList := by
  rw [declarations, List.foldl_append, foldl_add]
  cases row <;> simp [Progress.add, Progress.ownerPair, Row.declaration?]

theorem declarations_prefix (before after : List Row) :
    declarations before <+: declarations (before ++ after) := by
  induction after using List.reverseRecOn with
  | nil => simp
  | append_singleton after row ih =>
      rw [← List.append_assoc, declarations_concat]
      exact ih.trans (List.prefix_append _ _)

/-- Rows of members see the classes before them, and change none. -/
theorem declarations_append_members (rows : List Row) {members : List Row}
    (h : ∀ row ∈ members, row.classPair? = none) :
    declarations (rows ++ members)
      = declarations rows ++ members.filterMap (Row.declaration? (classTable rows)) := by
  induction members using List.reverseRecOn with
  | nil => simp
  | append_singleton members row ih =>
      have hmembers : ∀ row ∈ members, row.classPair? = none := fun r hr => h r (by simp [hr])
      have htable : classTable (rows ++ members) = classTable rows := by
        rw [classTable, List.filterMap_append, List.filterMap_eq_nil_iff.mpr hmembers,
          List.append_nil, classTable]
      rw [← List.append_assoc, declarations_concat, ih hmembers, htable, List.filterMap_append,
        List.append_assoc]
      cases hd : row.declaration? (classTable rows) <;> simp [hd]

/-- What is declared before a declaration is declared by the rows before its own. -/
theorem exists_row_of_declarations {rows : List Row} {before after : List Declaration}
    {d : Declaration} (h : declarations rows = before ++ d :: after) :
    ∃ above row below, rows = above ++ row :: below ∧ declarations above = before ∧
      row.declaration? (classTable above) = some d := by
  -- what a row declares depends on the rows before it, so the last row is taken off first
  induction rows using List.reverseRecOn generalizing after with
  | nil => cases before <;> cases h
  | append_singleton rows row ih =>
      rw [declarations_concat] at h
      cases hrow : row.declaration? (classTable rows) with
      | none =>
          rw [hrow, Option.toList_none, List.append_nil] at h
          obtain ⟨above, row', below, rfl, habove, hd⟩ := ih h
          exact ⟨above, row', below ++ [row], by simp, habove, hd⟩
      | some last =>
          rw [hrow, Option.toList_some] at h
          rcases List.eq_nil_or_concat after with rfl | ⟨after, last', rfl⟩
          · obtain ⟨hbefore, hlast⟩ := List.append_inj' h rfl
            cases hlast
            exact ⟨rows, row, [], rfl, hbefore, hrow⟩
          · rw [List.concat_eq_append, ← List.cons_append, ← List.append_assoc] at h
            obtain ⟨above, row', below, rfl, habove, hd⟩ := ih (List.append_inj' h rfl).1
            exact ⟨above, row', below ++ [row], by simp, habove, hd⟩

/-- Each declaration is that of a row, which sees the rows before it. -/
theorem mem_declarations_iff (rows : List Row) (d : Declaration) :
    d ∈ declarations rows ↔ ∃ before row after, rows = before ++ row :: after ∧
      row.declaration? (classTable before) = some d := by
  constructor
  · intro h
    obtain ⟨before, after, hds⟩ := List.append_of_mem h
    obtain ⟨above, row, below, hrows, -, hd⟩ := exists_row_of_declarations hds
    exact ⟨above, row, below, hrows, hd⟩
  · intro hparts
    obtain ⟨before, row, after, rfl, hd⟩ := hparts
    have hrow : d ∈ declarations (before ++ [row]) := by
      rw [declarations_concat, hd]
      simp
    have hprefix := declarations_prefix (before ++ [row]) after
    rw [List.append_assoc] at hprefix
    exact hprefix.subset hrow

/-- The tables of a file end with the counterparts that all its rows give to classes. -/
theorem classes_eq_classTable {rows : List Row} {m : Mappings}
    (h : Mappings.ofDeclarations (declarations rows) = .ok m) : m.classes = classTable rows := by
  rw [(Mappings.tables_eq_ofPairs h).1, classTable]
  clear h
  refine congrArg OrderedMap.ofPairs ?_
  induction rows using List.reverseRecOn with
  | nil => rfl
  | append_singleton rows row ih =>
      rw [declarations_concat, List.filterMap_append, List.filterMap_append, ih]
      cases row <;> rfl

/-- The keys of the rows are those of what they declare. -/
theorem map_key_declarations (kind : SymbolKind) (rows : List Row) :
    (Declaration.ofKind kind (declarations rows)).map Declaration.key
      = rows.filterMap (Row.key? kind) := by
  induction rows using List.reverseRecOn with
  | nil => rfl
  | append_singleton rows row ih =>
      rw [declarations_concat, Declaration.ofKind, List.filter_append, List.map_append,
        List.filterMap_append]
      refine congrArg₂ (· ++ ·) ih ?_
      cases row <;> cases kind <;> rfl

/-- A field is declared, for whatever counterpart of its owner, exactly if a row names it. -/
theorem field_mem_declarations_iff (rows : List Row) (o source target : String) :
    (∃ owner, .field owner source target ∈ declarations rows ∧ owner.source = o)
      ↔ .field o source target ∈ rows := by
  constructor
  · intro h
    obtain ⟨owner, hd, rfl⟩ := h
    obtain ⟨before, row, after, rfl, hrow⟩ := (mem_declarations_iff rows _).mp hd
    cases row with
    | field owner source target =>
        cases hrow
        simp
    | classNamed source target => cases hrow
    | method owner descriptor source target => cases hrow
    | other => cases hrow
  · intro hmem
    obtain ⟨before, after, hrows⟩ := List.append_of_mem hmem
    exact ⟨_, (mem_declarations_iff rows _).mpr ⟨before, _, after, hrows, rfl⟩, rfl⟩

/-- A method is declared, for whatever counterpart of its owner, exactly if a row names it. -/
theorem method_mem_declarations_iff (rows : List Row) (o descriptor source target : String) :
    (∃ owner, .method owner source descriptor target ∈ declarations rows ∧ owner.source = o)
      ↔ .method o descriptor source target ∈ rows := by
  constructor
  · intro h
    obtain ⟨owner, hd, rfl⟩ := h
    obtain ⟨before, row, after, rfl, hrow⟩ := (mem_declarations_iff rows _).mp hd
    cases row with
    | method owner descriptor source target =>
        cases hrow
        simp
    | classNamed source target => cases hrow
    | field owner source target => cases hrow
    | other => cases hrow
  · intro hmem
    obtain ⟨before, after, hrows⟩ := List.append_of_mem hmem
    exact ⟨_, (mem_declarations_iff rows _).mpr ⟨before, _, after, hrows, rfl⟩, rfl⟩

end Namebridge.Tiny
