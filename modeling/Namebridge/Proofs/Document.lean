import Namebridge.Proofs.Line
import Namebridge.Proofs.TinyGrammar
import Namebridge.Proofs.TsrgGrammar

/-!
# One document in both formats

A document has classes with members. In a TSRG file the members stand below their class, and in a
tiny file they stand below all classes and name the one that they belong to. `formats_agree` is that
both files are read into the same tables, or fail for the same descriptor, since classes, fields and
methods have the same order in both and each class has one counterpart.
-/

namespace Namebridge

/-! ## Documents -/

namespace Document

/-- A text that can stand in a column of a row. -/
structure Cell (s : String) : Prop extends Line.Unbroken s where
  no_tab : '\t' ∉ s.toList

instance (s : String) : Decidable (Cell s) :=
  decidable_of_iff (Line.Unbroken s ∧ '\t' ∉ s.toList)
    ⟨fun h => ⟨h.1, h.2⟩, fun h => ⟨h.toUnbroken, h.no_tab⟩⟩

/-- A name or a descriptor, which can stand in both formats. -/
structure Name where
  text : String
  cell : Cell text := by decide
  ne_empty : text ≠ "" := by decide
  no_space : ' ' ∉ text.toList := by decide

inductive Member where
  | field (source target : Name)
  | method (source descriptor target : Name)
      (hopens : MemberKey.Opens descriptor.text := by decide)

structure Class where
  source : Name
  target : Name
  members : List Member

end Document

/-- Classes with their members. No two classes have the same source name. -/
structure Document where
  classes : List Document.Class
  nodup : (classes.map fun c => c.source.text).Nodup

namespace Document

theorem Name.unbroken (name : Name) : Line.Unbroken name.text := name.cell.toUnbroken

theorem Name.word (name : Name) : Tsrg.Word name.text :=
  ⟨name.ne_empty, name.cell.no_tab, name.no_space⟩

/-! ## What a document declares -/

def Member.declaration (owner : ClassPair) : Member → Declaration
  | field source target => .field owner source.text target.text
  | method source descriptor target _ => .method owner source.text descriptor.text target.text

@[simp] theorem Member.owner_declaration (owner : ClassPair) (m : Member) :
    (m.declaration owner).owner = owner := by
  cases m <;> rfl

def Class.pair (c : Class) : ClassPair := ⟨c.source.text, c.target.text⟩

def Class.header (c : Class) : Declaration := .classNamed c.pair

def Class.body (c : Class) : List Declaration := c.members.map (Member.declaration c.pair)

/-- Each class with its members below it. -/
def declarations (classes : List Class) : List Declaration :=
  classes.flatMap fun c => c.header :: c.body

/-- The tables of a document, if all descriptors can be read. -/
def tables (doc : Document) : Except Declaration.BadDescriptor Mappings :=
  Mappings.ofDeclarations (declarations doc.classes)

theorem kind_headers (classes : List Class) :
    ∀ d ∈ classes.map Class.header, d.kind = .classes := by
  intro d hd
  obtain ⟨c, -, rfl⟩ := List.mem_map.mp hd
  rfl

theorem Class.kind_body (c : Class) : ∀ d ∈ c.body, d.kind ≠ .classes := by
  intro d hd
  obtain ⟨m, -, rfl⟩ := List.mem_map.mp hd
  cases m <;> simp [Member.declaration, Declaration.kind]

theorem ofKind_declarations (kind : SymbolKind) (classes : List Class) :
    Declaration.ofKind kind (declarations classes)
      = Declaration.ofKind kind (classes.map Class.header ++ classes.flatMap Class.body) := by
  induction classes with
  | nil => rfl
  | cons c rest ih =>
      -- the members of `c` go past the headers of the other classes
      have hswap := Declaration.ofKind_append_comm kind (kind_headers rest) c.kind_body
      calc Declaration.ofKind kind (declarations (c :: rest))
        _ = Declaration.ofKind kind [c.header] ++ Declaration.ofKind kind c.body
              ++ Declaration.ofKind kind (declarations rest) := by
            rw [← Declaration.ofKind_append, ← Declaration.ofKind_append]
            rfl
        _ = Declaration.ofKind kind [c.header]
              ++ Declaration.ofKind kind (c.body ++ rest.map Class.header)
              ++ Declaration.ofKind kind (rest.flatMap Class.body) := by
            rw [ih, Declaration.ofKind_append, Declaration.ofKind_append]
            simp only [List.append_assoc]
        _ = Declaration.ofKind kind
              ((c :: rest).map Class.header ++ (c :: rest).flatMap Class.body) := by
            rw [hswap, ← Declaration.ofKind_append, ← Declaration.ofKind_append]
            simp

/-- The tables are the same if all members stand below all classes. -/
theorem tables_eq (doc : Document) :
    doc.tables = Mappings.ofDeclarations
      (doc.classes.map Class.header ++ doc.classes.flatMap Class.body) :=
  Mappings.ofDeclarations_congr fun kind => ofKind_declarations kind doc.classes

/-! ## As a TSRG file -/

/-- The words in the line of a member. -/
def Member.words : Member → String
  | field source target => source.text ++ " " ++ target.text
  | method source descriptor target _ => source.text ++ " " ++ descriptor.text ++ " " ++ target.text

/-- The line of a class and those of its members. -/
def Class.tsrgLines (c : Class) : List String :=
  (c.source.text ++ " " ++ c.target.text) :: c.members.map fun m => "\t" ++ m.words

def tsrgFile (doc : Document) : Bytes :=
  Utf8.encode (Line.unlines (doc.classes.flatMap Class.tsrgLines))

theorem Member.unbroken_words (m : Member) : Line.Unbroken m.words := by
  have hspace : Line.Unbroken " " := by decide
  cases m with
  | field source target => exact (source.unbroken.append hspace).append target.unbroken
  | method source descriptor target hopens =>
      exact (((source.unbroken.append hspace).append descriptor.unbroken).append hspace).append
        target.unbroken

theorem Class.unbroken_tsrgLines (c : Class) : ∀ text ∈ c.tsrgLines, Line.Unbroken text := by
  have hspace : Line.Unbroken " " := by decide
  have htab : Line.Unbroken "\t" := by decide
  intro text htext
  rcases List.mem_cons.mp htext with rfl | htext
  · exact (c.source.unbroken.append hspace).append c.target.unbroken
  · obtain ⟨m, -, rfl⟩ := List.mem_map.mp htext
    exact htab.append m.unbroken_words

theorem Member.saysMember (owner : ClassPair) (m : Member) :
    Tsrg.SaysMember owner m.words (m.declaration owner) := by
  cases m with
  | field source target => exact .field source.word target.word
  | method source descriptor target hopens =>
      exact .method source.word hopens descriptor.word.no_space target.word

/-- The lines of members, before lines that are known to spell something. -/
theorem spells_members (owner : ClassPair) (members : List Member) {texts : List String}
    {ds : List Declaration}
    (h : ∀ n, Tsrg.Spells (some owner) (Line.numbered n texts) ds) (n : Nat) :
    Tsrg.Spells (some owner)
      (Line.numbered n (members.map (fun m => "\t" ++ m.words) ++ texts))
      (members.map (Member.declaration owner) ++ ds) := by
  induction members generalizing n with
  | nil => exact h n
  | cons m rest ih =>
      -- the class in force stays the same from one member to the next
      refine .cons rfl (.memberLine (m.saysMember owner)) ?_
      rw [m.owner_declaration]
      exact ih (n + 1)

theorem spells_classes (above : Option ClassPair) (classes : List Class) (n : Nat) :
    Tsrg.Spells above (Line.numbered n (classes.flatMap Class.tsrgLines))
      (declarations classes) := by
  induction classes generalizing above n with
  | nil => exact .nil
  | cons c rest ih =>
      exact .cons rfl (.classLine c.source.word c.target.word)
        (spells_members c.pair c.members (ih (some c.pair)) (n + 1))

theorem tsrg_read (doc : Document) :
    Tsrg.read {} doc.tsrgFile = doc.tables.mapError .badDescriptor := by
  have hspells := spells_classes none doc.classes 1
  rw [Tsrg.read, tsrgFile, Line.ofBytes_encode_unlines, hspells.ofLines_eq,
    Tsrg.map_readable_empty, tables]
  intro text htext
  obtain ⟨c, -, htext⟩ := List.mem_flatMap.mp htext
  exact c.unbroken_tsrgLines text htext

/-! ## As a tiny file -/

def Class.row (c : Class) : Tiny.Row := .classNamed c.source.text c.target.text

def Member.row (owner : Name) : Member → Tiny.Row
  | field source target => .field owner.text source.text target.text
  | method source descriptor target _ =>
      .method owner.text descriptor.text source.text target.text

/-- The rows of all classes and then those of all members. -/
def rows (classes : List Class) : List Tiny.Row :=
  classes.map Class.row ++ classes.flatMap fun c => c.members.map (Member.row c.source)

/-- The columns of a row. A field has a column for its type, which `fieldType` fills in. A row that
says nothing is an empty line. -/
def cells (fieldType : String → String → String) : Tiny.Row → List String
  | .classNamed source target => ["CLASS", source, target]
  | .field owner source target => ["FIELD", owner, fieldType owner source, source, target]
  | .method owner descriptor source target => ["METHOD", owner, descriptor, source, target]
  | .other => [""]

def tinyLine (cells : List String) : String := (String.singleton '\t').intercalate cells

def tinyFile (doc : Document) (source target : Name) (fieldType : String → String → String) :
    Bytes :=
  Utf8.encode <| Line.unlines <| tinyLine ["v1", source.text, target.text] ::
    (rows doc.classes).map fun row => tinyLine (cells fieldType row)

theorem joins_tinyLine {cells : List String} (hne : cells ≠ []) (h : ∀ cell ∈ cells, Cell cell) :
    Text.Joins '\t' cells (tinyLine cells) :=
  ⟨hne, fun cell hcell => (h cell hcell).no_tab, rfl⟩

theorem unbroken_tinyLine {cells : List String} (h : ∀ cell ∈ cells, Cell cell) :
    Line.Unbroken (tinyLine cells) :=
  ⟨Text.not_mem_intercalate (by decide) fun cell hcell => (h cell hcell).no_feed,
    Text.not_mem_intercalate (by decide) fun cell hcell => (h cell hcell).no_return⟩

/-- With the source scheme first and the target scheme second, the columns of a row say the row. -/
theorem saysRow_cells (fieldType : String → String → String) (row : Tiny.Row) :
    Tiny.SaysRow ⟨0, 1⟩ (cells fieldType row) row := by
  cases row with
  | classNamed source target => exact .classRow rfl rfl rfl
  | field owner source target => exact .fieldRow rfl rfl rfl rfl
  | method owner descriptor source target => exact .methodRow rfl rfl rfl rfl rfl
  | other => exact .otherRow (by simp [cells]) (by simp [cells]) (by simp [cells])

theorem saysHeader {source target : Name} (h : source.text ≠ target.text) :
    Tiny.SaysHeader source.text target.text (tinyLine ["v1", source.text, target.text]) ⟨0, 1⟩ := by
  refine .mk (joins_tinyLine (by simp) ?cells) ⟨rfl, by simp⟩ ⟨rfl, ?first⟩
  case cells => simp [source.cell, target.cell, show Cell "v1" by decide]
  case first =>
    intro i hi
    obtain rfl : i = 0 := by omega
    simpa using h

/-- The columns of the rows of a document have no tabs and no line endings. -/
theorem cell_of_mem_rows {classes : List Class} {fieldType : String → String → String}
    (hfieldType : ∀ owner name, Cell (fieldType owner name)) {row : Tiny.Row}
    (hrow : row ∈ rows classes) : ∀ cell ∈ cells fieldType row, Cell cell := by
  have hclass : Cell "CLASS" := by decide
  have hfield : Cell "FIELD" := by decide
  have hmethod : Cell "METHOD" := by decide
  rcases List.mem_append.mp hrow with hrow | hrow
  · obtain ⟨c, -, rfl⟩ := List.mem_map.mp hrow
    simp [Class.row, cells, hclass, c.source.cell, c.target.cell]
  · obtain ⟨c, -, hrow⟩ := List.mem_flatMap.mp hrow
    obtain ⟨m, -, rfl⟩ := List.mem_map.mp hrow
    cases m with
    | field source target =>
        simp [Member.row, cells, hfield, c.source.cell, hfieldType, source.cell, target.cell]
    | method source descriptor target hopens =>
        simp [Member.row, cells, hmethod, c.source.cell, descriptor.cell, source.cell, target.cell]

theorem forall₂_saysLine {fieldType : String → String → String} {rows : List Tiny.Row}
    (h : ∀ row ∈ rows, ∀ cell ∈ cells fieldType row, Cell cell) (n : Nat) :
    List.Forall₂ (Tiny.SaysLine ⟨0, 1⟩)
      (Line.numbered n (rows.map fun row => tinyLine (cells fieldType row))) rows := by
  induction rows generalizing n with
  | nil => exact .nil
  | cons row rest ih =>
      have hne : cells fieldType row ≠ [] := by cases row <;> simp [cells]
      refine .cons ?_ (ih (fun r hr => h r (by simp [hr])) (n + 1))
      exact ⟨_, _, rfl, joins_tinyLine hne (h row (by simp)), saysRow_cells fieldType row⟩

theorem tiny_read (doc : Document) {source target : Name} (hschemes : source.text ≠ target.text)
    {fieldType : String → String → String}
    (hfieldType : ∀ owner name, Cell (fieldType owner name)) :
    Tiny.read source.text target.text (doc.tinyFile source target fieldType)
      = (Mappings.ofDeclarations (Tiny.declarations (rows doc.classes))).mapError
          .badDescriptor := by
  have hcells := fun row (hrow : row ∈ rows doc.classes) => cell_of_mem_rows hfieldType hrow
  have hheader : ∀ cell ∈ ["v1", source.text, target.text], Cell cell := by
    simp [source.cell, target.cell, show Cell "v1" by decide]
  have hspells : Tiny.Spells source.text target.text
      (Line.numbered 1 (tinyLine ["v1", source.text, target.text] ::
        (rows doc.classes).map fun row => tinyLine (cells fieldType row))) (rows doc.classes) :=
    .file rfl (saysHeader hschemes) (forall₂_saysLine hcells 2)
  rw [Tiny.read, tinyFile, Line.ofBytes_encode_unlines, hspells.ofLines_eq]
  intro text htext
  rcases List.mem_cons.mp htext with rfl | htext
  · exact unbroken_tinyLine hheader
  · obtain ⟨row, hrow, rfl⟩ := List.mem_map.mp htext
    exact unbroken_tinyLine (hcells row hrow)

/-! ## The classes of a tiny file -/

theorem classTable_rows (classes : List Class) :
    Tiny.classTable (classes.map Class.row)
      = .ofPairs (classes.map fun c => (c.source.text, c.target.text)) := by
  have hpairs : (Tiny.Row.classPair? ∘ Class.row)
      = some ∘ fun c : Class => (c.source.text, c.target.text) := rfl
  rw [Tiny.classTable, List.filterMap_map, hpairs, List.filterMap_eq_map]

/-- A class has the counterpart that its own row gives it. -/
theorem rename_classTable (doc : Document) {c : Class} (hc : c ∈ doc.classes) :
    (Tiny.classTable (doc.classes.map Class.row)).rename c.source.text = c.target.text := by
  have hkeys : ((doc.classes.map fun c => (c.source.text, c.target.text)).map Prod.fst).Nodup := by
    rw [List.map_map]
    exact doc.nodup
  have hget := (OrderedMap.get?_ofPairs_iff_mem hkeys c.source.text c.target.text).mpr
    (List.mem_map.mpr ⟨c, hc, rfl⟩)
  rw [classTable_rows, NameTable.rename, hget, Option.getD_some]

theorem declarations_classRows (classes : List Class) :
    Tiny.declarations (classes.map Class.row) = classes.map Class.header := by
  -- rows are taken off at the end, since each sees those before it
  induction classes using List.reverseRecOn with
  | nil => rfl
  | append_singleton classes c ih =>
      rw [List.map_append, List.map_singleton, Tiny.declarations_concat, ih]
      simp [Class.row, Class.header, Class.pair, Tiny.Row.declaration?]

theorem declaration?_row {classes : NameTable} {c : Class}
    (h : classes.rename c.source.text = c.target.text) (m : Member) :
    (m.row c.source).declaration? classes = some (m.declaration c.pair) := by
  cases m <;> simp [Member.row, Tiny.Row.declaration?, Member.declaration, Class.pair, h]

theorem declarations_rows (doc : Document) :
    Tiny.declarations (rows doc.classes)
      = doc.classes.map Class.header ++ doc.classes.flatMap Class.body := by
  rw [rows, Tiny.declarations_append_members, declarations_classRows, List.filterMap_flatMap]
  · refine congrArg _ (List.flatMap_congr fun c hc => ?_)
    have hmembers : (Tiny.Row.declaration? (Tiny.classTable (doc.classes.map Class.row)))
        ∘ Member.row c.source = some ∘ Member.declaration c.pair :=
      funext (declaration?_row (doc.rename_classTable hc))
    rw [List.filterMap_map, hmembers, List.filterMap_eq_map, Class.body]
  · intro row hrow
    obtain ⟨c, -, hrow⟩ := List.mem_flatMap.mp hrow
    obtain ⟨m, -, rfl⟩ := List.mem_map.mp hrow
    cases m <;> rfl

/-! ## Both formats -/

/-- **The formats agree**: the TSRG file and the tiny file of a document are read into its tables,
entry by entry, or fail for the same descriptor, whatever stands in the columns for the types of
fields. -/
theorem formats_agree (doc : Document) (source target : Name)
    (hschemes : source.text ≠ target.text) {fieldType : String → String → String}
    (hfieldType : ∀ owner name, Cell (fieldType owner name)) :
    Tsrg.read {} doc.tsrgFile = doc.tables.mapError .badDescriptor ∧
      Tiny.read source.text target.text (doc.tinyFile source target fieldType)
        = doc.tables.mapError .badDescriptor := by
  refine ⟨doc.tsrg_read, ?_⟩
  rw [doc.tiny_read hschemes hfieldType, declarations_rows, tables_eq]

/-- Members that are declared twice, and a descriptor with a class that is declared later. -/
def repetitive : Document where
  classes :=
    [{ source := { text := "a" }, target := { text := "A" }
       members :=
        [.method { text := "m" } { text := "(Lb;)V" } { text := "n" },
          .field { text := "f" } { text := "g" }, .field { text := "f" } { text := "h" },
          .method { text := "m" } { text := "(Lb;)V" } { text := "k" }] },
      { source := { text := "b" }, target := { text := "B" }, members := [] }]
  nodup := by decide

def repetitiveTables : Mappings where
  classes := .ofPairs [("a", "A"), ("b", "B")]
  fields := .ofPairs [("a:f", "A:h")]
  methods := .ofPairs [("a:m(Lb;)V", "A:k(LB;)V")]

theorem formats_agree_repetitive :
    Tsrg.read {} repetitive.tsrgFile = .ok repetitiveTables ∧
      Tiny.read "old" "new" (repetitive.tinyFile { text := "old" } { text := "new" } fun _ _ => "I")
        = .ok repetitiveTables := by
  have htables : repetitive.tables = .ok repetitiveTables := by decide
  obtain ⟨htsrg, htiny⟩ := repetitive.formats_agree { text := "old" } { text := "new" } (by decide)
    fun owner name => (show Cell "I" by decide)
  rw [htsrg, htiny, htables]
  exact ⟨rfl, rfl⟩

end Document

end Namebridge
