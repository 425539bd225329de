import Namebridge.Proofs.Line
import Namebridge.Proofs.TinyGrammar

/-!
# What stands below other schemes

A row of a tiny file has a name below each scheme of the header, and a reader takes two of them. The
other schemes are there for other readers: headers can list them in any order, and rows can say
anything below them. Files that are `SeenAlike` from the two schemes are read alike, whatever they
look like from others: `read_seenAlike`.
-/

namespace Namebridge

namespace Line

/-- Lines with these contents, numbered from `n` on. -/
def numberedFrom (n : Nat) (texts : List (Except Fault String)) : List Line :=
  (texts.zipIdx n).map fun (text, number) => ⟨number, text⟩

theorem numberedFrom_cons (n : Nat) (text : Except Fault String)
    (rest : List (Except Fault String)) :
    numberedFrom n (text :: rest) = ⟨n, text⟩ :: numberedFrom (n + 1) rest := by
  rw [numberedFrom, List.zipIdx_cons, List.map_cons, numberedFrom]

/-- A file is its texts, numbered from 1. -/
theorem ofBytes_eq_numberedFrom (file : Bytes) : ofBytes file = numberedFrom 1 (texts file) := by
  have htexts : texts file = ((pieces file).zipIdx 1).map (decode ∘ Prod.fst) := List.map_map ..
  rw [htexts, ← List.map_map, List.zipIdx_map_fst, numberedFrom, List.zipIdx_map, List.map_map]
  rfl

end Line

namespace Tiny

/-! ## Two views of one row -/

/-- The name below a scheme, which is below the first of its columns. -/
def nameBelow? (schemes names : List String) (scheme : String) : Option String :=
  OrderedMap.lookup scheme (schemes.zip names)

/-- Two rows have a name below each scheme of their headers, and below the two schemes that are read
they have the same names. -/
structure NamesAlike (source target : String) (schemes schemes' names names' : List String) :
    Prop where
  length : names.length = schemes.length
  length' : names'.length = schemes'.length
  source : nameBelow? schemes names source = nameBelow? schemes' names' source
  target : nameBelow? schemes names target = nameBelow? schemes' names' target

/-- Two lines say the same to a reader of the two schemes, each below the schemes of its own header.
Rows with other tags may say anything. -/
inductive RowsAlike (source target : String) (schemes schemes' : List String) :
    Except Line.Fault String → Except Line.Fault String → Prop
  | classRow {text text' : String} {names names' : List String}
      (hjoins : Text.Joins '\t' ("CLASS" :: names) text)
      (hjoins' : Text.Joins '\t' ("CLASS" :: names') text')
      (hnames : NamesAlike source target schemes schemes' names names') :
      RowsAlike source target schemes schemes' (.ok text) (.ok text')
  | memberRow {text text' tag owner descriptor : String} {names names' : List String}
      (htag : tag = "FIELD" ∨ tag = "METHOD")
      (hjoins : Text.Joins '\t' (tag :: owner :: descriptor :: names) text)
      (hjoins' : Text.Joins '\t' (tag :: owner :: descriptor :: names') text')
      (hnames : NamesAlike source target schemes schemes' names names') :
      RowsAlike source target schemes schemes' (.ok text) (.ok text')
  | otherRow {text text' tag : String} {cells cells' : List String}
      (htag : tag ∉ ["CLASS", "FIELD", "METHOD"])
      (hjoins : Text.Joins '\t' (tag :: cells) text)
      (hjoins' : Text.Joins '\t' (tag :: cells') text') :
      RowsAlike source target schemes schemes' (.ok text) (.ok text')
  | unreadable {fault : Line.Fault} :
      RowsAlike source target schemes schemes' (.error fault) (.error fault)

/-- Two files have both schemes, and their rows are alike one by one. -/
inductive SeenAlike (source target : String) :
    List (Except Line.Fault String) → List (Except Line.Fault String) → Prop
  | mk {header header' first first' : String} {schemes schemes' : List String}
      {rows rows' : List (Except Line.Fault String)}
      (hheader : Text.Joins '\t' (first :: schemes) header)
      (hheader' : Text.Joins '\t' (first' :: schemes') header')
      (hsource : source ∈ schemes ∧ source ∈ schemes')
      (htarget : target ∈ schemes ∧ target ∈ schemes')
      (hrows : List.Forall₂ (RowsAlike source target schemes schemes') rows rows') :
      SeenAlike source target (.ok header :: rows) (.ok header' :: rows')

/-! ## Columns below a scheme -/

/-- The columns of both schemes. -/
structure SchemesAt (schemes : List String) (source target : String) (columns : Columns) :
    Prop where
  source : SchemeAt schemes source columns.source
  target : SchemeAt schemes target columns.target

theorem exists_schemesAt {schemes : List String} {source target : String}
    (hsource : source ∈ schemes) (htarget : target ∈ schemes) :
    ∃ columns, SchemesAt schemes source target columns := by
  obtain ⟨i, hi⟩ := (exists_schemeAt_iff schemes source).mpr hsource
  obtain ⟨j, hj⟩ := (exists_schemeAt_iff schemes target).mpr htarget
  exact ⟨⟨i, j⟩, hi, hj⟩

/-- The header is read into the columns of its schemes. -/
theorem SchemesAt.parseHeader_eq {schemes : List String} {source target : String}
    {columns : Columns} (h : SchemesAt schemes source target columns) (number : Nat)
    {header first : String} (hjoins : Text.Joins '\t' (first :: schemes) header) :
    parseHeader ⟨number, .ok header⟩ source target = .ok columns :=
  (parseHeader_eq_ok_iff _ source target columns).mpr
    ⟨header, rfl, .mk hjoins h.source h.target⟩

/-- The name below a scheme is the one in its column. -/
theorem SchemeAt.nameBelow? {schemes names : List String} {scheme : String} {column : Nat}
    (h : SchemeAt schemes scheme column) (hlength : names.length = schemes.length) :
    nameBelow? schemes names scheme = names[column]? := by
  induction schemes generalizing names column with
  | nil => cases h.here
  | cons first rest ih =>
      obtain ⟨name, others, rfl⟩ := List.exists_cons_of_length_eq_add_one hlength
      cases column with
      | zero =>
          obtain rfl : first = scheme := Option.some.inj h.here
          simp [Tiny.nameBelow?, OrderedMap.lookup]
      | succ column =>
          have hne : first ≠ scheme := fun heq => h.not_before 0 (by omega) (congrArg some heq)
          have hrest : SchemeAt rest scheme column :=
            ⟨h.here, fun i hi => h.not_before (i + 1) (by omega)⟩
          have hlook : Tiny.nameBelow? (first :: rest) (name :: others) scheme
              = Tiny.nameBelow? rest others scheme := if_neg hne
          rw [hlook, ih hrest (Nat.succ.inj hlength), List.getElem?_cons_succ]

/-- Below a scheme of the header stands a name. -/
theorem SchemeAt.exists_name {schemes names : List String} {scheme : String} {column : Nat}
    (h : SchemeAt schemes scheme column) (hlength : names.length = schemes.length) :
    ∃ name, names[column]? = some name := by
  obtain ⟨hlt, -⟩ := List.getElem?_eq_some_iff.mp h.here
  exact ⟨_, List.getElem?_eq_getElem (hlength ▸ hlt)⟩

/-! ## Reading two views -/

/-- In names that are alike, the same two stand in the columns of the schemes. -/
theorem NamesAlike.exists_names {source target : String}
    {schemes schemes' names names' : List String}
    (h : NamesAlike source target schemes schemes' names names') {columns columns' : Columns}
    (hcolumns : SchemesAt schemes source target columns)
    (hcolumns' : SchemesAt schemes' source target columns') :
    ∃ s t, (names[columns.source]? = some s ∧ names[columns.target]? = some t) ∧
      names'[columns'.source]? = some s ∧ names'[columns'.target]? = some t := by
  obtain ⟨s, hs⟩ := hcolumns.source.exists_name h.length
  obtain ⟨t, ht⟩ := hcolumns.target.exists_name h.length
  refine ⟨s, t, ⟨hs, ht⟩, ?_, ?_⟩
  · rw [← hcolumns'.source.nameBelow? h.length', ← h.source,
      hcolumns.source.nameBelow? h.length, hs]
  · rw [← hcolumns'.target.nameBelow? h.length', ← h.target,
      hcolumns.target.nameBelow? h.length, ht]

/-- Rows that are alike are read alike, each by the columns of its own header. -/
theorem RowsAlike.readRow_eq {source target : String} {schemes schemes' : List String}
    {line line' : Except Line.Fault String}
    (h : RowsAlike source target schemes schemes' line line') {columns columns' : Columns}
    (hcolumns : SchemesAt schemes source target columns)
    (hcolumns' : SchemesAt schemes' source target columns') (number : Nat) :
    readRow columns' ⟨number, line'⟩ = readRow columns ⟨number, line⟩ := by
  have hsame {row : Row} (hsaid : SaysLine columns ⟨number, line⟩ row)
      (hsaid' : SaysLine columns' ⟨number, line'⟩ row) :
      readRow columns' ⟨number, line'⟩ = readRow columns ⟨number, line⟩ :=
    ((readRow_eq_ok_iff _ _ row).mpr hsaid').trans ((readRow_eq_ok_iff _ _ row).mpr hsaid).symm
  cases h with
  | classRow hjoins hjoins' hnames =>
      obtain ⟨s, t, ⟨hs, ht⟩, hs', ht'⟩ := hnames.exists_names hcolumns hcolumns'
      exact hsame ⟨_, _, rfl, hjoins, .classRow rfl hs ht⟩
        ⟨_, _, rfl, hjoins', .classRow rfl hs' ht'⟩
  | memberRow htag hjoins hjoins' hnames =>
      obtain ⟨s, t, ⟨hs, ht⟩, hs', ht'⟩ := hnames.exists_names hcolumns hcolumns'
      rcases htag with rfl | rfl
      · exact hsame ⟨_, _, rfl, hjoins, .fieldRow rfl rfl hs ht⟩
          ⟨_, _, rfl, hjoins', .fieldRow rfl rfl hs' ht'⟩
      · exact hsame ⟨_, _, rfl, hjoins, .methodRow rfl rfl rfl hs ht⟩
          ⟨_, _, rfl, hjoins', .methodRow rfl rfl rfl hs' ht'⟩
  | @otherRow _ _ tag _ _ htag hjoins hjoins' =>
      have hother (columns : Columns) (cells : List String) :
          SaysRow columns (tag :: cells) .other := by
        simp only [List.mem_cons, List.not_mem_nil, or_false, not_or] at htag
        exact .otherRow (by simp [htag]) (by simp [htag]) (by simp [htag])
      exact hsame ⟨_, _, rfl, hjoins, hother _ _⟩ ⟨_, _, rfl, hjoins', hother _ _⟩
  | unreadable => rfl

theorem mapM_readRow_eq {source target : String} {schemes schemes' : List String}
    {rows rows' : List (Except Line.Fault String)}
    (h : List.Forall₂ (RowsAlike source target schemes schemes') rows rows')
    {columns columns' : Columns} (hcolumns : SchemesAt schemes source target columns)
    (hcolumns' : SchemesAt schemes' source target columns') (number : Nat) :
    (Line.numberedFrom number rows').mapM (readRow columns')
      = (Line.numberedFrom number rows).mapM (readRow columns) := by
  induction h generalizing number with
  | nil => rfl
  | cons hrow _ ih =>
      rw [Line.numberedFrom_cons, Line.numberedFrom_cons, List.mapM_cons, List.mapM_cons, ih,
        hrow.readRow_eq hcolumns hcolumns']

/-- **Other schemes say nothing**: two files whose rows are alike below the two schemes that are
read, and in the owners and descriptors of members, are read into the same tables, or are refused
with the same error. Their headers can have the schemes in any order and among any others. -/
theorem read_seenAlike (source target : String) {file file' : Bytes}
    (h : SeenAlike source target (Line.texts file) (Line.texts file')) :
    read source target file' = read source target file := by
  rw [read, read, ofLines_eq, ofLines_eq, Line.ofBytes_eq_numberedFrom file,
    Line.ofBytes_eq_numberedFrom file']
  generalize Line.texts file = texts at h
  generalize Line.texts file' = texts' at h
  cases h with
  | @mk header header' first first' schemes schemes' rows rows' hheader hheader' hsource htarget
      hrows =>
      obtain ⟨columns, hcolumns⟩ := exists_schemesAt hsource.1 htarget.1
      obtain ⟨columns', hcolumns'⟩ := exists_schemesAt hsource.2 htarget.2
      rw [Line.numberedFrom_cons, Line.numberedFrom_cons, readRows, readRows,
        hcolumns.parseHeader_eq 1 hheader, hcolumns'.parseHeader_eq 1 hheader']
      exact congrArg (· >>= _) (mapM_readRow_eq hrows hcolumns hcolumns' 2)

/-- The second file has one scheme more, and the two that are read the other way round. -/
theorem read_seenAlike_among_others :
    read "o" "n" (Utf8.encode
        "v1\tn\tx\to\nCLASS\tA\t\ta\n#\tx\nMETHOD\ta\t(La;)V\tn\tp\tm\nFIELD\ta\tI\tx\tg\tf")
      = read "o" "n" (Utf8.encode
        "v1\to\tn\nCLASS\ta\tA\n#\nMETHOD\ta\t(La;)V\tm\tn\nFIELD\ta\tI\tf\tx\n") := by
  have hjoins (cells : List String) {text : String} (h : Text.fields '\t' text = cells) :
      Text.Joins '\t' cells text := (Text.fields_eq_iff '\t' text cells).mp h
  have hrows : List.Forall₂ (RowsAlike "o" "n" ["o", "n"] ["n", "x", "o"])
      [.ok "CLASS\ta\tA", .ok "#", .ok "METHOD\ta\t(La;)V\tm\tn", .ok "FIELD\ta\tI\tf\tx"]
      [.ok "CLASS\tA\t\ta", .ok "#\tx", .ok "METHOD\ta\t(La;)V\tn\tp\tm",
        .ok "FIELD\ta\tI\tx\tg\tf"] := by
    refine .cons ?named (.cons ?silent (.cons ?method (.cons ?field .nil)))
    case named =>
      exact .classRow (hjoins ["CLASS", "a", "A"] (by decide))
        (hjoins ["CLASS", "A", "", "a"] (by decide)) ⟨rfl, rfl, rfl, rfl⟩
    case silent =>
      exact .otherRow (by decide) (hjoins ["#"] (by decide)) (hjoins ["#", "x"] (by decide))
    case method =>
      exact .memberRow (.inr rfl) (hjoins ["METHOD", "a", "(La;)V", "m", "n"] (by decide))
        (hjoins ["METHOD", "a", "(La;)V", "n", "p", "m"] (by decide)) ⟨rfl, rfl, rfl, rfl⟩
    case field =>
      exact .memberRow (.inl rfl) (hjoins ["FIELD", "a", "I", "f", "x"] (by decide))
        (hjoins ["FIELD", "a", "I", "x", "g", "f"] (by decide)) ⟨rfl, rfl, rfl, rfl⟩
  exact read_seenAlike "o" "n" (.mk (hjoins ["v1", "o", "n"] (by decide))
    (hjoins ["v1", "n", "x", "o"] (by decide)) (by decide) (by decide) hrows)

end Tiny
end Namebridge
