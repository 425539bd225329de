import Namebridge.Format.Tsrg
import Namebridge.Proofs.Cut
import Namebridge.Proofs.Declaration
import Namebridge.Proofs.MemberKey

/-!
# The grammar of the TSRG format

`Says` is what one line says under the class above it, and `Spells` what the lines of a file say one
after the other. Neither mentions how a line is read. `declarations_eq_ok_iff` is that reading finds
exactly this, with the readable names of members put in.
-/

namespace Namebridge.Tsrg

/-! ## Lines -/

/-- A word of a line. -/
structure Word (s : String) : Prop where
  ne_empty : s ≠ ""
  no_tab : '\t' ∉ s.toList
  no_space : ' ' ∉ s.toList

/-- What the line of a member says after its indentation. -/
inductive SaysMember (owner : ClassPair) : String → Declaration → Prop
  | field {source target : String} (hsource : Word source) (htarget : Word target) :
      SaysMember owner (source ++ " " ++ target) (.field owner source target)
  | method {source descriptor target : String} (hsource : Word source)
      (hdescriptor : MemberKey.Opens descriptor) (hspace : ' ' ∉ descriptor.toList)
      (htarget : Word target) :
      SaysMember owner (source ++ " " ++ descriptor ++ " " ++ target)
        (.method owner source descriptor target)

/-- What a line says below the members of a class, or, for `none`, before all classes. -/
inductive Says : Option ClassPair → String → Declaration → Prop
  | classLine {above : Option ClassPair} {source target : String} (hsource : Word source)
      (htarget : Word target) :
      Says above (source ++ " " ++ target) (.classNamed ⟨source, target⟩)
  | memberLine {owner : ClassPair} {text : String} {d : Declaration}
      (hmember : SaysMember owner text d) : Says (some owner) ("\t" ++ text) d

/-- What the lines below the members of a class say. -/
inductive Spells : Option ClassPair → List Line → List Declaration → Prop
  | nil {above : Option ClassPair} : Spells above [] []
  | cons {above : Option ClassPair} {line : Line} {text : String} {d : Declaration}
      {lines : List Line} {ds : List Declaration} (htext : line.text = .ok text)
      (hline : Says above text d) (hrest : Spells (some d.owner) lines ds) :
      Spells above (line :: lines) (d :: ds)

/-- Whatever is spelled is said by a line. -/
theorem Spells.exists_says {above : Option ClassPair} {lines : List Line} {ds : List Declaration}
    (h : Spells above lines ds) {d : Declaration} (hd : d ∈ ds) :
    ∃ class?, ∃ text, Says class? text d := by
  induction h with
  | nil => cases hd
  | cons htext hline hrest ih =>
      rcases List.mem_cons.mp hd with rfl | hd
      · exact ⟨_, _, hline⟩
      · exact ih hd

/-- The lines of a file give each field a counterpart. -/
theorem Spells.word_field {above : Option ClassPair} {lines : List Line} {ds : List Declaration}
    (h : Spells above lines ds) {owner : ClassPair} {source target : String}
    (hd : .field owner source target ∈ ds) : Word target := by
  obtain ⟨_, _, hline⟩ := h.exists_says hd
  cases hline with
  | memberLine hmember =>
      cases hmember with
      | field hsource htarget => exact htarget

/-- The lines of a file give each method a descriptor and a counterpart. -/
theorem Spells.opens_method {above : Option ClassPair} {lines : List Line} {ds : List Declaration}
    (h : Spells above lines ds) {owner : ClassPair} {source descriptor target : String}
    (hd : .method owner source descriptor target ∈ ds) :
    MemberKey.Opens descriptor ∧ Word target := by
  obtain ⟨_, _, hline⟩ := h.exists_says hd
  cases hline with
  | memberLine hmember =>
      cases hmember with
      | method hsource hdescriptor hspace htarget => exact ⟨hdescriptor, htarget⟩

/-- What a line says is about the class that a line above it names, or that it names itself. -/
theorem Spells.classNamed_owner {above : Option ClassPair} {lines : List Line}
    {ds : List Declaration} (h : Spells above lines ds) {d : Declaration} (hd : d ∈ ds) :
    above = some d.owner ∨ .classNamed d.owner ∈ ds := by
  induction h with
  | nil => cases hd
  | @cons above line text first lines ds htext hline hrest ih =>
      have hfirst : above = some first.owner ∨ .classNamed first.owner = first := by
        cases hline with
        | classLine hsource htarget => exact .inr rfl
        | memberLine hmember =>
            cases hmember with
            | field hsource htarget => exact .inl rfl
            | method hsource hdescriptor hspace htarget => exact .inl rfl
      have howned : above = some first.owner ∨ .classNamed first.owner ∈ first :: ds :=
        hfirst.imp_right fun heq => by rw [heq]; exact List.mem_cons_self
      rcases List.mem_cons.mp hd with rfl | hd
      · exact howned
      · -- the class above the later lines is the one that the first line is about
        rcases ih hd with hsame | hmem
        · rwa [Option.some.inj hsame] at howned
        · exact .inr (List.mem_cons_of_mem first hmem)

/-- A declaration with the readable name of the member. -/
def MemberNames.readable (names : MemberNames) : Declaration → Declaration
  | .classNamed pair => .classNamed pair
  | .field owner source target => .field owner source (names.fields.rename target)
  | .method owner source descriptor target =>
      .method owner source descriptor (names.methods.rename target)

theorem readable_empty (d : Declaration) : MemberNames.readable {} d = d := by
  cases d <;> rfl

theorem map_readable_empty (ds : List Declaration) : ds.map (MemberNames.readable {}) = ds :=
  (List.map_congr_left fun d _ => readable_empty d).trans (List.map_id ds)

@[simp] theorem owner_readable (names : MemberNames) (d : Declaration) :
    (names.readable d).owner = d.owner := by
  cases d <;> rfl

/-! ## Reading a line -/

theorem isWord_iff (s : String) : isWord s = true ↔ s ≠ "" ∧ '\t' ∉ s.toList := by
  simp [isWord]

theorem Word.isWord {s : String} (h : Word s) : isWord s = true :=
  (isWord_iff s).mpr ⟨h.ne_empty, h.no_tab⟩

theorem word_of_isWord {s : String} (h : isWord s = true) (hspace : ' ' ∉ s.toList) : Word s :=
  ⟨((isWord_iff s).mp h).1, ((isWord_iff s).mp h).2, hspace⟩

theorem isDescriptor_iff (s : String) : isDescriptor s = true ↔ MemberKey.Opens s := by
  simp [isDescriptor, MemberKey.Opens]

theorem parseClass_eq_ok_iff (text : String) (d : Declaration) :
    parseClass text = .ok d ↔ ∃ source target, Word source ∧ Word target ∧
      text = source ++ " " ++ target ∧ d = .classNamed ⟨source, target⟩ := by
  constructor
  · intro h
    rw [parseClass] at h
    split at h
    · rename_i source target hfields
      obtain ⟨hsource, htarget, htext⟩ := (Text.fields_eq_pair_iff _ _ _).mp hfields
      split at h
      · rename_i hwords
        rw [Bool.and_eq_true] at hwords
        cases h
        exact ⟨source, target, word_of_isWord hwords.1 hsource, word_of_isWord hwords.2 htarget,
          htext, rfl⟩
      · cases h
    · cases h
  · intro hparts
    obtain ⟨source, target, hsource, htarget, htext, rfl⟩ := hparts
    have hfields : Text.fields ' ' text = [source, target] :=
      (Text.fields_eq_pair_iff _ _ _).mpr ⟨hsource.no_space, htarget.no_space, htext⟩
    rw [parseClass, hfields]
    simp [hsource.isWord, htarget.isWord]

theorem parseMember_eq_ok_iff (names : MemberNames) (owner : ClassPair) (text : String)
    (d' : Declaration) :
    parseMember names owner text = .ok d' ↔
      ∃ d, SaysMember owner text d ∧ names.readable d = d' := by
  constructor
  · intro h
    rw [parseMember] at h
    split at h
    · rename_i source target hfields
      obtain ⟨hsource, htarget, rfl⟩ := (Text.fields_eq_pair_iff _ _ _).mp hfields
      split at h
      · rename_i hwords
        rw [Bool.and_eq_true] at hwords
        cases h
        exact ⟨_, .field (word_of_isWord hwords.1 hsource) (word_of_isWord hwords.2 htarget), rfl⟩
      · cases h
    · rename_i source descriptor target hfields
      obtain ⟨hsource, hdescriptor, htarget, rfl⟩ := (Text.fields_eq_triple_iff _ _ _ _).mp hfields
      split at h
      · rename_i hwords
        rw [Bool.and_eq_true, Bool.and_eq_true] at hwords
        cases h
        exact ⟨_, .method (word_of_isWord hwords.1.1 hsource)
          ((isDescriptor_iff _).mp hwords.1.2) hdescriptor (word_of_isWord hwords.2 htarget), rfl⟩
      · cases h
    · cases h
  · intro hparts
    obtain ⟨d, hmember, rfl⟩ := hparts
    cases hmember with
    | @field source target hsource htarget =>
        have hfields : Text.fields ' ' (source ++ " " ++ target) = [source, target] :=
          (Text.fields_eq_pair_iff _ _ _).mpr ⟨hsource.no_space, htarget.no_space, rfl⟩
        rw [parseMember, hfields]
        simp [hsource.isWord, htarget.isWord, MemberNames.readable]
    | @method source descriptor target hsource hdescriptor hspace htarget =>
        have hfields : Text.fields ' ' (source ++ " " ++ descriptor ++ " " ++ target)
            = [source, descriptor, target] :=
          (Text.fields_eq_triple_iff _ _ _ _).mpr
            ⟨hsource.no_space, hspace, htarget.no_space, rfl⟩
        rw [parseMember, hfields]
        simp [hsource.isWord, htarget.isWord, (isDescriptor_iff _).mpr hdescriptor,
          MemberNames.readable]

theorem parseLine_tab_none (names : MemberNames) (text : String) :
    parseLine names none ("\t" ++ text) = .error .memberOutsideClass := by
  have hlist : ("\t" ++ text).toList = '\t' :: text.toList := by simp
  unfold parseLine
  rw [hlist]
  rfl

theorem parseLine_tab (names : MemberNames) (owner : ClassPair) (text : String) :
    parseLine names (some owner) ("\t" ++ text) = parseMember names owner text := by
  have hlist : ("\t" ++ text).toList = '\t' :: text.toList := by simp
  unfold parseLine
  rw [hlist]
  show parseMember names owner (String.ofList text.toList) = _
  rw [String.ofList_toList]

theorem parseLine_of_head? (names : MemberNames) (owner? : Option ClassPair) {text : String}
    (h : text.toList.head? ≠ some '\t') : parseLine names owner? text = parseClass text := by
  unfold parseLine
  split
  · rename_i hlist
    simp [hlist] at h
  · rename_i hlist
    simp [hlist] at h
  · rfl

/-- A line is indented or not. -/
theorem exists_tab_append {text : String} (h : text.toList.head? = some '\t') :
    ∃ member, text = "\t" ++ member := by
  cases hlist : text.toList with
  | nil => simp [hlist] at h
  | cons c rest =>
      rw [hlist, List.head?_cons, Option.some.injEq] at h
      refine ⟨String.ofList rest, String.ext ?_⟩
      simp [hlist, h]

/-- No word starts with a tab. -/
theorem Word.head?_append {s : String} (h : Word s) (rest : String) :
    (s ++ rest).toList.head? ≠ some '\t' := by
  cases hs : s.toList with
  | nil => exact absurd (String.toList_eq_nil_iff.mp hs) h.ne_empty
  | cons c cs =>
      intro hhead
      rw [String.toList_append, hs, List.cons_append, List.head?_cons, Option.some.injEq] at hhead
      exact h.no_tab (by simp [hs, hhead])

/-- A line is read as what it says. -/
theorem parseLine_eq_ok_iff (names : MemberNames) (above : Option ClassPair) (text : String)
    (d' : Declaration) :
    parseLine names above text = .ok d' ↔ ∃ d, Says above text d ∧ names.readable d = d' := by
  constructor
  · intro h
    by_cases htab : text.toList.head? = some '\t'
    · obtain ⟨member, rfl⟩ := exists_tab_append htab
      cases above with
      | none =>
          rw [parseLine_tab_none] at h
          cases h
      | some owner =>
          rw [parseLine_tab] at h
          obtain ⟨d, hmember, hd⟩ := (parseMember_eq_ok_iff names owner member d').mp h
          exact ⟨d, .memberLine hmember, hd⟩
    · rw [parseLine_of_head? names above htab] at h
      obtain ⟨source, target, hsource, htarget, rfl, rfl⟩ := (parseClass_eq_ok_iff text d').mp h
      exact ⟨_, .classLine hsource htarget, rfl⟩
  · intro hparts
    obtain ⟨d, hline, rfl⟩ := hparts
    cases hline with
    | @classLine _ source target hsource htarget =>
        have htab : (source ++ " " ++ target).toList.head? ≠ some '\t' := by
          rw [String.append_assoc]
          exact hsource.head?_append _
        rw [parseLine_of_head? names above htab]
        exact (parseClass_eq_ok_iff _ _).mpr ⟨source, target, hsource, htarget, rfl, rfl⟩
    | @memberLine owner text _ hmember =>
        rw [parseLine_tab]
        exact (parseMember_eq_ok_iff names owner text _).mpr ⟨_, hmember, rfl⟩

/-! ## Reading a file -/

theorem readLine_eq_ok_iff (names : MemberNames) (declared declared' : List Declaration)
    (line : Line) :
    readLine names declared line = .ok declared' ↔
      ∃ text d, line.text = .ok text ∧ Says (declared.head?.map Declaration.owner) text d ∧
        declared' = names.readable d :: declared := by
  simp only [readLine, Traversal.bind_eq_ok_iff, Traversal.mapError_eq_ok_iff,
    parseLine_eq_ok_iff]
  constructor
  · intro hparts
    obtain ⟨text, htext, _, ⟨d, hline, rfl⟩, h⟩ := hparts
    cases h
    exact ⟨text, d, htext, hline, rfl⟩
  · intro hparts
    obtain ⟨text, d, htext, hline, rfl⟩ := hparts
    exact ⟨text, htext, _, ⟨d, hline, rfl⟩, rfl⟩

/-- What is read is put before the declarations so far, the latest first. -/
theorem foldlM_readLine_eq_ok_iff (names : MemberNames) (lines : List Line)
    (declared declared' : List Declaration) :
    lines.foldlM (readLine names) declared = .ok declared' ↔
      ∃ ds, Spells (declared.head?.map Declaration.owner) lines ds ∧
        declared' = (ds.map names.readable).reverse ++ declared := by
  induction lines generalizing declared with
  | nil =>
      constructor
      · intro h
        cases h
        exact ⟨[], .nil, rfl⟩
      · intro hparts
        obtain ⟨ds, hspells, rfl⟩ := hparts
        cases hspells
        rfl
  | cons line rest ih =>
      rw [List.foldlM_cons, Traversal.bind_eq_ok_iff]
      simp only [ih, readLine_eq_ok_iff]
      constructor
      · intro hparts
        obtain ⟨_, ⟨text, d, htext, hline, rfl⟩, ds, hspells, rfl⟩ := hparts
        -- the class above the next line is that of the line just read
        rw [List.head?_cons, Option.map_some, owner_readable] at hspells
        exact ⟨d :: ds, .cons htext hline hspells, by simp⟩
      · intro hparts
        obtain ⟨ds, hspells, rfl⟩ := hparts
        cases hspells with
        | @cons _ _ text d _ ds htext hline hspells =>
            refine ⟨_, ⟨text, d, htext, hline, rfl⟩, ds, ?_, by simp⟩
            rw [List.head?_cons, Option.map_some, owner_readable]
            exact hspells

/-- The declarations of a file are what its lines spell. -/
theorem declarations_eq_ok_iff (names : MemberNames) (lines : List Line)
    (ds' : List Declaration) :
    declarations names lines = .ok ds' ↔
      ∃ ds, Spells none lines ds ∧ ds' = ds.map names.readable := by
  rw [declarations, Traversal.map_eq_ok_iff]
  simp only [foldlM_readLine_eq_ok_iff]
  constructor
  · intro h
    obtain ⟨_, ⟨ds, hspells, rfl⟩, rfl⟩ := h
    exact ⟨ds, hspells, by simp⟩
  · intro h
    obtain ⟨ds, hspells, rfl⟩ := h
    exact ⟨_, ⟨ds, hspells, rfl⟩, by simp⟩

/-- A file is read into the tables of what its lines spell. -/
theorem ofLines_eq_ok_iff (names : MemberNames) (lines : List Line) (m : Mappings) :
    ofLines names lines = .ok m ↔
      ∃ ds, Spells none lines ds ∧ Mappings.ofDeclarations (ds.map names.readable) = .ok m := by
  rw [ofLines, Traversal.bind_eq_ok_iff]
  simp only [Traversal.mapError_eq_ok_iff, declarations_eq_ok_iff]
  constructor
  · intro h
    obtain ⟨_, ⟨ds, hspells, rfl⟩, hm⟩ := h
    exact ⟨ds, hspells, hm⟩
  · intro h
    obtain ⟨ds, hspells, hm⟩ := h
    exact ⟨_, ⟨ds, hspells, rfl⟩, hm⟩

/-- Lines that spell declarations are read as far as these make tables. -/
theorem Spells.ofLines_eq {lines : List Line} {ds : List Declaration} (h : Spells none lines ds)
    (names : MemberNames) : ofLines names lines
      = (Mappings.ofDeclarations (ds.map names.readable)).mapError .badDescriptor := by
  have hread : declarations names lines = .ok (ds.map names.readable) :=
    (declarations_eq_ok_iff names lines _).mpr ⟨ds, h, rfl⟩
  rw [ofLines, hread]
  rfl

/-- Without readable names the declarations of a file are what its lines spell. -/
theorem spells_iff (lines : List Line) (ds : List Declaration) :
    Spells none lines ds ↔ declarations {} lines = .ok ds := by
  simp only [declarations_eq_ok_iff, map_readable_empty, exists_eq_right']

/-- The lines of a file spell one list of declarations only. -/
theorem Spells.unique {lines : List Line} {ds ds' : List Declaration} (h : Spells none lines ds)
    (h' : Spells none lines ds') : ds = ds' := by
  rw [spells_iff] at h h'
  rw [h] at h'
  exact Except.ok.inj h'

/-- The tables of a file are those of what its lines spell, under readable names. -/
theorem ofDeclarations_of_read {names : MemberNames} {file : Bytes} {ds : List Declaration}
    {m : Mappings} (h : read names file = .ok m) (hspells : Spells none (Line.ofBytes file) ds) :
    Mappings.ofDeclarations (ds.map names.readable) = .ok m := by
  obtain ⟨ds', hspells', hm⟩ := (ofLines_eq_ok_iff names _ m).mp h
  rw [hspells.unique hspells']
  exact hm

/-! ## Members under readable names -/

variable {names : MemberNames} {ds : List Declaration}

@[simp] theorem key_readable (names : MemberNames) (d : Declaration) :
    (names.readable d).key = d.key := by
  cases d <;> rfl

@[simp] theorem kind_readable (names : MemberNames) (d : Declaration) :
    (names.readable d).kind = d.kind := by
  cases d <;> rfl

/-- Readable names are counterparts, and no names that are declared. -/
theorem map_key_readable (names : MemberNames) (kind : SymbolKind) (ds : List Declaration) :
    (Declaration.ofKind kind (ds.map names.readable)).map Declaration.key
      = (Declaration.ofKind kind ds).map Declaration.key := by
  simp only [Declaration.ofKind, List.filter_map, List.map_map, Function.comp_def,
    kind_readable, key_readable]

theorem field_mem_readable_iff (owner : ClassPair) (source name : String) :
    .field owner source name ∈ ds.map names.readable ↔
      ∃ target, .field owner source target ∈ ds ∧ names.fields.rename target = name := by
  rw [List.mem_map]
  constructor
  · intro h
    obtain ⟨d, hd, hread⟩ := h
    cases d with
    | classNamed pair => cases hread
    | method owner source descriptor target => cases hread
    | field owner source target =>
        cases hread
        exact ⟨target, hd, rfl⟩
  · intro h
    obtain ⟨target, hd, rfl⟩ := h
    exact ⟨_, hd, rfl⟩

theorem method_mem_readable_iff (owner : ClassPair) (source descriptor name : String) :
    .method owner source descriptor name ∈ ds.map names.readable ↔
      ∃ target, .method owner source descriptor target ∈ ds ∧
        names.methods.rename target = name := by
  rw [List.mem_map]
  constructor
  · intro h
    obtain ⟨d, hd, hread⟩ := h
    cases d with
    | classNamed pair => cases hread
    | field owner source target => cases hread
    | method owner source descriptor target =>
        cases hread
        exact ⟨target, hd, rfl⟩
  · intro h
    obtain ⟨target, hd, rfl⟩ := h
    exact ⟨_, hd, rfl⟩

end Namebridge.Tsrg
