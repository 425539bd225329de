import Namebridge.Proofs.ClassIndex
import Namebridge.Proofs.ReadableNames
import Namebridge.Proofs.Recovery
import Namebridge.Proofs.TsrgNames

/-!
# Members that are left with a name

The lines of a TSRG file give each member a name, but a table of readable names can take it away: a
row with an empty second column blanks the name of its identifier. `NamesMembers` is that no member
of the tables is blanked, and `namesMembers_iff` that this holds exactly if no such row is used.

Where members are renamed, their names are taken out of the tables again. A field is then left with
a name. The name of a method ends at the first parenthesis behind the first colon, so it has to be
free of them at its start: `rename_method_ne_empty`.
-/

namespace Namebridge

/-! ## Renaming by names that are not empty -/

theorem Hierarchy.exists_of_find? {α : Type} {h : Hierarchy} {ask : String → Option α}
    {cls : String} {answer : α} (hfound : h.find? ask cls = some answer) :
    ∃ c, ask c = some answer := by
  rw [find?, search_eq_lineage] at hfound
  obtain ⟨c, -, hc⟩ := List.exists_of_findSome?_eq_some hfound
  exact ⟨c, hc⟩

namespace Renamer

variable {r : Renamer}

/-- An identifier is replaced by the new name. -/
theorem newName_of_rename {binding : Binding} {identifier name : String}
    (h : (r.rename binding identifier).value = some name) :
    (r.newName binding).value = some name := by
  rw [value_rename, Option.bind_eq_some_iff] at h
  obtain ⟨newName, hnewName, hanswer⟩ := h
  rw [answer] at hanswer
  split at hanswer
  · cases hanswer
  · rw [hnewName, hanswer]

/-- No field is renamed to nothing, if no class has one with an empty new name. -/
theorem rename_field_ne_empty (h : ∀ cls name, ClassIndex.field? r.index cls name ≠ some "")
    (owner : Option String) (name identifier : String) :
    (r.rename (.field owner name) identifier).value ≠ some "" := by
  intro hempty
  have hnewName : owner.bind (r.field? · name) = some "" := newName_of_rename hempty
  obtain ⟨cls, -, hfield⟩ := Option.bind_eq_some_iff.mp hnewName
  obtain ⟨c, hc⟩ := Hierarchy.exists_of_find? hfield
  exact h c name hc

/-- No method is renamed to nothing, not even in place of another one. -/
theorem rename_method_ne_empty (h : ∀ cls name descriptor,
      ClassIndex.method? r.index cls name descriptor ≠ some "")
    (owner name descriptor identifier : String) :
    (r.rename (.method owner name descriptor false) identifier).value ≠ some "" := by
  intro hempty
  have hnewName := newName_of_rename hempty
  cases hmethod : r.method? owner name descriptor with
  | some new =>
      rw [newName_of_method? hmethod] at hnewName
      cases hnewName
      obtain ⟨c, hc⟩ := Hierarchy.exists_of_find? hmethod
      exact h c name descriptor hc
  | none =>
      cases hnamesake : r.namesake? owner name with
      | none =>
          rw [newName_of_none hmethod hnamesake] at hnewName
          cases hnewName
      | some found =>
          rw [newName_of_namesake? hmethod hnamesake] at hnewName
          obtain ⟨c, hc⟩ := Hierarchy.exists_of_find? hnamesake
          have hown := ((r.ownNamesake?_eq_some_iff name c found).mp hc).hasMethod
          have hname : found.newName = "" := Option.some.inj hnewName
          rw [← ownMethod?_eq_some_iff, hname] at hown
          exact h c name found.descriptor hown

end Renamer

namespace Tsrg

/-! ## Counterparts with names -/

/-- The counterpart of each member has a name after that of its class: a text that is not empty, and
that stands before the descriptor of a method. -/
structure NamesMembers (ds : List Declaration) (m : Mappings) : Prop where
  fields : ∀ k v, m.fields.get? k = some v → ∃ owner source target name,
    Declaration.Last ds (.field owner source target) ∧ .classNamed owner ∈ ds ∧
      MemberKey.field owner.source source = k ∧ name ≠ "" ∧
      MemberKey.field owner.target name = v
  methods : ∀ k v, m.methods.get? k = some v → ∃ owner source descriptor target name renamed,
    Declaration.Last ds (.method owner source descriptor target) ∧ .classNamed owner ∈ ds ∧
      MemberKey.method owner.source source descriptor = k ∧ name ≠ "" ∧
      Descriptor.rename m.classes.rename descriptor = .ok renamed ∧ MemberKey.Opens renamed ∧
      MemberKey.method owner.target name renamed = v

/-- No method has a name that starts like a descriptor, and none is in a class whose counterpart has
a colon. -/
def PlainMethods (names : MemberNames) (ds : List Declaration) : Prop :=
  ∀ owner source descriptor target,
    Declaration.Last ds (.method owner source descriptor target) →
      ':' ∉ owner.target.toList ∧ ¬ MemberKey.Opens (names.methods.rename target)

variable {names : MemberNames} {lines : List Line} {ds : List Declaration} {m : Mappings}

theorem classNamed_owner_of_last (hspells : Spells none lines ds) {d : Declaration}
    (h : Declaration.Last ds d) : .classNamed d.owner ∈ ds :=
  (hspells.classNamed_owner h.mem).resolve_left (by simp)

/-- Members have names exactly if no readable name that is put in is empty. -/
theorem namesMembers_iff_ne_empty (hspells : Spells none lines ds)
    (hm : Mappings.ofDeclarations (ds.map names.readable) = .ok m) :
    NamesMembers ds m ↔
      (∀ owner source target, Declaration.Last ds (.field owner source target) →
        names.fields.rename target ≠ "") ∧
      ∀ owner source descriptor target,
        Declaration.Last ds (.method owner source descriptor target) →
          names.methods.rename target ≠ "" := by
  constructor
  · intro h
    constructor
    · intro owner source target hlast hempty
      have hget := (get?_fields_iff hm _ _).mpr ⟨owner, source, target, hlast, rfl, rfl⟩
      obtain ⟨owner', source', target', name, hlast', -, hkey, hname, hvalue⟩ :=
        h.fields _ _ hget
      cases hlast'.unique hlast rfl hkey
      rw [hempty] at hvalue
      exact hname (by simpa [MemberKey.field] using hvalue)
    · intro owner source descriptor target hlast hempty
      have hreadable := (last_readable_iff names ds _).mpr ⟨_, hlast, rfl⟩
      obtain ⟨v, hv, hget⟩ := Mappings.get?_table_of_last hm hreadable
      obtain ⟨renamed, hrenamed, rfl⟩ := (Traversal.map_eq_ok_iff _ _ _).mp hv
      obtain ⟨owner', source', descriptor', target', name, renamed', hlast', -, hkey, hname,
        hrenamed', -, hvalue⟩ := h.methods _ _ hget
      cases hlast'.unique hlast rfl hkey
      rw [hempty, Except.ok.inj (hrenamed'.symm.trans hrenamed)] at hvalue
      exact hname (by simpa [MemberKey.method] using hvalue)
  · intro h
    refine ⟨fun k v hget => ?field, fun k v hget => ?method⟩
    case field =>
      obtain ⟨owner, source, target, hlast, hkey, hvalue⟩ := (get?_fields_iff hm k v).mp hget
      exact ⟨owner, source, target, _, hlast, classNamed_owner_of_last hspells hlast, hkey,
        h.1 owner source target hlast, hvalue⟩
    case method =>
      obtain ⟨owner, source, descriptor, target, renamed, hlast, hkey, hrenamed, hvalue⟩ :=
        (get?_methods_iff hm k v).mp hget
      have hopens := (hspells.opens_method hlast.mem).1
      exact ⟨owner, source, descriptor, target, _, renamed, hlast,
        classNamed_owner_of_last hspells hlast, hkey, h.2 owner source descriptor target hlast,
        hrenamed, Descriptor.head?_rename hopens hrenamed, hvalue⟩

/-! ## New names of members -/

theorem NamesMembers.field?_ne_empty (h : NamesMembers ds m) {index : ClassIndex}
    (hindex : ClassIndex.ofMappings m = .ok index) (cls name : String) :
    ClassIndex.field? index cls name ≠ some "" := by
  intro hempty
  obtain ⟨-, value, owner, hget, hsplit⟩ :=
    (ClassIndex.field?_eq_some_iff hindex cls name "").mp hempty
  obtain ⟨_, _, _, _, -, -, -, hname, rfl⟩ := h.fields _ _ hget
  exact MemberKey.ne_empty_of_split_field hname hsplit rfl

theorem method?_ne_empty (hm : Mappings.ofDeclarations (ds.map names.readable) = .ok m)
    (hnamed : ∀ owner source descriptor target,
      Declaration.Last ds (.method owner source descriptor target) →
        names.methods.rename target ≠ "")
    (hplain : PlainMethods names ds) {index : ClassIndex}
    (hindex : ClassIndex.ofMappings m = .ok index) (cls name descriptor : String) :
    ClassIndex.method? index cls name descriptor ≠ some "" := by
  intro hempty
  obtain ⟨-, -, -, value, owner', member, hget, hsplit, hpart⟩ :=
    (ClassIndex.method?_eq_some_iff hindex cls name descriptor "").mp hempty
  obtain ⟨owner, source, descriptor', target, renamed, hlast, -, -, rfl⟩ :=
    (get?_methods_iff hm _ _).mp hget
  obtain ⟨hcolon, hstart⟩ := hplain owner source descriptor' target hlast
  rw [MemberKey.split_method hcolon] at hsplit
  cases hsplit
  rw [MemberKey.namePart_eq_empty_iff] at hpart
  exact hstart (hpart.opens_left (hnamed owner source descriptor' target hlast))

/-- **Members keep a name, unless a row takes it away**: the members of a file have counterparts
with names exactly if no name from the last line for a member is blanked by the last row for it in
the table of readable names. Then no field is renamed to nothing, and neither is any method that has
a plain name in a class with a plain counterpart. -/
theorem namesMembers_iff {fieldFile methodFile file : Bytes}
    (hfields : ReadableNames.read fieldFile = .ok names.fields)
    (hmethods : ReadableNames.read methodFile = .ok names.methods)
    (hm : read names file = .ok m) (hspells : Spells none (Line.ofBytes file) ds) :
    (NamesMembers ds m ↔
      (∀ owner source target, Declaration.Last ds (.field owner source target) →
        ¬ ReadableNames.Blanks (Line.ofBytes fieldFile) target) ∧
      ∀ owner source descriptor target,
        Declaration.Last ds (.method owner source descriptor target) →
          ¬ ReadableNames.Blanks (Line.ofBytes methodFile) target) ∧
    (NamesMembers ds m → ∀ r : Renamer, ClassIndex.ofMappings m = .ok r.index →
      (∀ owner name identifier, (r.rename (.field owner name) identifier).value ≠ some "") ∧
      (PlainMethods names ds → ∀ owner name descriptor identifier,
        (r.rename (.method owner name descriptor false) identifier).value ≠ some "")) := by
  have hm := ofDeclarations_of_read hm hspells
  have hiff := namesMembers_iff_ne_empty hspells hm
  constructor
  · rw [hiff]
    refine and_congr ?field ?method
    case field =>
      refine forall₃_congr fun owner source target => imp_congr_right fun hlast => not_congr ?_
      exact ReadableNames.rename_eq_empty_iff hfields
        (hspells.word_field hlast.mem).ne_empty
    case method =>
      refine forall₄_congr fun owner source descriptor target =>
        imp_congr_right fun hlast => not_congr ?_
      exact ReadableNames.rename_eq_empty_iff hmethods
        (hspells.opens_method hlast.mem).2.ne_empty
  · intro hnames r hindex
    refine ⟨r.rename_field_ne_empty (hnames.field?_ne_empty hindex), fun hplain => ?_⟩
    exact r.rename_method_ne_empty (method?_ne_empty hm (hiff.mp hnames).2 hplain hindex)

/-- The last row for `x` names it, and the row that blanks `y` is not about methods. -/
theorem namesMembers_iff_named_again :
    ∃ m, read { fields := .ofPairs [("x", "health"), ("y", "")] }
        (Utf8.encode "a A\n\tf x\n\tm ()V y\n") = .ok m ∧
      NamesMembers [.classNamed ⟨"a", "A"⟩, .field ⟨"a", "A"⟩ "f" "x",
        .method ⟨"a", "A"⟩ "m" "()V" "y"] m ∧
      ∀ r : Renamer, ClassIndex.ofMappings m = .ok r.index →
        (∀ owner name identifier, (r.rename (.field owner name) identifier).value ≠ some "") ∧
        ∀ owner name descriptor identifier,
          (r.rename (.method owner name descriptor false) identifier).value ≠ some "" := by
  have hfields : ReadableNames.read (Utf8.encode "searge,name\nx,\ny,\nx,health\n")
      = .ok (.ofPairs [("x", "health"), ("y", "")]) := by decide
  have hmethods : ReadableNames.read (Utf8.encode "searge,name\n") = .ok .empty := by decide
  have hm : read { fields := .ofPairs [("x", "health"), ("y", "")] }
      (Utf8.encode "a A\n\tf x\n\tm ()V y\n") = .ok
        { classes := .ofPairs [("a", "A")], fields := .ofPairs [("a:f", "A:health")],
          methods := .ofPairs [("a:m()V", "A:y()V")] } := by decide
  have hspells : Spells none (Line.ofBytes (Utf8.encode "a A\n\tf x\n\tm ()V y\n"))
      [.classNamed ⟨"a", "A"⟩, .field ⟨"a", "A"⟩ "f" "x", .method ⟨"a", "A"⟩ "m" "()V" "y"] :=
    (spells_iff _ _).mpr (by decide)
  obtain ⟨hiff, hrename⟩ := namesMembers_iff hfields hmethods hm hspells
  have hnames := hiff.mpr ⟨?field, ?method⟩
  case field =>
    intro owner source target hlast
    have hmem := hlast.mem
    simp only [List.mem_cons, reduceCtorEq, Declaration.field.injEq, List.not_mem_nil, or_false,
      false_or] at hmem
    obtain ⟨rfl, rfl, rfl⟩ := hmem
    rw [ReadableNames.blanks_iff hfields]
    decide
  case method =>
    intro owner source descriptor target _
    rw [ReadableNames.blanks_iff hmethods, OrderedMap.get?_empty]
    simp
  refine ⟨_, hm, hnames, fun r hindex => ⟨(hrename hnames r hindex).1,
    (hrename hnames r hindex).2 ?plain⟩⟩
  case plain =>
    intro owner source descriptor target hlast
    have hmem := hlast.mem
    simp only [List.mem_cons, reduceCtorEq, Declaration.method.injEq, List.not_mem_nil, or_false,
      false_or] at hmem
    obtain ⟨rfl, rfl, rfl, rfl⟩ := hmem
    decide

/-- A row with an empty name leaves nothing of a field, neither in the tables nor in source code. -/
theorem read_blanked :
    ∃ names m index, ReadableNames.read (Utf8.encode "searge,name\nfield_1_a,\n") = .ok names ∧
      ReadableNames.read (Utf8.encode "searge,name\n") = .ok .empty ∧
      read { fields := names } (Utf8.encode "a net/A\n\tb field_1_a\n") = .ok m ∧
      m.fields.get? "a:b" = some "net/A:" ∧
      ¬ NamesMembers [.classNamed ⟨"a", "net/A"⟩, .field ⟨"a", "net/A"⟩ "b" "field_1_a"] m ∧
      ClassIndex.ofMappings m = .ok index ∧
      ((Renamer.mk index .flat).rename (.field (some "a") "b") "b").value = some "" := by
  refine ⟨.ofPairs [("field_1_a", "")],
    { classes := .ofPairs [("a", "net/A")], fields := .ofPairs [("a:b", "net/A:")] },
    .ofPairs [("a", { name := "net/A", fields := .ofPairs [("b", "")] })],
    by decide, by decide, by decide, by decide, ?_, by decide, by decide⟩
  intro h
  obtain ⟨owner, source, target, name, -, howner, -, hname, hvalue⟩ :=
    h.fields "a:b" "net/A:" (by decide)
  simp only [List.mem_cons, Declaration.classNamed.injEq, reduceCtorEq, List.not_mem_nil,
    or_false] at howner
  subst howner
  exact hname (by simpa [MemberKey.field] using hvalue)

end Tsrg

end Namebridge
