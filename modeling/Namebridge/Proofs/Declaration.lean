import Namebridge.Mappings.Declaration
import Namebridge.Proofs.Descriptor
import Namebridge.Proofs.NameTable
import Namebridge.Proofs.Traversal

/-!
# The tables that declarations make

Each declaration has a place in one of the three tables: its `kind`, its `key`, and, once all
classes are known, its `value`. The tables of a file hold the declarations of their kind in the
order of the file (`exists_entries`), and nothing else matters to them (`ofDeclarations_congr`).
Where no key is declared twice they hold nothing else and lose none (`get?_table_iff`); else the last
declaration of a key gives its value (`get?_table_iff_last`).

The first method whose descriptor ends in a class name is refused (`ofDeclarations_eq_error_iff`).

Declarations of distinct names can be given in any order: all orders are refused, or all make tables
with the same entries (`sameOutcome_of_perm`).
-/

namespace Namebridge

namespace Declaration

/-- The table in which a declaration has its place. -/
def kind : Declaration → SymbolKind
  | classNamed _ => .classes
  | field _ _ _ => .fields
  | method _ _ _ _ => .methods

/-- The name that is declared, as tables give it. -/
def key : Declaration → String
  | classNamed pair => pair.source
  | field owner source _ => MemberKey.field owner.source source
  | method owner source descriptor _ => MemberKey.method owner.source source descriptor

/-- The counterpart of the name, as tables give it, where the classes have these counterparts. -/
def value (classes : NameTable) : Declaration → Except Descriptor.Fault String
  | classNamed pair => .ok pair.target
  | field owner _ target => .ok (MemberKey.field owner.target target)
  | method owner _ descriptor target =>
      (Descriptor.rename classes.rename descriptor).map (MemberKey.method owner.target target)

/-- The declarations of one kind, in their order. -/
def ofKind (kind : SymbolKind) (ds : List Declaration) : List Declaration :=
  ds.filter fun d => d.kind = kind

theorem mem_ofKind (kind : SymbolKind) (ds : List Declaration) (d : Declaration) :
    d ∈ ofKind kind ds ↔ d ∈ ds ∧ d.kind = kind := by
  simp [ofKind]

@[simp] theorem ofKind_append (kind : SymbolKind) (ds ds' : List Declaration) :
    ofKind kind (ds ++ ds') = ofKind kind ds ++ ofKind kind ds' := List.filter_append ..

theorem ofKind_eq_nil {kind : SymbolKind} {ds : List Declaration} (h : ∀ d ∈ ds, d.kind ≠ kind) :
    ofKind kind ds = [] := by
  rw [ofKind, List.filter_eq_nil_iff]
  intro d hd
  simpa using h d hd

/-- Classes and members can change places, since no table has both. -/
theorem ofKind_append_comm (kind : SymbolKind) {classes members : List Declaration}
    (hclasses : ∀ d ∈ classes, d.kind = .classes) (hmembers : ∀ d ∈ members, d.kind ≠ .classes) :
    ofKind kind (members ++ classes) = ofKind kind (classes ++ members) := by
  rw [ofKind_append, ofKind_append]
  by_cases hkind : kind = .classes
  · subst hkind
    have hnone : ofKind .classes members = [] := ofKind_eq_nil hmembers
    rw [hnone, List.nil_append, List.append_nil]
  · have hnone : ofKind kind classes = [] :=
      ofKind_eq_nil fun d hd heq => hkind (heq.symm.trans (hclasses d hd))
    rw [hnone, List.append_nil, List.nil_append]

/-- What is made of declarations of one kind only can be made of these alone. -/
theorem filterMap_ofKind {α : Type} {kind : SymbolKind} {g : Declaration → Option α}
    (hg : ∀ d, d.kind ≠ kind → g d = none) (ds : List Declaration) :
    (ofKind kind ds).filterMap g = ds.filterMap g := by
  rw [ofKind, List.filterMap_filter]
  refine List.filterMap_congr fun d _ => ?_
  by_cases hkind : d.kind = kind
  · simp [hkind]
  · simp [hkind, hg d hkind]

theorem forClasses?_eq_none (d : Declaration) (h : d.kind ≠ .classes) : d.forClasses? = none := by
  cases d with
  | classNamed pair => exact absurd rfl h
  | _ => rfl

theorem forFields?_eq_none (d : Declaration) (h : d.kind ≠ .fields) : d.forFields? = none := by
  cases d with
  | field owner source target => exact absurd rfl h
  | _ => rfl

theorem forMethods?_eq_none (classes : NameTable) (d : Declaration) (h : d.kind ≠ .methods) :
    d.forMethods? classes = none := by
  cases d with
  | method owner source descriptor target => exact absurd rfl h
  | _ => rfl

/-- An entry that a declaration makes in its table. -/
def Makes (classes : NameTable) (d : Declaration) (entry : String × String) : Prop :=
  d.key = entry.1 ∧ d.value classes = .ok entry.2

theorem forall₂_forClasses? (classes : NameTable) (ds : List Declaration) :
    List.Forall₂ (Makes classes) (ofKind .classes ds) (ds.filterMap forClasses?) := by
  induction ds with
  | nil => exact .nil
  | cons d rest ih =>
      cases d with
      | classNamed pair => exact .cons ⟨rfl, rfl⟩ ih
      | field owner source target => exact ih
      | method owner source descriptor target => exact ih

theorem forall₂_forFields? (classes : NameTable) (ds : List Declaration) :
    List.Forall₂ (Makes classes) (ofKind .fields ds) (ds.filterMap forFields?) := by
  induction ds with
  | nil => exact .nil
  | cons d rest ih =>
      cases d with
      | classNamed pair => exact ih
      | field owner source target => exact .cons ⟨rfl, rfl⟩ ih
      | method owner source descriptor target => exact ih

theorem forall₂_forMethods? {classes : NameTable} {ds : List Declaration}
    {entries : List (String × String)}
    (h : (ds.filterMap (forMethods? classes)).mapM id = .ok entries) :
    List.Forall₂ (Makes classes) (ofKind .methods ds) entries := by
  rw [Traversal.mapM_eq_ok_iff] at h
  induction ds generalizing entries with
  | nil =>
      cases h
      exact .nil
  | cons d rest ih =>
      cases d with
      | classNamed pair => exact ih h
      | field owner source target => exact ih h
      | method owner source descriptor target =>
          obtain ⟨entry, others, hentry, hothers, rfl⟩ := List.forall₂_cons_left_iff.mp h
          -- the entry is there only if the descriptor could be renamed
          refine .cons ?_ (ih hothers)
          rw [id_eq] at hentry
          cases hrenamed : Descriptor.rename classes.rename descriptor with
          | error fault =>
              rw [hrenamed] at hentry
              cases hentry
          | ok renamed =>
              rw [hrenamed] at hentry
              cases hentry
              exact ⟨rfl, by rw [value, hrenamed]; rfl⟩

/-- A declaration after which its name is not declared again. -/
def Last (ds : List Declaration) (d : Declaration) : Prop :=
  ∃ before after, ds = before ++ d :: after ∧
    ∀ later ∈ after, later.kind = d.kind → later.key ≠ d.key

theorem Last.mem {ds : List Declaration} {d : Declaration} (h : Last ds d) : d ∈ ds := by
  obtain ⟨before, after, rfl, -⟩ := h
  simp

/-- Whatever is declared is declared for the last time somewhere. -/
theorem exists_last {ds : List Declaration} {d : Declaration} (h : d ∈ ds) :
    ∃ last, Last ds last ∧ last.kind = d.kind ∧ last.key = d.key := by
  induction ds generalizing d with
  | nil => cases h
  | cons a rest ih =>
      by_cases hagain : ∃ later ∈ rest, later.kind = d.kind ∧ later.key = d.key
      · obtain ⟨later, hlater, hkind, hkey⟩ := hagain
        obtain ⟨last, ⟨before, after, hrest, hafter⟩, hkind', hkey'⟩ := ih hlater
        exact ⟨last, ⟨a :: before, after, by rw [hrest]; rfl, hafter⟩, hkind'.trans hkind,
          hkey'.trans hkey⟩
      · have hnone : ∀ later ∈ rest, later.kind = d.kind → later.key ≠ d.key :=
          fun later hlater hkind hkey => hagain ⟨later, hlater, hkind, hkey⟩
        rcases List.mem_cons.mp h with rfl | hd
        · exact ⟨d, ⟨[], rest, rfl, hnone⟩, rfl, rfl⟩
        · exact absurd rfl (hnone d hd rfl)

/-- A name has one last declaration. -/
theorem Last.unique {ds : List Declaration} {d d' : Declaration} (h : Last ds d) (h' : Last ds d')
    (hkind : d.kind = d'.kind) (hkey : d.key = d'.key) : d = d' := by
  obtain ⟨before, after, hds, hafter⟩ := h
  obtain ⟨before', after', hds', hafter'⟩ := h'
  -- if one of them stood before the other, it would not be the last
  rcases List.append_eq_append_iff.mp (hds.symm.trans hds') with
    ⟨between, -, hrest⟩ | ⟨between, -, hrest⟩
  · cases between with
    | nil => exact (List.cons.inj hrest).1
    | cons first rest =>
        obtain ⟨-, rfl⟩ := List.cons.inj hrest
        exact absurd hkey.symm (hafter d' (by simp) hkind.symm)
  · cases between with
    | nil => exact (List.cons.inj hrest).1.symm
    | cons first rest =>
        obtain ⟨-, rfl⟩ := List.cons.inj hrest
        exact absurd hkey (hafter' d (by simp) hkind)

/-- A method cannot be entered, since a class name in its descriptor is not ended. -/
inductive HasFault : Declaration → BadDescriptor → Prop
  | method {owner : ClassPair} {source descriptor target : String}
      (hopen : Descriptor.LeavesOpen descriptor) :
      HasFault (.method owner source descriptor target)
        ⟨MemberKey.method owner.source source descriptor, ⟨descriptor⟩⟩

theorem forMethods?_eq_error_iff (classes : NameTable) (d : Declaration) (e : BadDescriptor) :
    d.forMethods? classes = some (.error e) ↔ d.HasFault e := by
  cases d with
  | classNamed pair => exact ⟨nofun, nofun⟩
  | field owner source target => exact ⟨nofun, nofun⟩
  | method owner source descriptor target =>
      have hrename := Descriptor.rename_eq_error_iff classes.rename descriptor
      simp only [forMethods?, Option.some.injEq]
      constructor
      · intro h
        split at h
        · cases h
        · rename_i fault hfault
          obtain ⟨hopen, rfl⟩ := (hrename fault).mp hfault
          cases h
          exact .method hopen
      · intro h
        cases h with
        | method hopen => rw [(hrename _).mpr ⟨hopen, rfl⟩]

end Declaration

namespace Mappings

open Declaration

variable {ds : List Declaration} {m : Mappings}

/-- Only the order within each kind matters. -/
theorem ofDeclarations_congr {ds ds' : List Declaration}
    (h : ∀ kind, ofKind kind ds = ofKind kind ds') : ofDeclarations ds = ofDeclarations ds' := by
  have hclasses : ds.filterMap forClasses? = ds'.filterMap forClasses? := by
    rw [← filterMap_ofKind forClasses?_eq_none, h, filterMap_ofKind forClasses?_eq_none]
  have hfields : ds.filterMap forFields? = ds'.filterMap forFields? := by
    rw [← filterMap_ofKind forFields?_eq_none, h, filterMap_ofKind forFields?_eq_none]
  have hmethods (classes : NameTable) :
      ds.filterMap (forMethods? classes) = ds'.filterMap (forMethods? classes) := by
    rw [← filterMap_ofKind (forMethods?_eq_none classes), h,
      filterMap_ofKind (forMethods?_eq_none classes)]
  rw [ofDeclarations, ofDeclarations, hclasses, hfields, hmethods]

/-- Declarations are refused exactly for the first descriptor that cannot be read. -/
theorem ofDeclarations_eq_error_iff (ds : List Declaration) (e : BadDescriptor) :
    ofDeclarations ds = .error e ↔ ∃ before d after, ds = before ++ d :: after ∧
      (∀ b ∈ before, ∀ e', ¬ b.HasFault e') ∧ d.HasFault e := by
  simp only [ofDeclarations, Traversal.bind_eq_error_iff, pure, Except.pure, reduceCtorEq,
    and_false, exists_false, or_false, Traversal.mapM_filterMap_eq_error_iff, ne_eq,
    forMethods?_eq_error_iff]

theorem not_hasFault_of_ofDeclarations (h : ofDeclarations ds = .ok m) {d : Declaration}
    (hd : d ∈ ds) (e : BadDescriptor) : ¬ d.HasFault e := by
  intro hfault
  obtain ⟨entries, hentries, -⟩ := (Traversal.bind_eq_ok_iff _ _ _).mp h
  have hread := (Traversal.exists_mapM_iff _ _).mp ⟨entries, hentries⟩ (.error e)
  obtain ⟨entry, hentry⟩ := hread
    (List.mem_filterMap.mpr ⟨d, hd, (forMethods?_eq_error_iff _ d e).mpr hfault⟩)
  cases hentry

/-- The tables of classes and fields are made of their own declarations. Those of methods are made
where the classes are known. -/
theorem tables_eq_ofPairs (h : ofDeclarations ds = .ok m) :
    m.classes = .ofPairs (ds.filterMap forClasses?) ∧
      m.fields = .ofPairs (ds.filterMap forFields?) ∧
      ∃ entries, (ds.filterMap (forMethods? m.classes)).mapM id = .ok entries ∧
        m.methods = .ofPairs entries := by
  obtain ⟨entries, hentries, hm⟩ := (Traversal.bind_eq_ok_iff _ _ _).mp h
  cases hm
  exact ⟨rfl, rfl, entries, hentries, rfl⟩

/-- Each table is built from one entry for each declaration of its kind. -/
theorem exists_entries (h : ofDeclarations ds = .ok m) (kind : SymbolKind) :
    ∃ entries, List.Forall₂ (Makes m.classes) (ofKind kind ds) entries ∧
      m.table kind = .ofPairs entries := by
  obtain ⟨hclasses, hfields, entries, hentries, hmethods⟩ := tables_eq_ofPairs h
  cases kind with
  | classes => exact ⟨_, forall₂_forClasses? _ ds, hclasses⟩
  | fields => exact ⟨_, forall₂_forFields? _ ds, hfields⟩
  | methods => exact ⟨entries, forall₂_forMethods? hentries, hmethods⟩

theorem map_key_of_makes {classes : NameTable} {entries : List (String × String)}
    (h : List.Forall₂ (Makes classes) ds entries) : entries.map Prod.fst = ds.map key := by
  induction h with
  | nil => rfl
  | cons hde _ ih => rw [List.map_cons, List.map_cons, hde.1, ih]

theorem map_value_of_makes {classes : NameTable} {entries : List (String × String)}
    (h : List.Forall₂ (Makes classes) ds entries) :
    ds.map (value classes) = entries.map (Except.ok ∘ Prod.snd) := by
  induction h with
  | nil => rfl
  | cons hde _ ih => rw [List.map_cons, List.map_cons, hde.2, ih, Function.comp_apply]

/-- Where no key is declared twice, the table of a kind holds what is declared. -/
theorem get?_table_iff (h : ofDeclarations ds = .ok m) (kind : SymbolKind)
    (hkeys : ((ofKind kind ds).map key).Nodup) (k v : String) :
    (m.table kind).get? k = some v ↔
      ∃ d ∈ ds, d.kind = kind ∧ d.key = k ∧ d.value m.classes = .ok v := by
  obtain ⟨entries, hentries, htable⟩ := exists_entries h kind
  rw [htable, OrderedMap.get?_ofPairs_iff_mem (by rwa [map_key_of_makes hentries])]
  constructor
  · intro hmem
    obtain ⟨d, hd, hmakes⟩ := Traversal.exists_of_mem_right hentries hmem
    obtain ⟨hd, hkind⟩ := (mem_ofKind kind ds d).mp hd
    exact ⟨d, hd, hkind, hmakes⟩
  · intro hparts
    obtain ⟨d, hd, hkind, hkey, hvalue⟩ := hparts
    obtain ⟨⟨k', v'⟩, hmem, hkey', hvalue'⟩ :=
      Traversal.exists_of_mem_left hentries ((mem_ofKind kind ds d).mpr ⟨hd, hkind⟩)
    rw [hvalue] at hvalue'
    cases hvalue'
    rw [← hkey, hkey']
    exact hmem

/-- The counterparts in a table are distinct, if those that are declared are. -/
theorem nodup_values_table (h : ofDeclarations ds = .ok m) (kind : SymbolKind)
    (hkeys : ((ofKind kind ds).map key).Nodup)
    (hvalues : ((ofKind kind ds).map (value m.classes)).Nodup) :
    (m.table kind).values.Nodup := by
  obtain ⟨entries, hentries, htable⟩ := exists_entries h kind
  have hmap : (ofKind kind ds).map (value m.classes) = (entries.map Prod.snd).map Except.ok := by
    rw [List.map_map]
    exact map_value_of_makes hentries
  rw [hmap] at hvalues
  rw [htable, OrderedMap.values,
    OrderedMap.entries_ofPairs (by rwa [map_key_of_makes hentries])]
  exact hvalues.of_map

/-- Whatever is declared has an entry. -/
theorem exists_get?_of_mem (h : ofDeclarations ds = .ok m) {d : Declaration} (hd : d ∈ ds) :
    ∃ v, (m.table d.kind).get? d.key = some v := by
  obtain ⟨entries, hentries, htable⟩ := exists_entries h d.kind
  have hkey : d.key ∈ entries.map Prod.fst := by
    rw [map_key_of_makes hentries]
    exact List.mem_map_of_mem ((mem_ofKind d.kind ds d).mpr ⟨hd, rfl⟩)
  rw [← OrderedMap.mem_keys_iff, htable, OrderedMap.keys_ofPairs, List.mem_eraseDups]
  exact hkey

/-- The names in a table stand in the order in which they are first declared. -/
theorem keys_table (h : ofDeclarations ds = .ok m) (kind : SymbolKind) :
    (m.table kind).keys = ((ofKind kind ds).map key).eraseDups := by
  obtain ⟨entries, hentries, htable⟩ := exists_entries h kind
  rw [htable, OrderedMap.keys_ofPairs, map_key_of_makes hentries]

/-- The last declaration of a name gives it its counterpart. -/
theorem get?_table_of_last (h : ofDeclarations ds = .ok m) {d : Declaration} (hlast : Last ds d) :
    ∃ v, d.value m.classes = .ok v ∧ (m.table d.kind).get? d.key = some v := by
  obtain ⟨before, after, rfl, hafter⟩ := hlast
  obtain ⟨entries, hentries, htable⟩ := exists_entries h d.kind
  have hsplit : ofKind d.kind (before ++ d :: after)
      = ofKind d.kind before ++ d :: ofKind d.kind after := by
    rw [ofKind_append]
    simp [ofKind]
  rw [hsplit] at hentries
  obtain ⟨earlier, rest, -, hrest, rfl⟩ := Traversal.forall₂_append_left_iff.mp hentries
  obtain ⟨⟨k, v⟩, later, ⟨hkey, hvalue⟩, hlater, rfl⟩ := List.forall₂_cons_left_iff.mp hrest
  refine ⟨v, hvalue, ?_⟩
  rw [htable, OrderedMap.get?_ofPairs_eq_some_iff]
  refine ⟨earlier, later, by rw [hkey], ?_⟩
  rw [map_key_of_makes hlater, List.mem_map]
  rintro ⟨d', hd', hsame⟩
  obtain ⟨hmem, hkind⟩ := (mem_ofKind d.kind after d').mp hd'
  exact hafter d' hmem hkind hsame

/-- A table holds what is declared last under each name. -/
theorem get?_table_iff_last (h : ofDeclarations ds = .ok m) (kind : SymbolKind) (k v : String) :
    (m.table kind).get? k = some v ↔
      ∃ d, Last ds d ∧ d.kind = kind ∧ d.key = k ∧ d.value m.classes = .ok v := by
  constructor
  · intro hget
    have hk : k ∈ (m.table kind).keys := (OrderedMap.mem_keys_iff _ k).mpr ⟨v, hget⟩
    rw [keys_table h, List.mem_eraseDups, List.mem_map] at hk
    obtain ⟨d, hd, rfl⟩ := hk
    obtain ⟨hmem, rfl⟩ := (mem_ofKind kind ds d).mp hd
    obtain ⟨last, hlast, hkind, hkey⟩ := exists_last hmem
    obtain ⟨v', hv', hget'⟩ := get?_table_of_last h hlast
    rw [hkind, hkey, hget, Option.some.injEq] at hget'
    exact ⟨last, hlast, hkind, hkey, hget' ▸ hv'⟩
  · rintro ⟨d, hlast, rfl, rfl, hvalue⟩
    obtain ⟨v', hv', hget⟩ := get?_table_of_last h hlast
    rw [hget, Except.ok.inj (hvalue.symm.trans hv')]

/-- Whatever a table holds is declared. -/
theorem exists_declaration (h : ofDeclarations ds = .ok m) (kind : SymbolKind) {k v : String}
    (hget : (m.table kind).get? k = some v) :
    ∃ d ∈ ds, d.kind = kind ∧ d.key = k ∧ d.value m.classes = .ok v := by
  obtain ⟨d, hlast, hd⟩ := (get?_table_iff_last h kind k v).mp hget
  exact ⟨d, hlast.mem, hd⟩

/-- What the table of classes holds comes from the declaration of a class. -/
theorem mem_of_get?_class (h : ofDeclarations ds = .ok m) {k v : String}
    (hget : m.classes.get? k = some v) : Declaration.classNamed ⟨k, v⟩ ∈ ds := by
  obtain ⟨d, hd, hkind, hkey, hvalue⟩ := exists_declaration h .classes hget
  cases d with
  | field owner name target => cases hkind
  | method owner source descriptor target => cases hkind
  | classNamed pair =>
      cases hkey
      cases hvalue
      exact hd

/-- What the table of fields holds comes from the declaration of a field. -/
theorem exists_field (h : ofDeclarations ds = .ok m) {k v : String}
    (hget : m.fields.get? k = some v) :
    ∃ owner name target, Declaration.field owner name target ∈ ds ∧
      k = MemberKey.field owner.source name ∧ v = MemberKey.field owner.target target := by
  obtain ⟨d, hd, hkind, hkey, hvalue⟩ := exists_declaration h .fields hget
  cases d with
  | classNamed pair => cases hkind
  | method owner source descriptor target => cases hkind
  | field owner name target =>
      exact ⟨owner, name, target, hd, hkey.symm, (Except.ok.inj hvalue).symm⟩

/-- What the table of methods holds comes from the declaration of a method. -/
theorem exists_method (h : ofDeclarations ds = .ok m) {k v : String}
    (hget : m.methods.get? k = some v) :
    ∃ owner name descriptor target renamed, Declaration.method owner name descriptor target ∈ ds ∧
      Descriptor.rename m.classes.rename descriptor = .ok renamed ∧
      k = MemberKey.method owner.source name descriptor ∧
      v = MemberKey.method owner.target target renamed := by
  obtain ⟨d, hd, hkind, hkey, hvalue⟩ := exists_declaration h .methods hget
  cases d with
  | classNamed pair => cases hkind
  | field owner name target => cases hkind
  | method owner name descriptor target =>
      obtain ⟨renamed, hrenamed, hv⟩ := (Traversal.map_eq_ok_iff _ _ _).mp hvalue
      exact ⟨owner, name, descriptor, target, renamed, hd, hrenamed, hkey.symm, hv.symm⟩

end Mappings

/-! ## Declarations in another order -/

namespace Declaration

variable {ds ds' : List Declaration}

/-- No name is declared twice. -/
def Distinct (ds : List Declaration) : Prop := ∀ kind, ((ofKind kind ds).map key).Nodup

theorem Distinct.of_perm (h : Distinct ds) (hperm : ds.Perm ds') : Distinct ds' := by
  intro kind
  have hkeys : ((ofKind kind ds).map key).Perm ((ofKind kind ds').map key) :=
    (hperm.filter _).map key
  exact hkeys.nodup_iff.mp (h kind)

/-- The counterpart of a class does not depend on other classes. -/
theorem value_of_kind_classes {d : Declaration} (h : d.kind = .classes)
    (classes classes' : NameTable) : d.value classes = d.value classes' := by
  cases d with
  | classNamed pair => rfl
  | field owner source target => cases h
  | method owner source descriptor target => cases h

theorem value_of_agrees {classes classes' : NameTable} (h : classes.Agrees classes') :
    value classes = value classes' := by
  funext d
  cases d with
  | classNamed pair => rfl
  | field owner source target => rfl
  | method owner source descriptor target => rw [value, value, NameTable.rename_of_agrees h]

end Declaration

namespace Mappings

open Declaration

variable {ds ds' : List Declaration} {m m' : Mappings}

/-- Declarations make tables exactly if no descriptor is bad. -/
theorem exists_ofDeclarations_iff (ds : List Declaration) :
    (∃ m, ofDeclarations ds = .ok m) ↔ ∀ d ∈ ds, ∀ e, ¬ d.HasFault e := by
  constructor
  · intro h d hd
    obtain ⟨m, hm⟩ := h
    exact not_hasFault_of_ofDeclarations hm hd
  · intro h
    cases hresult : ofDeclarations ds with
    | ok m => exact ⟨m, rfl⟩
    | error e =>
        obtain ⟨before, d, after, rfl, -, hfault⟩ := (ofDeclarations_eq_error_iff ds e).mp hresult
        exact absurd hfault (h d (by simp) e)

theorem exists_ofDeclarations_of_perm (hperm : ds.Perm ds') (h : ofDeclarations ds = .ok m) :
    ∃ m', ofDeclarations ds' = .ok m' := by
  refine (exists_ofDeclarations_iff ds').mpr fun d hd => ?_
  exact not_hasFault_of_ofDeclarations h (hperm.mem_iff.mpr hd)

theorem agrees_table_of_perm (hperm : ds.Perm ds') (hdistinct : Distinct ds)
    (h : ofDeclarations ds = .ok m) (h' : ofDeclarations ds' = .ok m') {kind : SymbolKind}
    (hvalue : ∀ d : Declaration, d.kind = kind → d.value m.classes = d.value m'.classes) :
    (m.table kind).Agrees (m'.table kind) := by
  intro k
  refine Option.ext fun v => ?_
  rw [get?_table_iff h kind (hdistinct kind),
    get?_table_iff h' kind (hdistinct.of_perm hperm kind)]
  refine exists_congr fun d => ?_
  rw [hperm.mem_iff]
  refine and_congr_right fun _ => and_congr_right fun hkind => ?_
  rw [hvalue d hkind]

/-- The order of declarations is not seen in the entries of the tables. -/
theorem agrees_of_perm (hperm : ds.Perm ds') (hdistinct : Distinct ds)
    (h : ofDeclarations ds = .ok m) (h' : ofDeclarations ds' = .ok m') : m.agrees m' = true := by
  -- the classes come first, since the descriptors of methods are renamed by them
  have hclasses : m.classes.Agrees m'.classes :=
    agrees_table_of_perm hperm hdistinct h h' fun d hkind => value_of_kind_classes hkind _ _
  rw [agrees_iff]
  intro kind
  exact agrees_table_of_perm hperm hdistinct h h' fun d _ => congrFun (value_of_agrees hclasses) d

/-- Two files are both refused, for whatever reasons, or are both read into the same entries. -/
inductive SameOutcome {ε : Type} : Except ε Mappings → Except ε Mappings → Prop
  | refused {e e' : ε} : SameOutcome (.error e) (.error e')
  | accepted {m m' : Mappings} (hagrees : m.agrees m' = true) : SameOutcome (.ok m) (.ok m')

/-- Files have the same outcome if they declare the same names in whatever order. -/
theorem sameOutcome_of_perm {ε : Type} {result result' : Except ε Mappings}
    {Declares Declares' : List Declaration → Prop}
    (hresult : ∀ m, result = .ok m ↔ ∃ ds, Declares ds ∧ ofDeclarations ds = .ok m)
    (hresult' : ∀ m, result' = .ok m ↔ ∃ ds, Declares' ds ∧ ofDeclarations ds = .ok m)
    (hthere : ∀ ds, Declares ds → ∃ ds', Declares' ds' ∧ ds.Perm ds')
    (hback : ∀ ds', Declares' ds' → ∃ ds, Declares ds ∧ ds.Perm ds')
    (hdistinct : ∀ ds, Declares ds → Distinct ds) : SameOutcome result result' := by
  cases result with
  | ok m =>
      obtain ⟨ds, hds, hm⟩ := (hresult m).mp rfl
      obtain ⟨ds', hds', hperm⟩ := hthere ds hds
      obtain ⟨m', hm'⟩ := exists_ofDeclarations_of_perm hperm hm
      rw [(hresult' m').mpr ⟨ds', hds', hm'⟩]
      exact .accepted (agrees_of_perm hperm (hdistinct ds hds) hm hm')
  | error e =>
      cases result' with
      | error e' => exact .refused
      | ok m' =>
          obtain ⟨ds', hds', hm'⟩ := (hresult' m').mp rfl
          obtain ⟨ds, hds, hperm⟩ := hback ds' hds'
          obtain ⟨m, hm⟩ := exists_ofDeclarations_of_perm hperm.symm hm'
          have hok : (.error e : Except ε Mappings) = .ok m := (hresult m).mpr ⟨ds, hds, hm⟩
          cases hok

end Mappings

end Namebridge
