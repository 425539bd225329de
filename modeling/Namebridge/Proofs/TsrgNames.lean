import Namebridge.Proofs.TsrgVerdict

/-!
# What readable names change

Readable names are put in for the names that a file gives to members. They decide neither what is
read nor under which names: `read_renamesMembers` compares a reading under readable names with one
under none. Both fail alike, or both come to the same classes and to members under the same keys,
where the counterpart from the last line for a key is renamed.
-/

namespace Namebridge.Tsrg

/-! ## Readings with and without readable names -/

/-- Tables that differ in the names of members only. What counts is the last declaration of each of
them. -/
structure MembersRenamed (names : MemberNames) (ds : List Declaration) (plain named : Mappings) :
    Prop where
  classes : named.classes = plain.classes
  field_keys : named.fields.keys = plain.fields.keys
  method_keys : named.methods.keys = plain.methods.keys
  fields : ∀ k ∈ plain.fields.keys, ∃ owner source target,
    Declaration.Last ds (.field owner source target) ∧ MemberKey.field owner.source source = k ∧
      plain.fields.get? k = some (MemberKey.field owner.target target) ∧
      named.fields.get? k = some (MemberKey.field owner.target (names.fields.rename target))
  methods : ∀ k ∈ plain.methods.keys, ∃ owner source descriptor target renamed,
    Declaration.Last ds (.method owner source descriptor target) ∧
      MemberKey.method owner.source source descriptor = k ∧
      Descriptor.rename plain.classes.rename descriptor = .ok renamed ∧
      plain.methods.get? k = some (MemberKey.method owner.target target renamed) ∧
      named.methods.get? k
        = some (MemberKey.method owner.target (names.methods.rename target) renamed)

/-- The outcome without readable names, and the outcome with them. -/
inductive RenamesMembers (names : MemberNames) (lines : List Line) :
    Except Error Mappings → Except Error Mappings → Prop
  | refused {e : Error} : RenamesMembers names lines (.error e) (.error e)
  | accepted {ds : List Declaration} {plain named : Mappings} (hspells : Spells none lines ds)
      (hrenamed : MembersRenamed names ds plain named) :
      RenamesMembers names lines (.ok plain) (.ok named)

/-! ## Lines -/

/-- Readable names are put into what is declared without them, and no line is read or refused
because of them. -/
theorem declarations_eq_map (names : MemberNames) (lines : List Line) :
    declarations names lines = (declarations {} lines).map (List.map names.readable) := by
  cases hplain : declarations {} lines with
  | ok ds => exact (declarations_eq_ok_iff names lines _).mpr ⟨ds, (spells_iff _ _).mpr hplain, rfl⟩
  | error e =>
      have hrun := (Traversal.map_eq_error_iff _ _ e).mp hplain
      obtain ⟨above, line, below, declared, rfl, habove, hoffends⟩ := exists_offends hrun
      have hsound := (sound_iff {} above).mpr ⟨_, habove⟩
      obtain ⟨declared', habove'⟩ := (sound_iff names above).mp hsound
      exact (Traversal.map_eq_error_iff _ _ e).mpr
        (foldlM_readLine_append habove' line below e hoffends)

/-! ## Tables -/

variable {names names' : MemberNames} {ds : List Declaration} {plain named : Mappings}

theorem filterMap_forClasses?_readable (names : MemberNames) (ds : List Declaration) :
    (ds.map names.readable).filterMap Declaration.forClasses?
      = ds.filterMap Declaration.forClasses? := by
  rw [List.filterMap_map]
  refine List.filterMap_congr fun d _ => ?_
  cases d <;> rfl

/-- Fields are made of their own readable names only. -/
theorem filterMap_forFields?_readable (h : names'.fields = names.fields) (ds : List Declaration) :
    (ds.map names'.readable).filterMap Declaration.forFields?
      = (ds.map names.readable).filterMap Declaration.forFields? := by
  rw [List.filterMap_map, List.filterMap_map]
  refine List.filterMap_congr fun d _ => ?_
  cases d with
  | field owner source target =>
      simp only [Function.comp_apply, MemberNames.readable, h]
  | _ => rfl

/-- Methods are made of their own readable names only. -/
theorem filterMap_forMethods?_readable (h : names'.methods = names.methods) (classes : NameTable)
    (ds : List Declaration) :
    (ds.map names'.readable).filterMap (Declaration.forMethods? classes)
      = (ds.map names.readable).filterMap (Declaration.forMethods? classes) := by
  rw [List.filterMap_map, List.filterMap_map]
  refine List.filterMap_congr fun d _ => ?_
  cases d with
  | method owner source descriptor target =>
      simp only [Function.comp_apply, MemberNames.readable, h]
  | _ => rfl

/-- Readable names keep the last declaration of each name in its place. -/
theorem last_readable_iff (names : MemberNames) (ds : List Declaration) (d' : Declaration) :
    Declaration.Last (ds.map names.readable) d' ↔
      ∃ d, Declaration.Last ds d ∧ names.readable d = d' := by
  constructor
  · rintro ⟨_, _, hds, hafter⟩
    obtain ⟨before, rest, rfl, rfl, hrest⟩ := List.map_eq_append_iff.mp hds
    obtain ⟨d, after, rfl, rfl, rfl⟩ := List.map_eq_cons_iff.mp hrest
    exact ⟨d, ⟨before, after, rfl, by simpa using hafter⟩, rfl⟩
  · rintro ⟨d, ⟨before, after, rfl, hafter⟩, rfl⟩
    exact ⟨before.map names.readable, after.map names.readable, by simp, by simpa using hafter⟩

/-- A field has the counterpart of its last declaration, under the readable name. -/
theorem get?_fields_iff (hnamed : Mappings.ofDeclarations (ds.map names.readable) = .ok named)
    (k v : String) : named.fields.get? k = some v ↔ ∃ owner source target,
      Declaration.Last ds (.field owner source target) ∧ MemberKey.field owner.source source = k ∧
        MemberKey.field owner.target (names.fields.rename target) = v := by
  have htable := Mappings.get?_table_iff_last hnamed .fields k v
  simp only [last_readable_iff] at htable
  refine htable.trans ⟨?_, ?_⟩
  · rintro ⟨_, ⟨d, hlast, rfl⟩, hkind, rfl, hvalue⟩
    cases d with
    | classNamed pair => cases hkind
    | method owner source descriptor target => cases hkind
    | field owner source target =>
        exact ⟨owner, source, target, hlast, rfl, Except.ok.inj hvalue⟩
  · rintro ⟨owner, source, target, hlast, rfl, rfl⟩
    exact ⟨_, ⟨_, hlast, rfl⟩, rfl, rfl, rfl⟩

/-- A method has the counterpart of its last declaration, under the readable name and with renamed
classes in its descriptor. -/
theorem get?_methods_iff (hnamed : Mappings.ofDeclarations (ds.map names.readable) = .ok named)
    (k v : String) : named.methods.get? k = some v ↔ ∃ owner source descriptor target renamed,
      Declaration.Last ds (.method owner source descriptor target) ∧
        MemberKey.method owner.source source descriptor = k ∧
        Descriptor.rename named.classes.rename descriptor = .ok renamed ∧
        MemberKey.method owner.target (names.methods.rename target) renamed = v := by
  have htable := Mappings.get?_table_iff_last hnamed .methods k v
  simp only [last_readable_iff] at htable
  refine htable.trans ⟨?_, ?_⟩
  · rintro ⟨_, ⟨d, hlast, rfl⟩, hkind, rfl, hvalue⟩
    cases d with
    | classNamed pair => cases hkind
    | field owner source target => cases hkind
    | method owner source descriptor target =>
        obtain ⟨renamed, hrenamed, hv⟩ := (Traversal.map_eq_ok_iff _ _ _).mp hvalue
        exact ⟨owner, source, descriptor, target, renamed, hlast, rfl, hrenamed, hv⟩
  · rintro ⟨owner, source, descriptor, target, renamed, hlast, rfl, hrenamed, rfl⟩
    refine ⟨_, ⟨_, hlast, rfl⟩, rfl, rfl, ?_⟩
    exact (Traversal.map_eq_ok_iff _ _ _).mpr ⟨renamed, hrenamed, rfl⟩

/-- What is made of the same declarations with and without readable names. -/
theorem membersRenamed
    (hplain : Mappings.ofDeclarations (ds.map (MemberNames.readable {})) = .ok plain)
    (hnamed : Mappings.ofDeclarations (ds.map names.readable) = .ok named) :
    MembersRenamed names ds plain named := by
  have hclasses : named.classes = plain.classes := by
    rw [(Mappings.tables_eq_ofPairs hnamed).1, (Mappings.tables_eq_ofPairs hplain).1,
      filterMap_forClasses?_readable, filterMap_forClasses?_readable]
  have hkeys (kind : SymbolKind) : (named.table kind).keys = (plain.table kind).keys := by
    rw [Mappings.keys_table hnamed, Mappings.keys_table hplain, map_key_readable, map_key_readable]
  refine ⟨hclasses, hkeys .fields, hkeys .methods, fun k hk => ?field, fun k hk => ?method⟩
  case field =>
    obtain ⟨v, hv⟩ := (OrderedMap.mem_keys_iff _ k).mp hk
    obtain ⟨owner, source, target, hlast, rfl, rfl⟩ := (get?_fields_iff hplain k v).mp hv
    exact ⟨owner, source, target, hlast, rfl, hv,
      (get?_fields_iff hnamed _ _).mpr ⟨owner, source, target, hlast, rfl, rfl⟩⟩
  case method =>
    obtain ⟨v, hv⟩ := (OrderedMap.mem_keys_iff _ k).mp hk
    obtain ⟨owner, source, descriptor, target, renamed, hlast, rfl, hrenamed, rfl⟩ :=
      (get?_methods_iff hplain k v).mp hv
    refine ⟨owner, source, descriptor, target, renamed, hlast, rfl, hrenamed, hv, ?_⟩
    rw [← hclasses] at hrenamed
    exact (get?_methods_iff hnamed _ _).mpr
      ⟨owner, source, descriptor, target, renamed, hlast, rfl, hrenamed, rfl⟩

theorem fields_eq {m m' : Mappings}
    (hm' : Mappings.ofDeclarations (ds.map names'.readable) = .ok m')
    (hm : Mappings.ofDeclarations (ds.map names.readable) = .ok m)
    (h : names'.fields = names.fields) : m'.fields = m.fields := by
  obtain ⟨-, hfields, -⟩ := Mappings.tables_eq_ofPairs hm
  obtain ⟨-, hfields', -⟩ := Mappings.tables_eq_ofPairs hm'
  rw [hfields, hfields', filterMap_forFields?_readable h]

theorem methods_eq {m m' : Mappings}
    (hm' : Mappings.ofDeclarations (ds.map names'.readable) = .ok m')
    (hm : Mappings.ofDeclarations (ds.map names.readable) = .ok m)
    (h : names'.methods = names.methods) : m'.methods = m.methods := by
  obtain ⟨hclasses, -, entries, hentries, hmethods⟩ := Mappings.tables_eq_ofPairs hm
  obtain ⟨hclasses', -, entries', hentries', hmethods'⟩ := Mappings.tables_eq_ofPairs hm'
  rw [filterMap_forClasses?_readable] at hclasses hclasses'
  rw [filterMap_forMethods?_readable h, hclasses', ← hclasses, hentries] at hentries'
  rw [hmethods, hmethods', Except.ok.inj hentries']

/-- A file is refused with one error, or it is read, whatever readable names there are. -/
theorem refused_or_accepted (lines : List Line) :
    (∃ e, ∀ names, ofLines names lines = .error e) ∨
      ∃ ds, Spells none lines ds ∧ ∀ names : MemberNames, ∃ m, ofLines names lines = .ok m ∧
        Mappings.ofDeclarations (ds.map names.readable) = .ok m := by
  cases hdeclared : declarations {} lines with
  | error e =>
      refine .inl ⟨e, fun names => ?_⟩
      rw [ofLines, declarations_eq_map, hdeclared]
      rfl
  | ok ds =>
      have hspells := (spells_iff lines ds).mpr hdeclared
      by_cases hbad : ∃ e, Mappings.ofDeclarations (ds.map (MemberNames.readable {})) = .error e
      · obtain ⟨e, hbad⟩ := hbad
        refine .inl ⟨.badDescriptor e, fun names => ?_⟩
        rw [ofDeclarations_readable_eq_error_iff] at hbad
        rw [hspells.ofLines_eq, (ofDeclarations_readable_eq_error_iff names ds e).mpr hbad]
        rfl
      · refine .inr ⟨ds, hspells, fun names => ?_⟩
        cases hresult : Mappings.ofDeclarations (ds.map names.readable) with
        | ok m => exact ⟨m, by rw [hspells.ofLines_eq, hresult]; rfl, rfl⟩
        | error e =>
            rw [ofDeclarations_readable_eq_error_iff] at hresult
            exact absurd ⟨e, (ofDeclarations_readable_eq_error_iff _ ds e).mpr hresult⟩ hbad

/-! ## Files -/

/-- **Readable names only rename counterparts**: a file that is refused without readable names is
refused with the same error under any. A file that is read has the same classes under readable
names, and members under the same keys in the same order, with the same owners and descriptors in
their counterparts. The name in a counterpart is the readable one for that of the last line for the
key. The names of fields do not matter to methods, nor those of methods to fields. -/
theorem read_renamesMembers (names : MemberNames) (file : Bytes) :
    RenamesMembers names (Line.ofBytes file) (read {} file) (read names file) ∧
      (∀ methods, (read { names with methods := methods } file).map Mappings.fields
        = (read names file).map Mappings.fields) ∧
      ∀ fields, (read { names with fields := fields } file).map Mappings.methods
        = (read names file).map Mappings.methods := by
  simp only [read]
  rcases refused_or_accepted (Line.ofBytes file) with ⟨e, hrefused⟩ | ⟨ds, hspells, haccepted⟩
  · rw [hrefused {}, hrefused names]
    exact ⟨.refused, fun methods => by rw [hrefused], fun fields => by rw [hrefused]⟩
  · obtain ⟨plain, hread, hplain⟩ := haccepted {}
    obtain ⟨named, hread', hnamed⟩ := haccepted names
    rw [hread, hread']
    refine ⟨.accepted hspells (membersRenamed hplain hnamed), fun methods => ?fields,
      fun fields => ?methods⟩
    case fields =>
      obtain ⟨other, hread'', hother⟩ := haccepted { names with methods := methods }
      rw [hread'']
      exact congrArg Except.ok (fields_eq hother hnamed rfl)
    case methods =>
      obtain ⟨other, hread'', hother⟩ := haccepted { names with fields := fields }
      rw [hread'']
      exact congrArg Except.ok (methods_eq hother hnamed rfl)

/-- Of the two lines for `f` the last one counts, and its readable name is not renamed again. -/
example : (read { fields := .ofPairs [("x", "y"), ("y", "z")] }
    (Utf8.encode "a A\n\tf y\n\tg y\n\tf x\n")).map (fun m => m.fields.entries)
      = .ok [("a:f", "A:y"), ("a:g", "A:z")] := by decide

end Namebridge.Tsrg
