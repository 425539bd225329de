import Mathlib.Data.List.Nodup
import Mathlib.Data.List.Perm.Subperm
import Namebridge.Mappings
import Namebridge.Proofs.OrderedMap

/-!
# Tables turned around and chained

Two names of one scheme can have the same counterpart. Turned around, the table keeps the last of
them: `LastKey` is the relation, and `get?_inverse_eq_some_iff` says that `inverse` decides it.
Where the counterparts are distinct it is the look-up itself (`lastKey_iff_get?`).

A chain looks each counterpart up, or renames it (`chain_drop_eq`, `chain_keep_eq`).
-/

namespace Namebridge.NameTable

open OrderedMap

theorem mem_values_iff (t : NameTable) (value : String) :
    value ∈ t.values ↔ ∃ key, t.get? key = some value := by
  simp only [values, List.mem_map, ← mem_entries_iff]
  constructor
  · intro h
    obtain ⟨⟨key, v⟩, hmem, rfl⟩ := h
    exact ⟨key, hmem⟩
  · intro h
    obtain ⟨key, hmem⟩ := h
    exact ⟨(key, value), hmem, rfl⟩

/-! ## The last key of a value -/

/-- Of all entries with this value the last one has this key. -/
def LastKey (t : NameTable) (value key : String) : Prop :=
  ∃ before after, t.entries = before ++ (key, value) :: after ∧ value ∉ after.map Prod.snd

theorem LastKey.get? {t : NameTable} {value key : String} (h : t.LastKey value key) :
    t.get? key = some value := by
  obtain ⟨before, after, hentries, -⟩ := h
  rw [← mem_entries_iff, hentries]
  simp

theorem LastKey.mem_values {t : NameTable} {value key : String} (h : t.LastKey value key) :
    value ∈ t.values := (mem_values_iff t value).mpr ⟨key, h.get?⟩

/-- A table of distinct counterparts has but one key for each. -/
theorem lastKey_iff_get? {t : NameTable} (h : t.values.Nodup) (value key : String) :
    t.LastKey value key ↔ t.get? key = some value := by
  refine ⟨LastKey.get?, fun hget => ?_⟩
  rw [← mem_entries_iff] at hget
  obtain ⟨before, after, hentries⟩ := List.append_of_mem hget
  refine ⟨before, after, hentries, fun hmem => ?_⟩
  rw [values, hentries, List.map_append, List.map_cons] at h
  exact (List.nodup_cons.mp h.of_append_right).1 hmem

/-- The counterparts are distinct exactly if no two names share one. -/
theorem nodup_values_iff (t : NameTable) :
    t.values.Nodup ↔ ∀ a b v, t.get? a = some v → t.get? b = some v → a = b := by
  rw [values, List.nodup_map_iff_inj_on t.nodup.of_map]
  constructor
  · intro h a b v ha hb
    rw [← mem_entries_iff] at ha hb
    exact congrArg Prod.fst (h _ ha _ hb rfl)
  · rintro h ⟨a, v⟩ ha ⟨b, w⟩ hb hvw
    obtain rfl : v = w := hvw
    rw [mem_entries_iff] at ha hb
    rw [h a b v ha hb]

/-! ## Inverse -/

theorem get?_inverse_eq_some_iff (t : NameTable) (value key : String) :
    t.inverse.get? value = some key ↔ t.LastKey value key := by
  rw [inverse, get?_ofPairs_eq_some_iff]
  constructor
  · intro h
    obtain ⟨before, after, hpairs, hafter⟩ := h
    refine ⟨before.map Prod.swap, after.map Prod.swap, ?_, ?_⟩
    · have := congrArg (List.map Prod.swap) hpairs
      simpa using this
    · simpa [List.map_map, Function.comp_def] using hafter
  · intro h
    obtain ⟨before, after, hentries, hafter⟩ := h
    refine ⟨before.map Prod.swap, after.map Prod.swap, by simp [hentries], ?_⟩
    simpa [List.map_map, Function.comp_def] using hafter

theorem map_fst_swap (es : List (String × String)) :
    (es.map Prod.swap).map Prod.fst = es.map Prod.snd := by
  rw [List.map_map]
  rfl

/-- A table with further entries, turned around: these come before the others. -/
theorem get?_inverse_append {t t' : NameTable} {es : List (String × String)}
    (h : t'.entries = t.entries ++ es) (value : String) :
    t'.inverse.get? value
      = (lookup value (es.map Prod.swap).reverse).or (t.inverse.get? value) := by
  rw [inverse, inverse, get?_ofPairs, get?_ofPairs, h, List.map_append, List.reverse_append,
    lookup_append]

/-- New counterparts go to the end when the table is turned around. -/
theorem entries_inverse_append {t t' : NameTable} {es : List (String × String)}
    (h : t'.entries = t.entries ++ es) (hdistinct : (es.map Prod.snd).Nodup)
    (hnew : ∀ v ∈ es.map Prod.snd, v ∉ t.values) :
    t'.inverse.entries = t.inverse.entries ++ es.map Prod.swap := by
  rw [inverse, h, List.map_append, ofPairs, List.foldl_append]
  refine entries_foldl_insert ((map_fst_swap es).symm ▸ hdistinct) fun v hv => ?_
  rw [map_fst_swap] at hv
  show v ∉ t.inverse.keys
  rw [inverse, keys_ofPairs, List.mem_eraseDups, List.map_map]
  exact hnew v hv

/-- The counterparts become the keys, in the order in which they first occur. -/
theorem keys_inverse (t : NameTable) : t.inverse.keys = t.values.eraseDups := by
  rw [inverse, keys_ofPairs, List.map_map]
  rfl

/-- Distinct counterparts stand where their names stood. -/
theorem entries_inverse {t : NameTable} (h : t.values.Nodup) :
    t.inverse.entries = t.entries.map Prod.swap := by
  refine entries_ofPairs ?_
  rw [map_fst_swap]
  exact h

/-- A table of distinct counterparts is its own inverse's inverse, order included. -/
theorem inverse_inverse {t : NameTable} (h : t.values.Nodup) : t.inverse.inverse = t := by
  have hback : t.inverse.entries.map Prod.swap = t.entries := by
    rw [entries_inverse h, List.map_map, Prod.swap_swap_eq, List.map_id]
  refine OrderedMap.ext ?_
  rw [inverse, hback]
  exact entries_ofPairs t.nodup

/-! ## Chain -/

/-- A chain that drops what has no continuation looks each counterpart up. -/
theorem chain_drop_eq (s t : NameTable) :
    s.chain t .drop = s.filterMap fun _ middle => t.get? middle := by
  refine congrArg s.filterMap ?_
  funext _ middle
  cases t.get? middle <;> rfl

/-- A chain that keeps what has no continuation renames each counterpart. -/
theorem chain_keep_eq (s t : NameTable) :
    s.chain t .keep = s.filterMap fun _ middle => some (t.rename middle) := by
  refine congrArg s.filterMap ?_
  funext _ middle
  rw [rename]
  cases t.get? middle <;> rfl

theorem entries_chain_drop (s t : NameTable) :
    (s.chain t .drop).entries = s.entries.filterMap fun e => (t.get? e.2).map (e.1, ·) := by
  rw [chain_drop_eq]
  rfl

theorem get?_chain_drop (s t : NameTable) (name : String) :
    (s.chain t .drop).get? name = (s.get? name).bind t.get? := by
  rw [chain_drop_eq, get?_filterMap]

theorem get?_chain_keep (s t : NameTable) (name : String) :
    (s.chain t .keep).get? name = (s.get? name).map t.rename := by
  rw [chain_keep_eq, get?_filterMap, Option.map_eq_bind]
  rfl

theorem keys_chain (s t : NameTable) (unmatched : Unmatched) :
    (s.chain t unmatched).keys.Sublist s.keys := keys_filterMap s _

theorem keys_chain_keep (s t : NameTable) : (s.chain t .keep).keys = s.keys := by
  rw [chain_keep_eq]
  simp [keys, filterMap, Function.comp_def]

/-! ## Renaming -/

theorem rename_of_get? {t : NameTable} {name target : String} (h : t.get? name = some target) :
    t.rename name = target := by
  rw [rename, h, Option.getD_some]

theorem rename_of_get?_eq_none {t : NameTable} {name : String} (h : t.get? name = none) :
    t.rename name = name := by
  rw [rename, h, Option.getD_none]

theorem rename_of_not_mem {t : NameTable} {name : String} (h : name ∉ t.keys) :
    t.rename name = name := rename_of_get?_eq_none ((get?_eq_none_iff t name).mpr h)

/-- Tables that agree rename alike. -/
theorem rename_of_agrees {s t : NameTable} (h : s.Agrees t) : s.rename = t.rename := by
  funext name
  rw [rename, rename, h name]

theorem rename_eq_self_iff (t : NameTable) (name : String) :
    t.rename name = name ↔ name ∉ t.keys ∨ t.get? name = some name := by
  rw [← get?_eq_none_iff]
  cases h : t.get? name with
  | none => simp [rename_of_get?_eq_none h]
  | some target => simp [rename_of_get? h]

/-- What neither its counterpart nor the name has, the renamed name has not. -/
theorem not_mem_rename_of_get? {t : NameTable} {name : String} {c : Char}
    (h : ∀ target, t.get? name = some target → c ∉ target.toList) (hname : c ∉ name.toList) :
    c ∉ (t.rename name).toList := by
  cases hget : t.get? name with
  | none => rwa [rename_of_get?_eq_none hget]
  | some target =>
      rw [rename_of_get? hget]
      exact h target hget

theorem not_mem_rename {t : NameTable} {c : Char} (h : ∀ v ∈ t.values, c ∉ v.toList)
    {name : String} (hname : c ∉ name.toList) : c ∉ (t.rename name).toList := by
  refine not_mem_rename_of_get? (fun v hv => h v ?_) hname
  exact (mem_values_iff t v).mpr ⟨name, hv⟩

end Namebridge.NameTable

/-! ## The three tables of a mapping -/

namespace Namebridge

/-- What a table of a mapping names. -/
inductive SymbolKind where
  | classes
  | fields
  | methods
deriving DecidableEq, Repr

namespace Mappings

/-- The table for one kind of symbols. -/
def table (m : Mappings) : SymbolKind → NameTable
  | .classes => m.classes
  | .fields => m.fields
  | .methods => m.methods

@[simp] theorem table_inverse (m : Mappings) (kind : SymbolKind) :
    m.inverse.table kind = (m.table kind).inverse := by
  cases kind <;> rfl

@[simp] theorem table_chain (m n : Mappings) (unmatched : NameTable.Unmatched)
    (kind : SymbolKind) :
    (m.chain n unmatched).table kind = (m.table kind).chain (n.table kind) unmatched := by
  cases kind <;> rfl

/-- Mappings are equal if their tables are. -/
theorem eq_iff_tables (m n : Mappings) : m = n ↔ ∀ kind, m.table kind = n.table kind := by
  refine ⟨fun h kind => h ▸ rfl, fun h => ?_⟩
  exact Mappings.ext (h .classes) (h .fields) (h .methods)

theorem agrees_iff (m n : Mappings) :
    m.agrees n = true ↔ ∀ kind, (m.table kind).Agrees (n.table kind) := by
  rw [agrees, Bool.and_eq_true, Bool.and_eq_true, OrderedMap.agrees_iff, OrderedMap.agrees_iff,
    OrderedMap.agrees_iff]
  constructor
  · rintro ⟨⟨hclasses, hfields⟩, hmethods⟩ kind
    cases kind with
    | classes => exact hclasses
    | fields => exact hfields
    | methods => exact hmethods
  · intro h
    exact ⟨⟨h .classes, h .fields⟩, h .methods⟩

/-- No two names of one table have the same counterpart. -/
def OneToOne (m : Mappings) : Prop := ∀ kind, (m.table kind).values.Nodup

end Mappings

end Namebridge
