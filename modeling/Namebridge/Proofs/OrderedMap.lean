import Mathlib.Data.List.Induction
import Mathlib.Data.List.Nodup
import Mathlib.Data.List.Perm.Subperm
import Namebridge.OrderedMap

/-!
# What a map built from pairs holds

Pairs that are inserted one after the other can have a key in common. The last of them gives the
value, and the first gives the place: `get?_ofPairs_eq_some_iff` and `keys_ofPairs`. A map made by
`filterMap` finds what the map before it finds, as far as it is kept (`get?_filterMap`). Two maps
agree if their entries are the same up to order, which `agrees` decides (`agrees_iff`).
-/

namespace Namebridge.OrderedMap

variable {κ α β γ : Type} [DecidableEq κ]

/-! ## Look-ups in lists -/

theorem lookup_append (k : κ) (es fs : List (κ × α)) :
    lookup k (es ++ fs) = (lookup k es).or (lookup k fs) := by
  induction es with
  | nil => simp [lookup]
  | cons e rest ih =>
      by_cases h : e.1 = k
      · simp [lookup, h]
      · simp [lookup, h, ih]

theorem lookup_eq_none_iff (k : κ) (es : List (κ × α)) :
    lookup k es = none ↔ k ∉ es.map Prod.fst := by
  induction es with
  | nil => simp [lookup]
  | cons e rest ih =>
      by_cases h : e.1 = k
      · simp [lookup, h]
      · have hk : ¬ k = e.1 := fun hk => h hk.symm
        rw [lookup, if_neg h, ih]
        simp [hk]

/-- A look-up finds the first entry of a key. -/
theorem lookup_eq_some_iff (k : κ) (v : α) (es : List (κ × α)) :
    lookup k es = some v ↔
      ∃ before after, es = before ++ (k, v) :: after ∧ k ∉ before.map Prod.fst := by
  constructor
  · intro h
    induction es with
    | nil => cases h
    | cons e rest ih =>
        obtain ⟨a, b⟩ := e
        by_cases hk : a = k
        · rw [lookup, if_pos hk] at h
          cases h
          exact ⟨[], rest, by rw [hk]; rfl, by simp⟩
        · rw [lookup, if_neg hk] at h
          obtain ⟨before, after, hrest, hbefore⟩ := ih h
          have hk' : ¬ k = a := fun hk' => hk hk'.symm
          refine ⟨(a, b) :: before, after, by rw [hrest]; rfl, ?_⟩
          simpa [hk'] using hbefore
  · intro hparts
    obtain ⟨before, after, rfl, hbefore⟩ := hparts
    rw [lookup_append, (lookup_eq_none_iff k before).mpr hbefore]
    simp [lookup]

/-! ## Maps built from pairs -/

/-- What is put at a key last is found there, if no step changes what is found at other keys. -/
theorem look_foldl {σ : Type} (look : σ → Option α) (put : σ → κ × α → σ) (k : κ)
    (h : ∀ s p, look (put s p) = if p.1 = k then some p.2 else look s) (s : σ)
    (ps : List (κ × α)) : look (ps.foldl put s) = (lookup k ps.reverse).or (look s) := by
  induction ps generalizing s with
  | nil => rfl
  | cons p rest ih =>
      rw [List.foldl_cons, ih, h, List.reverse_cons, lookup_append, Option.or_assoc]
      by_cases hp : p.1 = k
      · simp [lookup, hp]
      · simp [lookup, hp]

/-- Steps that each count one more, as long as nothing is found at their key yet, count all of a
list without repeated keys. -/
theorem count_foldl {σ : Type} (count : σ → Nat) (look : κ → σ → Option α)
    {put : σ → κ × α → σ} (hcount : ∀ s p, look p.1 s = none → count (put s p) = count s + 1)
    (hlook : ∀ s p k, look k (put s p) = if p.1 = k then some p.2 else look k s) {s : σ}
    {ps : List (κ × α)} (hkeys : (ps.map Prod.fst).Nodup) (hnew : ∀ p ∈ ps, look p.1 s = none) :
    count (ps.foldl put s) = count s + ps.length := by
  induction ps generalizing s with
  | nil => rfl
  | cons p rest ih =>
      rw [List.map_cons, List.nodup_cons] at hkeys
      have hrest : ∀ q ∈ rest, look q.1 (put s p) = none := by
        intro q hq
        have hne : p.1 ≠ q.1 := fun heq => hkeys.1 (List.mem_map.mpr ⟨q, hq, heq.symm⟩)
        rw [hlook, if_neg hne]
        exact hnew q (List.mem_cons_of_mem p hq)
      rw [List.foldl_cons, ih hkeys.2 hrest, hcount s p (hnew p List.mem_cons_self),
        List.length_cons]
      omega

theorem ofPairs_concat (ps : List (κ × α)) (p : κ × α) :
    ofPairs (ps ++ [p]) = (ofPairs ps).insert p.1 p.2 := by
  simp [ofPairs, List.foldl_append]

theorem get?_ofPairs (ps : List (κ × α)) (k : κ) :
    (ofPairs ps).get? k = lookup k ps.reverse := by
  have hlast := look_foldl (fun m : OrderedMap κ α => m.get? k) (fun m p => m.insert p.1 p.2) k
    (fun m p => get?_insert m p.1 k p.2) empty ps
  rw [ofPairs, hlast, get?_empty, Option.or_none]

/-- Of several pairs with one key the last gives the value. -/
theorem get?_ofPairs_eq_some_iff (ps : List (κ × α)) (k : κ) (v : α) :
    (ofPairs ps).get? k = some v ↔
      ∃ before after, ps = before ++ (k, v) :: after ∧ k ∉ after.map Prod.fst := by
  rw [get?_ofPairs, lookup_eq_some_iff]
  constructor
  · intro hparts
    obtain ⟨before, after, h, hk⟩ := hparts
    refine ⟨after.reverse, before.reverse, ?_, by simpa using hk⟩
    rw [← List.reverse_reverse ps, h]
    simp
  · intro hparts
    obtain ⟨before, after, rfl, hk⟩ := hparts
    exact ⟨after.reverse, before.reverse, by simp, by simpa using hk⟩

/-- Steps that each put a key at the end, unless it is there, leave the keys in the order in which
they first occur. -/
theorem keys_foldl {σ : Type} (keys : σ → List κ) {put : σ → β → σ} {key : β → κ}
    (h : ∀ s b, keys (put s b) = if key b ∈ keys s then keys s else keys s ++ [key b]) {s : σ}
    {ks : List κ} (hs : keys s = ks.eraseDups) (bs : List β) :
    keys (bs.foldl put s) = (ks ++ bs.map key).eraseDups := by
  induction bs generalizing s ks with
  | nil => simpa using hs
  | cons b rest ih =>
      have hput : keys (put s b) = (ks ++ [key b]).eraseDups := by
        rw [h, hs, List.eraseDups_append]
        by_cases hb : key b ∈ ks
        · rw [if_pos (List.mem_eraseDups.mpr hb)]
          simp [List.removeAll, hb]
        · rw [if_neg (fun hm => hb (List.mem_eraseDups.mp hm))]
          simp [List.removeAll, hb, List.eraseDups_cons]
      rw [List.foldl_cons, ih hput, List.map_cons, List.append_assoc, List.singleton_append]

/-- Of several pairs with one key the first gives the place. -/
theorem keys_ofPairs (ps : List (κ × α)) : (ofPairs ps).keys = (ps.map Prod.fst).eraseDups := by
  have hempty : (empty : OrderedMap κ α).keys = [].eraseDups := rfl
  exact keys_foldl keys (fun m p => keys_insert m p.1 p.2) hempty ps

theorem upsert_of_not_mem {k : κ} (v : α) {es : List (κ × α)} (h : k ∉ es.map Prod.fst) :
    upsert k v es = es ++ [(k, v)] := by
  induction es with
  | nil => rfl
  | cons e rest ih =>
      simp only [List.map_cons, List.mem_cons, not_or] at h
      have hk : ¬ e.1 = k := fun hk => h.1 hk.symm
      rw [upsert, if_neg hk, ih h.2, List.cons_append]

/-- Pairs with new keys go to the end. -/
theorem entries_foldl_insert {m : OrderedMap κ α} {ps : List (κ × α)}
    (hkeys : (ps.map Prod.fst).Nodup) (hnew : ∀ k ∈ ps.map Prod.fst, k ∉ m.keys) :
    (ps.foldl (fun m p => m.insert p.1 p.2) m).entries = m.entries ++ ps := by
  induction ps generalizing m with
  | nil => simp
  | cons p rest ih =>
      rw [List.map_cons, List.nodup_cons] at hkeys
      have hp : p.1 ∉ m.keys := hnew p.1 (by simp)
      have hentries : (m.insert p.1 p.2).entries = m.entries ++ [p] := upsert_of_not_mem p.2 hp
      have hrest : ∀ k ∈ rest.map Prod.fst, k ∉ (m.insert p.1 p.2).keys := by
        intro k hk
        rw [keys_insert, if_neg hp, List.mem_append, List.mem_singleton, not_or]
        exact ⟨hnew k (by simp [hk]), fun heq => hkeys.1 (heq ▸ hk)⟩
      rw [List.foldl_cons, ih hkeys.2 hrest, hentries, List.append_assoc, List.singleton_append]

/-- Pairs without repeated keys are the entries of their map. -/
theorem entries_ofPairs {ps : List (κ × α)} (h : (ps.map Prod.fst).Nodup) :
    (ofPairs ps).entries = ps :=
  entries_foldl_insert h fun _ _ => List.not_mem_nil

/-- The distinct members of a list stand in the order in which they first occur in it. -/
theorem pairwise_idxOf_eraseDups (l : List κ) :
    l.eraseDups.Pairwise fun a b => l.idxOf a < l.idxOf b := by
  induction l using List.reverseRecOn with
  | nil => exact List.Pairwise.nil
  | append_singleton l x ih =>
      rw [List.eraseDups_append]
      refine List.pairwise_append.mpr ⟨?_, ?_, ?_⟩
      · -- what occurred before `x` keeps its place
        refine ih.imp_of_mem fun ha hb hab => ?_
        rw [List.idxOf_append, List.idxOf_append, if_pos (List.mem_eraseDups.mp ha),
          if_pos (List.mem_eraseDups.mp hb)]
        exact hab
      · by_cases h : x ∈ l <;> simp [List.removeAll, h, List.eraseDups_cons]
      · intro a ha b hb
        rw [List.mem_eraseDups] at ha hb
        simp only [List.removeAll, List.mem_filter, List.mem_singleton] at hb
        obtain ⟨rfl, hb⟩ := hb
        have hnot : b ∉ l := by simpa using hb
        rw [List.idxOf_append, List.idxOf_append, if_pos ha, if_neg hnot]
        have := List.idxOf_lt_length_of_mem ha
        omega

/-- Without repeated keys a map holds the pairs that it is built from. -/
theorem get?_ofPairs_iff_mem {ps : List (κ × α)} (h : (ps.map Prod.fst).Nodup) (k : κ) (v : α) :
    (ofPairs ps).get? k = some v ↔ (k, v) ∈ ps := by
  rw [← mem_entries_iff, entries_ofPairs h]

theorem lookup_reverse {es : List (κ × α)} (h : (es.map Prod.fst).Nodup) (k : κ) :
    lookup k es.reverse = lookup k es := by
  have hreverse : (es.reverse.map Prod.fst).Nodup := by
    rw [List.map_reverse]
    exact List.nodup_reverse.mpr h
  refine Option.ext fun v => ?_
  rw [← mem_iff_lookup k v hreverse, List.mem_reverse, mem_iff_lookup k v h]

/-- Of several items with one key the last gives the value. -/
theorem get?_ofPairs_map {ι : Type} (key : ι → κ) (value : ι → α) (items : List ι) (k : κ) :
    (ofPairs (items.map fun i => (key i, value i))).get? k
      = (items.reverse.find? (key · = k)).map value := by
  rw [get?_ofPairs, ← List.map_reverse]
  induction items.reverse with
  | nil => rfl
  | cons i rest ih =>
      by_cases hi : key i = k
      · simp [lookup, hi]
      · simp [lookup, hi, ih]

/-! ## Sums over the values -/

/-- The sum of a measure over the values of a map. -/
def total (measure : α → Nat) (m : OrderedMap κ α) : Nat :=
  m.entries.foldr (fun e sum => measure e.2 + sum) 0

theorem foldr_upsert (measure : α → Nat) (k : κ) (v : α) (es : List (κ × α)) :
    (upsert k v es).foldr (fun e sum => measure e.2 + sum) 0 + ((lookup k es).map measure).getD 0
      = es.foldr (fun e sum => measure e.2 + sum) 0 + measure v := by
  induction es with
  | nil => simp [upsert, lookup]
  | cons e rest ih =>
      by_cases h : e.1 = k
      · simp only [upsert, lookup, if_pos h, List.foldr_cons, Option.map_some, Option.getD_some]
        omega
      · simp only [upsert, lookup, if_neg h, List.foldr_cons]
        omega

/-- An insertion adds the measure of the new value and takes off that of the value it replaces. -/
theorem total_insert (measure : α → Nat) (m : OrderedMap κ α) (k : κ) (v : α) :
    (m.insert k v).total measure + ((m.get? k).map measure).getD 0
      = m.total measure + measure v :=
  foldr_upsert measure k v m.entries

/-- A change of one value that adds `n` to its measure adds `n` to the total. -/
theorem total_alter {measure : α → Nat} {m : OrderedMap κ α} {k : κ} {f : Option α → α} {n : Nat}
    (h : measure (f (m.get? k)) = ((m.get? k).map measure).getD 0 + n) :
    (m.alter k f).total measure = m.total measure + n := by
  have hinsert := total_insert measure m k (f (m.get? k))
  rw [alter]
  omega

theorem size_insert_of_get?_eq_none {m : OrderedMap κ α} {k : κ} (h : m.get? k = none) (v : α) :
    (m.insert k v).size = m.size + 1 := by
  have hkeys : k ∉ m.entries.map Prod.fst := (lookup_eq_none_iff k m.entries).mp h
  rw [size, entries_insert, upsert_of_not_mem v hkeys, List.length_append]
  rfl

/-! ## Maps with entries left out -/

omit [DecidableEq κ] in
theorem mem_entries_filterMap (m : OrderedMap κ α) (f : κ → α → Option β) (k : κ) (b : β) :
    (k, b) ∈ (m.filterMap f).entries ↔ ∃ a, (k, a) ∈ m.entries ∧ f k a = some b := by
  simp only [filterMap, List.mem_filterMap, Option.map_eq_some_iff]
  constructor
  · intro h
    obtain ⟨⟨k', a⟩, hmem, b', hb, heq⟩ := h
    cases heq
    exact ⟨a, hmem, hb⟩
  · intro h
    obtain ⟨a, hmem, hb⟩ := h
    exact ⟨(k, a), hmem, b, hb, rfl⟩

theorem get?_filterMap (m : OrderedMap κ α) (f : κ → α → Option β) (k : κ) :
    (m.filterMap f).get? k = (m.get? k).bind (f k) := by
  refine Option.ext fun b => ?_
  rw [← mem_entries_iff, mem_entries_filterMap, Option.bind_eq_some_iff]
  simp only [mem_entries_iff]

omit [DecidableEq κ] in
theorem keys_filterMap (m : OrderedMap κ α) (f : κ → α → Option β) :
    (m.filterMap f).keys.Sublist m.keys := keys_filterMap_sublist f m.entries

/-- Where everything is kept, no key is lost. -/
theorem keys_filterMap_of_forall {m : OrderedMap κ α} {f : κ → α → Option β}
    (h : ∀ k a, m.get? k = some a → ∃ b, f k a = some b) : (m.filterMap f).keys = m.keys := by
  rw [keys, keys, filterMap, List.map_filterMap]
  have hkept : ∀ e ∈ m.entries, ((f e.1 e.2).map (e.1, ·)).map Prod.fst = some e.1 := by
    rintro ⟨k, a⟩ he
    obtain ⟨b, hb⟩ := h k a ((mem_entries_iff m k a).mp he)
    rw [hb]
    rfl
  rw [List.filterMap_congr hkept, List.filterMap_eq_map']

omit [DecidableEq κ] in
theorem filterMap_filterMap (m : OrderedMap κ α) (f : κ → α → Option β) (g : κ → β → Option γ) :
    (m.filterMap f).filterMap g = m.filterMap fun k a => (f k a).bind (g k) := by
  refine OrderedMap.ext ?_
  simp only [filterMap, List.filterMap_filterMap]
  refine List.filterMap_congr fun e _ => ?_
  cases f e.1 e.2 <;> rfl

omit [DecidableEq κ] in
@[simp] theorem length_keys (m : OrderedMap κ α) : m.keys.length = m.size := by
  simp [keys, size]

omit [DecidableEq κ] in
@[simp] theorem length_values (m : OrderedMap κ α) : m.values.length = m.size := by
  simp [values, size]

/-! ## Agreement -/

theorem get?_eq_none_iff (m : OrderedMap κ α) (k : κ) : m.get? k = none ↔ k ∉ m.keys :=
  lookup_eq_none_iff k m.entries

/-- Maps that agree differ at most in the order of their entries. -/
theorem perm_entries_iff (m n : OrderedMap κ α) : m.entries.Perm n.entries ↔ m.Agrees n := by
  rw [List.perm_ext_iff_of_nodup m.nodup.of_map n.nodup.of_map]
  constructor
  · intro h k
    refine Option.ext fun v => ?_
    rw [← mem_entries_iff, ← mem_entries_iff]
    exact h (k, v)
  · rintro h ⟨k, v⟩
    rw [mem_entries_iff, mem_entries_iff, h k]

/-- The entries are the keys with what is found at them. -/
theorem entries_eq_filterMap_keys (m : OrderedMap κ α) :
    m.entries = m.keys.filterMap fun k => (m.get? k).map (k, ·) := by
  rw [keys, List.filterMap_map]
  have hfound : ∀ e ∈ m.entries, (m.get? e.1).map (e.1, ·) = some e := by
    rintro ⟨k, v⟩ he
    rw [(mem_entries_iff m k v).mp he, Option.map_some]
  exact List.filterMap_some.symm.trans (List.filterMap_congr fun e he => (hfound e he).symm)

/-- Maps that agree are equal if their keys stand in the same order. -/
theorem eq_of_keys_eq {m n : OrderedMap κ α} (hkeys : m.keys = n.keys) (h : m.Agrees n) :
    m = n := by
  refine OrderedMap.ext ?_
  rw [entries_eq_filterMap_keys m, entries_eq_filterMap_keys n, hkeys]
  simp only [h _]

/-- To insert what is there changes nothing. -/
theorem insert_eq_self {m : OrderedMap κ α} {k : κ} {v : α} (h : m.get? k = some v) :
    m.insert k v = m := by
  refine eq_of_keys_eq ?_ fun k' => ?_
  · rw [keys_insert, if_pos ((mem_keys_iff m k).mpr ⟨v, h⟩)]
  · rw [get?_insert]
    split
    · rename_i hk
      rw [← hk, h]
    · rfl

/-- Without repeated keys it does not matter in which order pairs are inserted. -/
theorem agrees_ofPairs_of_perm {ps qs : List (κ × α)} (h : ps.Perm qs)
    (hkeys : (ps.map Prod.fst).Nodup) : (ofPairs ps).Agrees (ofPairs qs) := by
  have hkeys' : (qs.map Prod.fst).Nodup := (h.map Prod.fst).nodup_iff.mp hkeys
  rw [← perm_entries_iff, entries_ofPairs hkeys, entries_ofPairs hkeys']
  exact h

theorem agrees_iff [DecidableEq α] (m n : OrderedMap κ α) : m.agrees n = true ↔ m.Agrees n := by
  have hentries : (m.entries.all fun e => decide (n.get? e.1 = some e.2)) = true
      ↔ m.entries ⊆ n.entries := by
    simp only [List.all_eq_true, decide_eq_true_eq, ← mem_entries_iff]
    exact Iff.rfl
  rw [agrees, Bool.and_eq_true, beq_iff_eq, hentries, ← perm_entries_iff]
  constructor
  · intro h
    obtain ⟨hsize, hsub⟩ := h
    -- equally many entries leave the second map none of its own
    have hsubperm : m.entries.Subperm n.entries := List.subperm_of_subset m.nodup.of_map hsub
    exact hsubperm.perm_of_length_le (Nat.le_of_eq hsize.symm)
  · intro h
    exact ⟨h.length_eq, h.subset⟩

end Namebridge.OrderedMap
