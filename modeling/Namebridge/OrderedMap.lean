/-!
# Insertion ordered maps

A finite map whose entries stand in the order in which their keys were first inserted. Inserting a
key again changes its value and keeps its place.

The view of a map is its list `entries`, and `Agrees` is equality that ignores the order. The laws
below say what each operation does to the view, and what a look-up finds after it.
-/

namespace Namebridge

/-- A finite map with its entries in insertion order; no two entries have the same key. -/
@[ext] structure OrderedMap (κ α : Type) where
  entries : List (κ × α)
  nodup : (entries.map Prod.fst).Nodup
deriving DecidableEq

namespace OrderedMap

variable {κ α β : Type}

/-! ## Association lists -/

/-- The value of the first entry with key `k`. -/
def lookup [DecidableEq κ] (k : κ) : List (κ × α) → Option α
  | [] => none
  | e :: rest => if e.1 = k then some e.2 else lookup k rest

/-- Gives `k` the value `v`: the entry with that key is changed in place, and if there is none a
new entry is put at the end. -/
def upsert [DecidableEq κ] (k : κ) (v : α) : List (κ × α) → List (κ × α)
  | [] => [(k, v)]
  | e :: rest => if e.1 = k then (k, v) :: rest else e :: upsert k v rest

theorem keys_upsert [DecidableEq κ] (k : κ) (v : α) (es : List (κ × α)) :
    (upsert k v es).map Prod.fst
      = if k ∈ es.map Prod.fst then es.map Prod.fst else es.map Prod.fst ++ [k] := by
  induction es with
  | nil => simp [upsert]
  | cons e rest ih =>
      by_cases h : e.1 = k
      · simp [upsert, h]
      · have hk : ¬ k = e.1 := fun hk => h hk.symm
        by_cases hm : k ∈ rest.map Prod.fst <;> simp_all [upsert]

theorem nodup_keys_upsert [DecidableEq κ] (k : κ) (v : α) {es : List (κ × α)}
    (h : (es.map Prod.fst).Nodup) : ((upsert k v es).map Prod.fst).Nodup := by
  rw [keys_upsert]
  split
  · exact h
  · rename_i hk
    refine List.nodup_append.mpr ⟨h, by simp, ?_⟩
    intro a ha b hb hab
    simp only [List.mem_singleton] at hb
    exact hk (hb ▸ hab ▸ ha)

theorem lookup_upsert [DecidableEq κ] (k k' : κ) (v : α) (es : List (κ × α)) :
    lookup k' (upsert k v es) = if k = k' then some v else lookup k' es := by
  induction es with
  | nil => simp [upsert, lookup]
  | cons e rest ih =>
      by_cases h : e.1 = k
      · by_cases h' : k = k' <;> simp [upsert, lookup, h, h']
      · by_cases h' : e.1 = k'
        · subst h'
          have hk : ¬ k = e.1 := fun hk => h hk.symm
          simp [upsert, lookup, h, hk]
        · simp [upsert, lookup, h, h', ih]

theorem mem_iff_lookup [DecidableEq κ] (k : κ) (v : α) {es : List (κ × α)}
    (h : (es.map Prod.fst).Nodup) : (k, v) ∈ es ↔ lookup k es = some v := by
  induction es with
  | nil => simp [lookup]
  | cons e rest ih =>
      obtain ⟨a, b⟩ := e
      simp only [List.map_cons, List.nodup_cons] at h
      by_cases hk : a = k
      · subst hk
        have hnot : (a, v) ∉ rest := fun hm => h.1 (List.mem_map.mpr ⟨(a, v), hm, rfl⟩)
        simp [lookup, hnot, eq_comm]
      · have hk' : ¬ k = a := fun h => hk h.symm
        simp [lookup, hk, hk', ih h.2]

theorem keys_filterMap_sublist (f : κ → α → Option β) (es : List (κ × α)) :
    ((es.filterMap fun e => (f e.1 e.2).map (e.1, ·)).map Prod.fst).Sublist (es.map Prod.fst) := by
  induction es with
  | nil => simp
  | cons e rest ih =>
      cases h : f e.1 e.2 with
      | none => simpa [h] using ih.cons e.1
      | some b => simpa [h] using ih.cons_cons e.1

/-! ## Operations -/

/-- The map without entries. -/
def empty : OrderedMap κ α := ⟨[], List.nodup_nil⟩

instance : Inhabited (OrderedMap κ α) := ⟨empty⟩
instance : EmptyCollection (OrderedMap κ α) := ⟨empty⟩

/-- The number of entries. -/
def size (m : OrderedMap κ α) : Nat := m.entries.length

/-- Whether there is no entry. -/
def isEmpty (m : OrderedMap κ α) : Bool := m.entries.isEmpty

/-- The keys, in insertion order. -/
def keys (m : OrderedMap κ α) : List κ := m.entries.map Prod.fst

/-- The values, in the order of their keys. -/
def values (m : OrderedMap κ α) : List α := m.entries.map Prod.snd

/-- Keeps the entries to which `f` gives a new value, under their keys and in their order. -/
def filterMap (m : OrderedMap κ α) (f : κ → α → Option β) : OrderedMap κ β :=
  ⟨m.entries.filterMap fun e => (f e.1 e.2).map (e.1, ·),
    m.nodup.sublist (keys_filterMap_sublist f m.entries)⟩

variable [DecidableEq κ]

/-- The value of a key. -/
def get? (m : OrderedMap κ α) (k : κ) : Option α := lookup k m.entries

/-- Gives the key a value. A key that is there keeps its place, a new one goes to the end. -/
def insert (m : OrderedMap κ α) (k : κ) (v : α) : OrderedMap κ α :=
  ⟨upsert k v m.entries, nodup_keys_upsert k v m.nodup⟩

/-- Gives the key the value that `f` makes of its present one. -/
def alter (m : OrderedMap κ α) (k : κ) (f : Option α → α) : OrderedMap κ α :=
  m.insert k (f (m.get? k))

/-- The map that holds the pairs, inserted from left to right. -/
def ofPairs (pairs : List (κ × α)) : OrderedMap κ α :=
  pairs.foldl (fun m p => m.insert p.1 p.2) empty

/-- Two maps agree if they give every key the same value, whatever the order of their entries. -/
def Agrees (m n : OrderedMap κ α) : Prop := ∀ k, m.get? k = n.get? k

/-- Whether two maps have equally many entries and each entry of the first is in the second. -/
def agrees [DecidableEq α] (m n : OrderedMap κ α) : Bool :=
  m.size == n.size && m.entries.all fun e => decide (n.get? e.1 = some e.2)

/-! ## Laws -/

@[simp] theorem get?_empty (k : κ) : (empty : OrderedMap κ α).get? k = none := rfl

theorem entries_insert (m : OrderedMap κ α) (k : κ) (v : α) :
    (m.insert k v).entries = upsert k v m.entries := rfl

/-- A new key goes to the end, and no other key moves. -/
theorem keys_insert (m : OrderedMap κ α) (k : κ) (v : α) :
    (m.insert k v).keys = if k ∈ m.keys then m.keys else m.keys ++ [k] :=
  keys_upsert k v m.entries

theorem get?_insert (m : OrderedMap κ α) (k k' : κ) (v : α) :
    (m.insert k v).get? k' = if k = k' then some v else m.get? k' :=
  lookup_upsert k k' v m.entries

/-- The entries are exactly what look-ups find. -/
theorem mem_entries_iff (m : OrderedMap κ α) (k : κ) (v : α) :
    (k, v) ∈ m.entries ↔ m.get? k = some v :=
  mem_iff_lookup k v m.nodup

theorem mem_keys_iff (m : OrderedMap κ α) (k : κ) : k ∈ m.keys ↔ ∃ v, m.get? k = some v := by
  simp only [keys, List.mem_map, ← mem_entries_iff]
  constructor
  · rintro ⟨⟨a, v⟩, hm, rfl⟩
    exact ⟨v, hm⟩
  · rintro ⟨v, hm⟩
    exact ⟨(k, v), hm, rfl⟩

end OrderedMap

end Namebridge
