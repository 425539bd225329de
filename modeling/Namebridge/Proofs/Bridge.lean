import Mathlib.Data.List.Nodup
import Mathlib.Data.List.Perm.Subperm
import Namebridge.Mappings.Bridge
import Namebridge.Proofs.NameTable

/-!
# What a bridge holds

Nothing keeps two obfuscated names from having one MCP name, nor two MCP names from meeting at one
yarn name. `IsBridge` says which pairs survive then, table by table, and `bridgeTo_isBridge` that
they are those of both directions of a bridge.
-/

namespace Namebridge

namespace NameTable

/-- What the tables of a bridge hold, given those of the obfuscated names. -/
structure IsBridge (mcp yarn forward backward : NameTable) : Prop where
  /-- An MCP name goes where the last obfuscated name that has it goes. -/
  forward_iff : ∀ m y, (m, y) ∈ forward.entries ↔ ∃ o, mcp.LastKey m o ∧ yarn.get? o = some y
  /-- The MCP names stand in the order in which they first occur. -/
  forward_order : forward.keys.Pairwise fun a b => mcp.values.idxOf a < mcp.values.idxOf b
  /-- A yarn name goes back to the last of the MCP names that go to it. -/
  backward_iff : ∀ y m, (y, m) ∈ backward.entries ↔ forward.LastKey y m
  /-- Names are paired only if they belong to one obfuscated name. -/
  shared : ∀ m y, (m, y) ∈ forward.entries ∨ (y, m) ∈ backward.entries →
    ∃ o, (o, m) ∈ mcp.entries ∧ (o, y) ∈ yarn.entries
  size_le : forward.size ≤ min mcp.size yarn.size

/-! ## Forward -/

theorem get?_bridge_eq_some_iff (mcp yarn : NameTable) (m y : String) :
    (mcp.inverse.chain yarn .drop).get? m = some y
      ↔ ∃ o, mcp.LastKey m o ∧ yarn.get? o = some y := by
  rw [get?_chain_drop, Option.bind_eq_some_iff]
  simp only [get?_inverse_eq_some_iff]

theorem keys_bridge_sublist (mcp yarn : NameTable) :
    (mcp.inverse.chain yarn .drop).keys.Sublist mcp.values.eraseDups := by
  rw [← keys_inverse]
  exact keys_chain mcp.inverse yarn .drop

theorem size_bridge_le_left (mcp yarn : NameTable) :
    (mcp.inverse.chain yarn .drop).size ≤ mcp.size := by
  have hsub : (mcp.inverse.chain yarn .drop).keys ⊆ mcp.values := fun m hm =>
    List.mem_eraseDups.mp ((keys_bridge_sublist mcp yarn).subset hm)
  have hnodup : (mcp.inverse.chain yarn .drop).keys.Nodup := (mcp.inverse.chain yarn .drop).nodup
  simpa using (hnodup.subperm hsub).length_le

/-- Different MCP names come from different obfuscated names. -/
theorem size_bridge_le_right (mcp yarn : NameTable) :
    (mcp.inverse.chain yarn .drop).size ≤ yarn.size := by
  let source := fun m => mcp.inverse.rename m
  have hsource : ∀ m ∈ (mcp.inverse.chain yarn .drop).keys,
      mcp.get? (source m) = some m ∧ source m ∈ yarn.keys := by
    intro m hm
    obtain ⟨y, hy⟩ := (OrderedMap.mem_keys_iff _ m).mp hm
    obtain ⟨o, hlast, ho⟩ := (get?_bridge_eq_some_iff mcp yarn m y).mp hy
    have hrename : source m = o := by
      simp only [source, rename, (get?_inverse_eq_some_iff mcp m o).mpr hlast, Option.getD_some]
    rw [hrename]
    exact ⟨hlast.get?, (OrderedMap.mem_keys_iff yarn o).mpr ⟨y, ho⟩⟩
  have hnodup : ((mcp.inverse.chain yarn .drop).keys.map source).Nodup := by
    refine List.Nodup.map_on ?_ (mcp.inverse.chain yarn .drop).nodup
    intro a ha b hb hab
    have hget := (hsource a ha).1
    rw [hab, (hsource b hb).1] at hget
    exact (Option.some.inj hget).symm
  have hsub : (mcp.inverse.chain yarn .drop).keys.map source ⊆ yarn.keys := by
    intro o ho
    obtain ⟨m, hm, rfl⟩ := List.mem_map.mp ho
    exact (hsource m hm).2
  simpa using (hnodup.subperm hsub).length_le

/-! ## Distinct counterparts -/

theorem get?_bridge_of_get? {mcp : NameTable} (h : mcp.values.Nodup) (yarn : NameTable)
    {o m : String} (hm : mcp.get? o = some m) :
    (mcp.inverse.chain yarn .drop).get? m = yarn.get? o := by
  rw [get?_chain_drop, (get?_inverse_eq_some_iff mcp m o).mpr ((lastKey_iff_get? h m o).mpr hm)]
  rfl

theorem get?_bridge_of_not_mem {mcp : NameTable} (yarn : NameTable) {m : String}
    (h : m ∉ mcp.values) : (mcp.inverse.chain yarn .drop).get? m = none := by
  refine Option.eq_none_iff_forall_ne_some.mpr fun y hy => ?_
  obtain ⟨o, hlast, -⟩ := (get?_bridge_eq_some_iff mcp yarn m y).mp hy
  exact h hlast.mem_values

/-- No two MCP names go to one yarn name, if no two obfuscated names do. -/
theorem nodup_values_bridge (mcp : NameTable) {yarn : NameTable} (h : yarn.values.Nodup) :
    (mcp.inverse.chain yarn .drop).values.Nodup := by
  rw [nodup_values_iff] at h ⊢
  intro a b y ha hb
  obtain ⟨o, hlast, ho⟩ := (get?_bridge_eq_some_iff mcp yarn a y).mp ha
  obtain ⟨o', hlast', ho'⟩ := (get?_bridge_eq_some_iff mcp yarn b y).mp hb
  obtain rfl := h o o' y ho ho'
  exact Option.some.inj (hlast.get?.symm.trans hlast'.get?)

/-- The other direction of a bridge leads back. -/
theorem get?_bridge_inverse_iff (mcp : NameTable) {yarn : NameTable} (h : yarn.values.Nodup)
    (m y : String) : (mcp.inverse.chain yarn .drop).inverse.get? y = some m
      ↔ (mcp.inverse.chain yarn .drop).get? m = some y := by
  rw [get?_inverse_eq_some_iff, lastKey_iff_get? (nodup_values_bridge mcp h)]

theorem get?_bridge_inverse_of_get? {mcp yarn : NameTable} (hmcp : mcp.values.Nodup)
    (hyarn : yarn.values.Nodup) {o m y : String} (hm : mcp.get? o = some m)
    (hy : yarn.get? o = some y) : (mcp.inverse.chain yarn .drop).inverse.get? y = some m := by
  rw [get?_bridge_inverse_iff mcp hyarn, get?_bridge_of_get? hmcp yarn hm, hy]

theorem get?_bridge_inverse_of_not_mem (mcp : NameTable) {yarn : NameTable} {y : String}
    (h : y ∉ yarn.values) : (mcp.inverse.chain yarn .drop).inverse.get? y = none := by
  refine Option.eq_none_iff_forall_ne_some.mpr fun m hm => ?_
  have hlast := (get?_inverse_eq_some_iff _ y m).mp hm
  obtain ⟨o, -, ho⟩ := (get?_bridge_eq_some_iff mcp yarn m y).mp hlast.get?
  exact h ((mem_values_iff yarn y).mpr ⟨o, ho⟩)

/-! ## Both directions -/

theorem isBridge (mcp yarn : NameTable) :
    IsBridge mcp yarn (mcp.inverse.chain yarn .drop) (mcp.inverse.chain yarn .drop).inverse := by
  have hforward : ∀ m y, (m, y) ∈ (mcp.inverse.chain yarn .drop).entries →
      ∃ o, (o, m) ∈ mcp.entries ∧ (o, y) ∈ yarn.entries := by
    intro m y hmem
    rw [OrderedMap.mem_entries_iff, get?_bridge_eq_some_iff] at hmem
    obtain ⟨o, hlast, hy⟩ := hmem
    exact ⟨o, (OrderedMap.mem_entries_iff mcp o m).mpr hlast.get?,
      (OrderedMap.mem_entries_iff yarn o y).mpr hy⟩
  refine ⟨?forward_iff, ?forward_order, ?backward_iff, ?shared, ?size_le⟩
  case forward_iff =>
    intro m y
    rw [OrderedMap.mem_entries_iff, get?_bridge_eq_some_iff]
  case forward_order =>
    exact (OrderedMap.pairwise_idxOf_eraseDups mcp.values).sublist (keys_bridge_sublist mcp yarn)
  case backward_iff =>
    intro y m
    rw [OrderedMap.mem_entries_iff, get?_inverse_eq_some_iff]
  case shared =>
    rintro m y (hmem | hmem)
    · exact hforward m y hmem
    · rw [OrderedMap.mem_entries_iff, get?_inverse_eq_some_iff] at hmem
      exact hforward m y ((OrderedMap.mem_entries_iff _ m y).mpr hmem.get?)
  case size_le =>
    exact Nat.le_min.mpr ⟨size_bridge_le_left mcp yarn, size_bridge_le_right mcp yarn⟩

end NameTable

/-- **Bridges**: each table of a bridge and of its other direction holds exactly the names that meet
at the obfuscated names, and ties go to the last one. -/
theorem Mappings.bridgeTo_isBridge (mcp yarn : Mappings) (kind : SymbolKind) :
    NameTable.IsBridge (mcp.table kind) (yarn.table kind)
      ((mcp.bridgeTo yarn .mcpToYarn).table kind) ((mcp.bridgeTo yarn .yarnToMcp).table kind) := by
  simp only [bridgeTo, bridge, table_inverse, table_chain]
  exact NameTable.isBridge (mcp.table kind) (yarn.table kind)

/-- `x` belongs to `a` and to `b`, of which `b` counts; `x` and `z` meet at `p`, and `z` is the
later. -/
example :
    let mcp : NameTable := .ofPairs [("a", "x"), ("b", "x"), ("c", "z")]
    let yarn : NameTable := .ofPairs [("a", "q"), ("b", "p"), ("c", "p")]
    let forward := mcp.inverse.chain yarn .drop
    forward.entries = [("x", "p"), ("z", "p")] ∧ forward.inverse.entries = [("p", "z")] := by
  decide

end Namebridge
