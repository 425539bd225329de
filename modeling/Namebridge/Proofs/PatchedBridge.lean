import Mathlib.Data.List.Zip
import Namebridge.Proofs.IndexedFiles

/-!
# Bridges of patched tables

Two patches that make up the same names bridge the classes that they bring, and change nothing else.
One table of the bridge is `Overlaid` by pairs: it has these pairs, and is the table without patches
elsewhere. The made up names have to be new to the first table, since otherwise the patch would take
a class from it.

The pairs may take names that other classes have. Forward they win over these, since they come
last. Back they do if the first table has none of their names (`bridgeTo_overlaid`).
-/

namespace Namebridge

open OrderedMap

/-! ## Tables with pairs laid over them -/

/-- A table has these pairs, and is another table elsewhere. -/
structure NameTable.Overlaid (pairs : List (String × String)) (t overlaid : NameTable) : Prop where
  at_pair : ∀ pair ∈ pairs, overlaid.get? pair.1 = some pair.2
  elsewhere : ∀ name ∉ pairs.map Prod.fst, overlaid.get? name = t.get? name

namespace NameTable

/-- Look-ups that try pairs first overlay a table with these. -/
theorem overlaid_of_get? {pairs : List (String × String)} {t overlaid : NameTable}
    (hkeys : (pairs.map Prod.fst).Nodup)
    (h : ∀ name, overlaid.get? name = (lookup name pairs.reverse).or (t.get? name)) :
    Overlaid pairs t overlaid := by
  refine ⟨fun pair hpair => ?_, fun name hname => ?_⟩
  · rw [h, lookup_reverse hkeys, (mem_iff_lookup pair.1 pair.2 hkeys).mp hpair, Option.some_or]
  · rw [h, lookup_reverse hkeys, (lookup_eq_none_iff name pairs).mpr hname, Option.none_or]

end NameTable

/-! ## Bridges of overlaid tables -/

namespace NameTable

variable {mcp mcp' yarn yarn' : NameTable} {ps qs : List (String × String)}

theorem forall₂_of_sources (h : ps.map Prod.fst = qs.map Prod.fst) :
    List.Forall₂ (fun p q => p.1 = q.1) ps qs := by
  rwa [← List.forall₂_eq_eq_eq, List.forall₂_map_left_iff, List.forall₂_map_right_iff] at h

/-- Counterparts in the same place are counterparts of one name. -/
theorem exists_of_mem_zip (h : ps.map Prod.fst = qs.map Prod.fst) {p q : String}
    (hmem : (p, q) ∈ (ps.map Prod.snd).zip (qs.map Prod.snd)) :
    ∃ s, (s, p) ∈ ps ∧ (s, q) ∈ qs := by
  rw [List.zip_map, List.mem_map] at hmem
  obtain ⟨⟨⟨s, p⟩, ⟨s', q⟩⟩, hmem, heq⟩ := hmem
  cases heq
  obtain rfl : s = s' := List.forall₂_zip (forall₂_of_sources h) hmem
  exact ⟨s, (List.of_mem_zip hmem).1, (List.of_mem_zip hmem).2⟩

/-- Counterparts that are turned around and continued by those in the same place. -/
theorem filterMap_swap_eq_zip (h : ps.map Prod.fst = qs.map Prod.fst) {t : NameTable}
    (ht : ∀ e ∈ qs, t.get? e.1 = some e.2) :
    (ps.map Prod.swap).filterMap (fun e => (t.get? e.2).map (e.1, ·))
      = (ps.map Prod.snd).zip (qs.map Prod.snd) := by
  induction forall₂_of_sources h with
  | nil => rfl
  | @cons p q ps qs hpq _ ih =>
      have hp : t.get? p.1 = some q.2 := by rw [hpq, ht q List.mem_cons_self]
      rw [List.map_cons, List.map_cons, List.map_cons, List.zip_cons_cons,
        List.filterMap_cons_some (b := (p.2, q.2)) (by rw [Prod.snd_swap, hp]; rfl)]
      exact congrArg _ (ih (List.cons.inj h).2 fun e he => ht e (List.mem_cons_of_mem q he))

/-- The names that the first table has are none of those made up. -/
theorem get?_overlaid_of_inverse (hyarn : Overlaid qs yarn yarn')
    (hsources : ps.map Prod.fst = qs.map Prod.fst) (hnew : ∀ s ∈ ps.map Prod.fst, s ∉ mcp.keys)
    {m o : String} (ho : mcp.inverse.get? m = some o) : yarn'.get? o = yarn.get? o := by
  have hlast := (get?_inverse_eq_some_iff mcp m o).mp ho
  refine hyarn.elsewhere o fun hmem => hnew o (hsources ▸ hmem) ?_
  exact (mem_keys_iff mcp o).mpr ⟨m, hlast.get?⟩

theorem overlaid_bridge (hmcp : mcp'.entries = mcp.entries ++ ps) (hyarn : Overlaid qs yarn yarn')
    (hsources : ps.map Prod.fst = qs.map Prod.fst) (htargets : (ps.map Prod.snd).Nodup)
    (hnew : ∀ s ∈ ps.map Prod.fst, s ∉ mcp.keys) :
    Overlaid ((ps.map Prod.snd).zip (qs.map Prod.snd)) (mcp.inverse.chain yarn .drop)
      (mcp'.inverse.chain yarn' .drop) := by
  have hkeys := map_fst_swap ps
  have hinverse (name : String) : mcp'.inverse.get? name
      = (lookup name (ps.map Prod.swap)).or (mcp.inverse.get? name) := by
    rw [get?_inverse_append hmcp, lookup_reverse (hkeys ▸ htargets)]
  refine ⟨?at_pair, ?elsewhere⟩
  case at_pair =>
    rintro ⟨p, q⟩ hpair
    obtain ⟨s, hp, hq⟩ := exists_of_mem_zip hsources hpair
    have hlookup : lookup p (ps.map Prod.swap) = some s :=
      (mem_iff_lookup p s (hkeys ▸ htargets)).mp (List.mem_map.mpr ⟨(s, p), hp, rfl⟩)
    rw [get?_chain_drop, hinverse, hlookup, Option.some_or]
    exact hyarn.at_pair (s, q) hq
  case elsewhere =>
    intro name hname
    have hlength : ps.length = qs.length := by simpa using congrArg List.length hsources
    rw [List.map_fst_zip (by simp [hlength])] at hname
    have hlookup : lookup name (ps.map Prod.swap) = none :=
      (lookup_eq_none_iff _ _).mpr (hkeys ▸ hname)
    rw [get?_chain_drop, get?_chain_drop, hinverse, hlookup, Option.none_or]
    exact Option.bind_congr fun o ho => get?_overlaid_of_inverse hyarn hsources hnew ho

/-- The pairs of a bridge stand at its end, if none of their names was there. -/
theorem entries_overlaid_bridge (hmcp : mcp'.entries = mcp.entries ++ ps)
    (hyarn : Overlaid qs yarn yarn') (hsources : ps.map Prod.fst = qs.map Prod.fst)
    (htargets : (ps.map Prod.snd).Nodup) (hnew : ∀ s ∈ ps.map Prod.fst, s ∉ mcp.keys)
    (hfresh : ∀ p ∈ ps.map Prod.snd, p ∉ mcp.values) :
    (mcp'.inverse.chain yarn' .drop).entries
      = (mcp.inverse.chain yarn .drop).entries ++ (ps.map Prod.snd).zip (qs.map Prod.snd) := by
  rw [entries_chain_drop, entries_chain_drop, entries_inverse_append hmcp htargets hfresh,
    List.filterMap_append]
  -- the entries that were there go where they went, and those of the patch to one another
  congr 1
  · refine List.filterMap_congr fun e he => ?_
    rw [get?_overlaid_of_inverse hyarn hsources hnew ((mem_entries_iff _ e.1 e.2).mp he)]
  · exact filterMap_swap_eq_zip hsources hyarn.at_pair

end NameTable

/-! ## Patches -/

namespace ClassPatch

/-- The names that a patch gives entries. -/
def sources (patch : ClassPatch) : List String := patch.entries.map Prod.fst

/-- What the entries of a patch lead to. -/
def targets (patch : ClassPatch) : List String := patch.entries.map Prod.snd

/-- The counterparts that two patches have for the same made up names. -/
def meeting (first second : ClassPatch) : List (String × String) :=
  first.targets.zip second.targets

theorem value_addEntry (classes : NameTable) (entry : String × String) :
    (addEntry classes entry).value = classes.insert entry.1 entry.2 := by
  rw [addEntry]
  cases classes.get? entry.1 <;> rfl

theorem value_foldlM_addEntry (entries : List (String × String)) (classes : NameTable) :
    (entries.foldlM addEntry classes).value
      = entries.foldl (fun t e => t.insert e.1 e.2) classes := by
  induction entries generalizing classes with
  | nil => rfl
  | cons e rest ih => rw [List.foldlM_cons, Reporting.value_bind, value_addEntry, ih, List.foldl_cons]

theorem classes_apply (patch : ClassPatch) (m : Mappings) :
    (patch.apply m).value.classes
      = patch.entries.foldl (fun t e => t.insert e.1 e.2) m.classes :=
  value_foldlM_addEntry patch.entries m.classes

/-- A patch without repeated names is laid over the classes. -/
theorem overlaid_classes_apply (patch : ClassPatch) (h : patch.sources.Nodup) (m : Mappings) :
    NameTable.Overlaid patch.entries m.classes (patch.apply m).value.classes := by
  refine NameTable.overlaid_of_get? h fun name => ?_
  rw [classes_apply]
  exact look_foldl (fun t : NameTable => t.get? name) (fun t e => t.insert e.1 e.2) name
    (fun t e => get?_insert t e.1 name e.2) m.classes patch.entries

/-- A patch of new names is put at the end. -/
theorem entries_classes_apply (patch : ClassPatch) (h : patch.sources.Nodup) (m : Mappings)
    (hnew : ∀ s ∈ patch.sources, s ∉ m.classes.keys) :
    (patch.apply m).value.classes.entries = m.classes.entries ++ patch.entries := by
  rw [classes_apply]
  exact entries_foldl_insert h hnew

end ClassPatch

namespace Mappings

/-- **Bridges of patched tables**: two patches with the same made up names, none of which the first
table has, bridge their counterparts and leave the bridge as it is elsewhere. So they do for the way
back, if their counterparts are new there too. -/
theorem bridgeTo_overlaid (mcp yarn : Mappings) {first second : ClassPatch}
    (hsources : first.sources = second.sources) (hdistinct : first.sources.Nodup)
    (htargets : first.targets.Nodup) (hnew : ∀ s ∈ first.sources, s ∉ mcp.classes.keys) :
    let patched := (first.apply mcp).value.bridgeTo (second.apply yarn).value
    NameTable.Overlaid (first.meeting second) (mcp.bridgeTo yarn .mcpToYarn).classes
        (patched .mcpToYarn).classes ∧
      (∀ direction, (patched direction).fields = (mcp.bridgeTo yarn direction).fields ∧
        (patched direction).methods = (mcp.bridgeTo yarn direction).methods) ∧
      ((∀ p ∈ first.targets, p ∉ mcp.classes.values) → second.targets.Nodup →
        NameTable.Overlaid (second.meeting first) (mcp.bridgeTo yarn .yarnToMcp).classes
          (patched .yarnToMcp).classes) := by
  intro patched
  have hmcp := first.entries_classes_apply hdistinct mcp hnew
  have hyarn := second.overlaid_classes_apply (hsources ▸ hdistinct) yarn
  refine ⟨NameTable.overlaid_bridge hmcp hyarn hsources htargets hnew, ?members, ?back⟩
  case members =>
    intro direction
    cases direction <;> exact ⟨rfl, rfl⟩
  case back =>
    intro hfresh hdistinctTargets
    have hentries :=
      NameTable.entries_overlaid_bridge hmcp hyarn hsources htargets hnew hfresh
    have hlength : first.entries.length = second.entries.length := by
      simpa [ClassPatch.sources] using congrArg List.length hsources
    have hswap : (first.meeting second).map Prod.swap = second.meeting first :=
      List.zip_swap _ _
    have hkeys : (second.meeting first).map Prod.fst = second.targets :=
      List.map_fst_zip (by simp [ClassPatch.targets, hlength])
    refine NameTable.overlaid_of_get? (hkeys ▸ hdistinctTargets) fun name => ?_
    rw [← hswap]
    exact NameTable.get?_inverse_append hentries name

/-- Two classes under their MCP names. -/
def markedMcp : Mappings := { classes := .ofPairs [("a", "net/A"), ("b", "net/B")] }

/-- The same classes, one of them under the yarn name of a marker, and a class that has the made up
name of a marker. -/
def markedYarn : Mappings :=
  { classes := .ofPairs [("O_O", "y/Face"), ("a", "y/Alpha"), ("b", "net/fabricmc/api/EnvType")] }

theorem bridgeTo_overlaid_side_markers :
    let patched := (ClassPatch.forgeSideMarkers.apply markedMcp).value.bridgeTo
      (ClassPatch.fabricSideMarkers.apply markedYarn).value
    (∀ s ∈ ClassPatch.forgeSideMarkers.sources, s ∉ markedMcp.classes.keys) ∧
      (∀ p ∈ ClassPatch.forgeSideMarkers.targets, p ∉ markedMcp.classes.values) ∧
      (patched .mcpToYarn).classes.get? "net/minecraftforge/api/distmarker/Dist"
        = some "net/fabricmc/api/EnvType" ∧
      (patched .mcpToYarn).classes.get? "net/B" = some "net/fabricmc/api/EnvType" ∧
      (patched .yarnToMcp).classes.get? "net/fabricmc/api/EnvType"
        = some "net/minecraftforge/api/distmarker/Dist" ∧
      (patched .yarnToMcp).classes.get? "y/Alpha" = some "net/A" := by
  intro patched
  have hnew : ∀ s ∈ ClassPatch.forgeSideMarkers.sources, s ∉ markedMcp.classes.keys := by decide
  have hfresh : ∀ p ∈ ClassPatch.forgeSideMarkers.targets, p ∉ markedMcp.classes.values := by
    decide
  have hsources : ClassPatch.forgeSideMarkers.sources = ClassPatch.fabricSideMarkers.sources := by
    decide
  obtain ⟨hforward, -, hback⟩ :=
    bridgeTo_overlaid markedMcp markedYarn hsources (by decide) (by decide) hnew
  have hbackward := hback hfresh (by decide)
  refine ⟨hnew, hfresh, ?dist, ?b, ?envType, ?alpha⟩
  case dist => exact hforward.at_pair (_, _) (by decide)
  case b => exact (hforward.elsewhere _ (by decide)).trans (by decide)
  case envType => exact hbackward.at_pair (_, _) (by decide)
  case alpha => exact (hbackward.elsewhere _ (by decide)).trans (by decide)

end Mappings

end Namebridge
