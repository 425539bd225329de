import Namebridge.Proofs.Bridge

/-!
# The algebra of tables

Tables are turned around and chained like relations, as long as nothing is kept for want of a
continuation and no two names have one counterpart.

Turning a chain around is chaining the inverses in the other order, if the counterparts of the
second table are distinct (`inverse_chain_agrees`). The first table may have ties: whichever of its
names is the last one for a counterpart is so with the continuation too (`lastKey_chain_drop`).

Chains that drop entries can be bracketed at will. Chains that keep them cannot, since a name that
passes the second table by can meet an entry of the third (`chain_associates`).

To turn a table around twice is to keep the last name of each counterpart. Nothing more is lost by
turning it around again, and nothing at all if there are no ties (`inverse_retracts`).
-/

namespace Namebridge

namespace NameTable

open OrderedMap

variable {a b c : NameTable}

/-! ## A chain turned around -/

/-- The counterparts in a chain are the continuations of those before. -/
theorem map_snd_continued (t : NameTable) (es : List (String × String)) :
    (es.filterMap fun e => (t.get? e.2).map (e.1, ·)).map Prod.snd
      = (es.map Prod.snd).filterMap t.get? := by
  rw [List.map_filterMap, List.filterMap_map]
  refine List.filterMap_congr fun e _ => ?_
  rw [Option.map_map]
  exact Option.map_id'

/-- The last name that goes to `z` by way of a chain is the last one for what goes on to `z`. -/
theorem lastKey_chain_drop (h : b.values.Nodup) (z name : String) :
    (a.chain b .drop).LastKey z name ↔ ∃ y, b.get? y = some z ∧ a.LastKey y name := by
  rw [LastKey, entries_chain_drop]
  constructor
  · intro hlast
    obtain ⟨before, after, hentries, hafter⟩ := hlast
    obtain ⟨es, fs, hes, rfl, hfs⟩ := List.filterMap_eq_append_iff.mp hentries
    obtain ⟨dropped, ⟨_, y⟩, rest, rfl, -, hy, rfl⟩ := List.filterMap_eq_cons_iff.mp hfs
    obtain ⟨_, hz, heq⟩ := Option.map_eq_some_iff.mp hy
    cases heq
    rw [map_snd_continued, List.mem_filterMap] at hafter
    refine ⟨y, hz, es ++ dropped, rest, by rw [hes, List.append_assoc], ?_⟩
    intro hmem
    exact hafter ⟨y, hmem, hz⟩
  · intro hparts
    obtain ⟨y, hz, before, after, hentries, hafter⟩ := hparts
    refine ⟨_, _, by rw [hentries, List.filterMap_append,
      List.filterMap_cons_some (b := (name, z)) (by rw [hz]; rfl)], ?_⟩
    rw [map_snd_continued, List.mem_filterMap]
    rintro ⟨y', hmem, hz'⟩
    obtain rfl := (nodup_values_iff b).mp h y' y z hz' hz
    exact hafter hmem

/-- Ties in the first table are decided alike before and after the second one drops entries. -/
theorem agrees_inverse_chain (a : NameTable) (h : b.values.Nodup) :
    (a.chain b .drop).inverse.Agrees (b.inverse.chain a.inverse .drop) := by
  intro z
  refine Option.ext fun name => ?_
  rw [get?_inverse_eq_some_iff, lastKey_chain_drop h, get?_chain_drop, Option.bind_eq_some_iff]
  simp only [get?_inverse_eq_some_iff, lastKey_iff_get? h]

/-! ## Turned around twice -/

/-- A name has one counterpart, so names for different counterparts differ. -/
theorem nodup_values_inverse (t : NameTable) : t.inverse.values.Nodup := by
  rw [nodup_values_iff]
  intro v w name hv hw
  rw [get?_inverse_eq_some_iff] at hv hw
  exact Option.some.inj (hv.get?.symm.trans hw.get?)

/-- The last name of each counterpart is left. -/
theorem mem_entries_inverse_inverse_iff (t : NameTable) (name value : String) :
    (name, value) ∈ t.inverse.inverse.entries ↔ t.LastKey value name := by
  rw [mem_entries_iff, get?_inverse_eq_some_iff, lastKey_iff_get? (nodup_values_inverse t),
    get?_inverse_eq_some_iff]

/-- What is left stands where its counterpart first occurred. -/
theorem values_inverse_inverse (t : NameTable) :
    t.inverse.inverse.values = t.values.eraseDups := by
  rw [values, entries_inverse (nodup_values_inverse t), List.map_map, ← keys_inverse]
  rfl

theorem inverse_inverse_inverse (t : NameTable) : t.inverse.inverse.inverse = t.inverse :=
  inverse_inverse (nodup_values_inverse t)

/-- Tables that agree have the same ties. -/
theorem nodup_values_of_agrees {s t : NameTable} (h : s.Agrees t) (hs : s.values.Nodup) :
    t.values.Nodup := by
  rw [nodup_values_iff] at hs ⊢
  simpa only [h _] using hs

theorem agrees_inverse_inverse_iff (t : NameTable) :
    t.inverse.inverse.Agrees t ↔ t.values.Nodup := by
  constructor
  · intro h
    exact nodup_values_of_agrees h (nodup_values_inverse t.inverse)
  · intro h name
    rw [inverse_inverse h]

theorem inverse_inverse_eq_iff (t : NameTable) :
    t.inverse.inverse = t ↔ t.values.Nodup := by
  refine ⟨fun h => ?_, inverse_inverse⟩
  rw [← agrees_inverse_inverse_iff, h]
  exact fun _ => rfl

/-! ## Renaming along chains and back -/

/-- To rename along a chain is to rename twice, except for a name that the second table changes and
the first one does not have. -/
theorem rename_chain_keep_iff (s t : NameTable) (name : String) :
    (s.chain t .keep).rename name = t.rename (s.rename name)
      ↔ (name ∉ s.keys → t.rename name = name) := by
  rw [← get?_eq_none_iff]
  cases h : s.get? name with
  | none =>
      have hchain : (s.chain t .keep).get? name = none := by
        rw [get?_chain_keep, h, Option.map_none]
      rw [rename_of_get?_eq_none h, rename_of_get?_eq_none hchain]
      simp [eq_comm]
  | some middle =>
      have hchain : (s.chain t .keep).get? name = some (t.rename middle) := by
        rw [get?_chain_keep, h, Option.map_some]
      rw [rename_of_get? h, rename_of_get? hchain]
      simp

/-- Renaming goes back, except for a name that is only a counterpart. -/
theorem rename_inverse_rename {t : NameTable} (h : t.values.Nodup) {name : String}
    (hname : name ∈ t.keys ∨ name ∉ t.values) : t.inverse.rename (t.rename name) = name := by
  cases hget : t.get? name with
  | none =>
      have hvalues : name ∉ t.values := hname.resolve_left ((get?_eq_none_iff t name).mp hget)
      rw [rename_of_get?_eq_none hget]
      refine rename_of_not_mem ?_
      rwa [keys_inverse, List.mem_eraseDups]
  | some target =>
      rw [rename_of_get? hget]
      refine rename_of_get? ?_
      rw [get?_inverse_eq_some_iff, lastKey_iff_get? h, hget]

/-! ## Three tables -/

theorem chain_drop_assoc (a b c : NameTable) :
    (a.chain b .drop).chain c .drop = a.chain (b.chain c .drop) .drop := by
  rw [chain_drop_eq _ c, chain_drop_eq a b, filterMap_filterMap, chain_drop_eq a]
  refine congrArg a.filterMap ?_
  funext _ middle
  exact (get?_chain_drop b c middle).symm

/-- What goes past `b` goes past `c` too, or `c` leaves it as it is. -/
def PassesBoth (a b c : NameTable) : Prop :=
  ∀ y ∈ a.values, y ∉ b.keys → y ∉ c.keys ∨ c.get? y = some y

theorem passesBoth_iff (a b c : NameTable) :
    PassesBoth a b c ↔ ∀ y ∈ a.values, (b.chain c .keep).rename y = c.rename (b.rename y) := by
  simp only [rename_chain_keep_iff, rename_eq_self_iff]
  exact Iff.rfl

theorem chain_keep_assoc (h : PassesBoth a b c) :
    (a.chain b .keep).chain c .keep = a.chain (b.chain c .keep) .keep := by
  rw [passesBoth_iff] at h
  rw [chain_keep_eq _ c, chain_keep_eq a b, filterMap_filterMap, chain_keep_eq a]
  refine OrderedMap.ext (List.filterMap_congr fun e he => ?_)
  have hvalue : e.2 ∈ a.values := List.mem_map.mpr ⟨e, he, rfl⟩
  simp only [h e.2 hvalue, Option.bind_some]

/-- It is enough that the same is found, whatever the order. -/
theorem passesBoth_of_agrees
    (h : ((a.chain b .keep).chain c .keep).Agrees (a.chain (b.chain c .keep) .keep)) :
    PassesBoth a b c := by
  rw [passesBoth_iff]
  intro y hy
  obtain ⟨name, hname⟩ := (mem_values_iff a y).mp hy
  have hget := h name
  rw [get?_chain_keep, get?_chain_keep, get?_chain_keep, hname] at hget
  exact (Option.some.inj hget).symm

end NameTable

namespace Mappings

/-! ## Both directions of a bridge -/

/-- **Directions**: a chain turned around agrees with the chain of the inverses in the other order,
if the counterparts of the second mapping are distinct. So the two directions of a bridge are the
same from either side, if those of both mappings are, and one direction leads back where the other
one came from. -/
theorem inverse_chain_agrees (mcp yarn : Mappings) (hyarn : yarn.OneToOne) :
    (mcp.chain yarn .drop).inverse.agrees (yarn.inverse.chain mcp.inverse .drop) = true ∧
    (mcp.OneToOne →
      (mcp.bridgeTo yarn .yarnToMcp).agrees (yarn.bridgeTo mcp .mcpToYarn) = true) ∧
    ∀ kind m y, ((mcp.bridgeTo yarn .mcpToYarn).table kind).get? m = some y
      ↔ ((mcp.bridgeTo yarn .yarnToMcp).table kind).get? y = some m := by
  refine ⟨(agrees_iff _ _).mpr fun kind => ?chains,
    fun hmcp => (agrees_iff _ _).mpr fun kind => ?sides, fun kind m y => ?back⟩
  case chains =>
    simp only [table_inverse, table_chain]
    exact NameTable.agrees_inverse_chain (mcp.table kind) (hyarn kind)
  case sides =>
    have hagrees := NameTable.agrees_inverse_chain (mcp.table kind).inverse (hyarn kind)
    rw [NameTable.inverse_inverse (hmcp kind)] at hagrees
    simpa only [bridgeTo, bridge, table_inverse, table_chain] using hagrees
  case back =>
    simp only [bridgeTo, bridge, table_inverse, table_chain]
    exact (NameTable.get?_bridge_inverse_iff (mcp.table kind) (hyarn kind) m y).symm

/-- MCP names of two obfuscated classes, of a field, and of a class that has no yarn name. -/
def mcpNames : Mappings :=
  { classes := .ofPairs [("a", "mcp/Entity"), ("c", "mcp/OnlyMcp"), ("b", "mcp/Item")]
    fields := .ofPairs [("a:f", "mcp/Entity:posX")] }

/-- Yarn names of the same two classes, of the field, and of a class that has no MCP name. -/
def yarnNames : Mappings :=
  { classes := .ofPairs [("b", "yarn/Thing"), ("d", "yarn/OnlyYarn"), ("a", "yarn/Mob")]
    fields := .ofPairs [("a:f", "yarn/Mob:x")] }

/-- Two names for one obfuscated class, of which `q` is the later. -/
def tiedNames : Mappings := { classes := .ofPairs [("p", "a"), ("q", "a"), ("r", "c")] }

theorem inverse_chain_agrees_tied :
    yarnNames.OneToOne ∧ mcpNames.OneToOne ∧
    (tiedNames.chain yarnNames .drop).inverse.agrees
      (yarnNames.inverse.chain tiedNames.inverse .drop) = true ∧
    (tiedNames.chain yarnNames .drop).inverse.classes.entries = [("yarn/Mob", "q")] ∧
    (mcpNames.bridgeTo yarnNames .yarnToMcp).agrees
      (yarnNames.bridgeTo mcpNames .mcpToYarn) = true ∧
    ((mcpNames.bridgeTo yarnNames .yarnToMcp).table .fields).get? "yarn/Mob:x"
      = some "mcp/Entity:posX" := by
  have hyarn : yarnNames.OneToOne := by
    intro kind
    cases kind <;> decide
  have hmcp : mcpNames.OneToOne := by
    intro kind
    cases kind <;> decide
  obtain ⟨-, hsides, hback⟩ := inverse_chain_agrees mcpNames yarnNames hyarn
  refine ⟨hyarn, hmcp, ?tied, by decide, hsides hmcp, ?field⟩
  case tied => exact (inverse_chain_agrees tiedNames yarnNames hyarn).1
  case field => exact (hback .fields "mcp/Entity:posX" "yarn/Mob:x").mp (by decide)

/-- Where `x` and `y` go to one name, the last of them and the last name that goes on there are
different ones. -/
example :
    let a : NameTable := .ofPairs [("p", "x"), ("q", "y")]
    let b : NameTable := .ofPairs [("y", "z"), ("x", "z")]
    (a.chain b .drop).inverse.get? "z" = some "q" ∧
      (b.inverse.chain a.inverse .drop).get? "z" = some "p" := by
  decide

/-! ## A mapping turned around twice -/

/-- **Retraction**: turned around, a mapping is one-to-one. Turned around twice, each of its tables
has the last name of each counterpart left, in the place of the first one, and turned around once
more it is as after the first time. Exactly the tables without ties have their entries again, and
they have them in the same order. -/
theorem inverse_retracts (m : Mappings) :
    m.inverse.OneToOne ∧ m.inverse.inverse.inverse = m.inverse ∧
    (m.inverse.inverse.agrees m = true ↔ m.OneToOne) ∧ (m.inverse.inverse = m ↔ m.OneToOne) ∧
    ∀ kind, (∀ name value, (name, value) ∈ (m.inverse.inverse.table kind).entries
        ↔ (m.table kind).LastKey value name) ∧
      (m.inverse.inverse.table kind).values = (m.table kind).values.eraseDups ∧
      ((m.inverse.inverse.table kind).agrees (m.table kind) = true
        ↔ (m.table kind).values.Nodup) ∧
      (m.inverse.inverse.table kind = m.table kind ↔ (m.table kind).values.Nodup) := by
  have htable (kind : SymbolKind) :
      m.inverse.inverse.table kind = (m.table kind).inverse.inverse := by
    rw [table_inverse, table_inverse]
  simp only [eq_iff_tables, agrees_iff, htable]
  refine ⟨fun kind => ?one_to_one, fun kind => ?stable, ?agrees, ?same, fun kind =>
    ⟨fun name value => ?left, ?places, ?table_agrees, ?table_same⟩⟩
  case one_to_one =>
    rw [table_inverse]
    exact NameTable.nodup_values_inverse (m.table kind)
  case stable =>
    rw [table_inverse, htable, table_inverse]
    exact NameTable.inverse_inverse_inverse (m.table kind)
  case agrees => exact forall_congr' fun kind => NameTable.agrees_inverse_inverse_iff _
  case same => exact forall_congr' fun kind => NameTable.inverse_inverse_eq_iff _
  case left => exact NameTable.mem_entries_inverse_inverse_iff _ name value
  case places => exact NameTable.values_inverse_inverse _
  case table_agrees =>
    rw [OrderedMap.agrees_iff]
    exact NameTable.agrees_inverse_inverse_iff _
  case table_same => exact NameTable.inverse_inverse_eq_iff _

/-- The second name of `x` is left, in the place of the first. -/
example :
    let t : NameTable := .ofPairs [("p", "x"), ("q", "y"), ("r", "x")]
    t.inverse.inverse.entries = [("r", "x"), ("q", "y")] ∧ ¬ t.inverse.inverse.Agrees t := by
  intro t
  rw [NameTable.agrees_inverse_inverse_iff]
  decide

/-! ## Chains of three mappings -/

/-- **Brackets**: chains that drop entries are associative. Chains that keep them are so exactly if
nothing that goes past the second mapping is changed by the third. Either way the names stand in
the order in which they stood, and none is lost if entries are kept. -/
theorem chain_associates (a b c : Mappings) :
    (a.chain b .drop).chain c .drop = a.chain (b.chain c .drop) .drop ∧
    ((a.chain b .keep).chain c .keep = a.chain (b.chain c .keep) .keep
      ↔ ∀ kind, (a.table kind).PassesBoth (b.table kind) (c.table kind)) ∧
    (((a.chain b .keep).chain c .keep).agrees (a.chain (b.chain c .keep) .keep) = true
      ↔ ∀ kind, (a.table kind).PassesBoth (b.table kind) (c.table kind)) ∧
    ∀ kind, ((a.chain b .drop).table kind).keys.Sublist (a.table kind).keys ∧
      ((a.chain b .keep).table kind).keys = (a.table kind).keys := by
  simp only [eq_iff_tables, agrees_iff, table_chain]
  refine ⟨fun kind => ?drop, ⟨fun h kind => ?passes, fun h kind => ?keep⟩,
    ⟨fun h kind => ?passes_agreed, fun h kind => ?keep_agreed⟩, fun kind => ⟨?order, ?none_lost⟩⟩
  case drop => exact NameTable.chain_drop_assoc _ _ _
  case passes => exact NameTable.passesBoth_of_agrees fun name => by rw [h kind]
  case keep => exact NameTable.chain_keep_assoc (h kind)
  case passes_agreed => exact NameTable.passesBoth_of_agrees (h kind)
  case keep_agreed =>
    rw [NameTable.chain_keep_assoc (h kind)]
    exact fun _ => rfl
  case order => exact NameTable.keys_chain _ _ _
  case none_lost => exact NameTable.keys_chain_keep _ _

/-- What goes past an empty table goes on by the third one, but not if these two are chained
first. -/
example :
    let a : NameTable := .ofPairs [("x", "y")]
    let c : NameTable := .ofPairs [("y", "z")]
    ((a.chain .empty .keep).chain c .keep).entries = [("x", "z")] ∧
      (a.chain (.chain .empty c .keep) .keep).entries = [("x", "y")] := by
  decide

end Mappings

end Namebridge
