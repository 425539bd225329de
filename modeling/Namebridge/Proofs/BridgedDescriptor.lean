import Namebridge.Proofs.Bridge
import Namebridge.Proofs.Descriptor

/-!
# Descriptors across a bridge

The methods of two schemes are matched by their descriptors too, so the classes in a descriptor have
to be renamed alike on every way. A class that both tables know goes by its own entries; a class
that neither knows keeps its name, as long as no other class has been given that name.
-/

namespace Namebridge

namespace NameTable

/-- Both tables have the class, or neither has it and no class of the first is renamed to it. -/
def KnownAlike (mcp yarn : NameTable) (cls : String) : Prop :=
  (cls ∈ mcp.keys ∧ cls ∈ yarn.keys) ∨ (cls ∉ mcp.keys ∧ cls ∉ yarn.keys ∧ cls ∉ mcp.values)

instance (mcp yarn : NameTable) (cls : String) : Decidable (KnownAlike mcp yarn cls) :=
  inferInstanceAs (Decidable (_ ∨ _))

/-- By way of its MCP name a class gets its yarn name. -/
theorem rename_bridge_rename {mcp yarn : NameTable} (h : mcp.values.Nodup) {cls : String}
    (hcls : KnownAlike mcp yarn cls) :
    (mcp.inverse.chain yarn .drop).rename (mcp.rename cls) = yarn.rename cls := by
  rcases hcls with ⟨hmcp, hyarn⟩ | ⟨hmcp, hyarn, hvalues⟩
  · obtain ⟨m, hm⟩ := (OrderedMap.mem_keys_iff mcp cls).mp hmcp
    obtain ⟨y, hy⟩ := (OrderedMap.mem_keys_iff yarn cls).mp hyarn
    have hbridge := get?_bridge_of_get? h yarn hm
    rw [rename_of_get? hm, rename_of_get? hy, rename_of_get? (hbridge.trans hy)]
  · rw [rename_of_not_mem hmcp, rename_of_not_mem hyarn]
    exact rename_of_get?_eq_none (get?_bridge_of_not_mem yarn hvalues)

/-- By way of its yarn name a class gets its MCP name. -/
theorem rename_bridge_inverse_rename {mcp yarn : NameTable} (hmcp : mcp.values.Nodup)
    (hyarn : yarn.values.Nodup) {cls : String} (hcls : KnownAlike mcp yarn cls)
    (hvalues : cls ∉ mcp.keys → cls ∉ yarn.values) :
    (mcp.inverse.chain yarn .drop).inverse.rename (yarn.rename cls) = mcp.rename cls := by
  rcases hcls with ⟨hm, hy⟩ | ⟨hm, hy, -⟩
  · obtain ⟨m, hm⟩ := (OrderedMap.mem_keys_iff mcp cls).mp hm
    obtain ⟨y, hy⟩ := (OrderedMap.mem_keys_iff yarn cls).mp hy
    rw [rename_of_get? hm, rename_of_get? hy,
      rename_of_get? (get?_bridge_inverse_of_get? hmcp hyarn hm hy)]
  · rw [rename_of_not_mem hm, rename_of_not_mem hy]
    exact rename_of_get?_eq_none (get?_bridge_inverse_of_not_mem mcp (hvalues hm))

end NameTable

/-! ## Descriptors -/

/-- Renaming by two tables in turn is renaming by a third one, if it is for each class name. -/
theorem Descriptor.rename_bind_rename_eq {first second both : NameTable} {d : String}
    (hfirst : ∀ v ∈ first.values, ';' ∉ v.toList)
    (h : ∀ c ∈ classNames d, second.rename (first.rename c) = both.rename c) :
    (rename first.rename d >>= rename second.rename) = rename both.rename d := by
  have hlegible : ∀ c ∈ classNames d, ';' ∉ (first.rename c).toList := fun c hc =>
    NameTable.not_mem_rename hfirst (not_mem_of_mem_classNames hc)
  rw [rename_bind_rename hlegible]
  exact rename_congr h

/-- **Descriptors across a bridge**: a descriptor whose classes both tables know alike gets the same
yarn form by way of its MCP form as directly, and the same MCP form by way of its yarn form. -/
theorem Mappings.descriptor_bridgeTo (mcp yarn : Mappings) (d : String)
    (hdistinct : mcp.classes.values.Nodup) (hplain : ∀ m ∈ mcp.classes.values, ';' ∉ m.toList)
    (hknown : ∀ c ∈ Descriptor.classNames d, mcp.classes.KnownAlike yarn.classes c) :
    (Descriptor.rename mcp.classes.rename d >>=
        Descriptor.rename (mcp.bridgeTo yarn .mcpToYarn).classes.rename)
      = Descriptor.rename yarn.classes.rename d ∧
    (yarn.classes.values.Nodup → (∀ y ∈ yarn.classes.values, ';' ∉ y.toList) →
      (∀ c ∈ Descriptor.classNames d, c ∉ mcp.classes.keys → c ∉ yarn.classes.values) →
      (Descriptor.rename yarn.classes.rename d >>=
          Descriptor.rename (mcp.bridgeTo yarn .yarnToMcp).classes.rename)
        = Descriptor.rename mcp.classes.rename d) := by
  constructor
  · refine Descriptor.rename_bind_rename_eq hplain fun c hc => ?_
    exact NameTable.rename_bridge_rename hdistinct (hknown c hc)
  · intro hdistinctYarn hplainYarn hvalues
    refine Descriptor.rename_bind_rename_eq hplainYarn fun c hc => ?_
    exact NameTable.rename_bridge_inverse_rename hdistinct hdistinctYarn (hknown c hc)
      (hvalues c hc)

namespace Mappings

/-- Two classes under their MCP names. -/
def twoMcpClasses : Mappings := { classes := .ofPairs [("a/B", "mcp/Entity"), ("c", "mcp/Item")] }

/-- The same two classes under their yarn names, in the other order. -/
def twoYarnClasses : Mappings := { classes := .ofPairs [("c", "yarn/Thing"), ("a/B", "yarn/Mob")] }

theorem descriptor_bridgeTo_two_classes :
    let d := "([La/B;Ljava/lang/Object;IL;)Lc;"
    twoMcpClasses.classes.values.Nodup ∧ twoYarnClasses.classes.values.Nodup ∧
    (∀ m ∈ twoMcpClasses.classes.values, ';' ∉ m.toList) ∧
    (∀ y ∈ twoYarnClasses.classes.values, ';' ∉ y.toList) ∧
    (∀ c ∈ Descriptor.classNames d, twoMcpClasses.classes.KnownAlike twoYarnClasses.classes c) ∧
    (Descriptor.rename twoMcpClasses.classes.rename d >>=
        Descriptor.rename (twoMcpClasses.bridgeTo twoYarnClasses .mcpToYarn).classes.rename)
      = .ok "([Lyarn/Mob;Ljava/lang/Object;IL;)Lyarn/Thing;" ∧
    (Descriptor.rename twoYarnClasses.classes.rename d >>=
        Descriptor.rename (twoMcpClasses.bridgeTo twoYarnClasses .yarnToMcp).classes.rename)
      = .ok "([Lmcp/Entity;Ljava/lang/Object;IL;)Lmcp/Item;" := by
  have h := descriptor_bridgeTo twoMcpClasses twoYarnClasses "([La/B;Ljava/lang/Object;IL;)Lc;"
    (by decide) (by decide) (by decide)
  refine ⟨by decide, by decide, by decide, by decide, by decide, h.1.trans rfl, ?_⟩
  exact (h.2 (by decide) (by decide) (by decide)).trans rfl

end Mappings

end Namebridge
