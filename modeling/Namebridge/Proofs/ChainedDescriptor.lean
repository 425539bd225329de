import Namebridge.Proofs.Descriptor
import Namebridge.Proofs.TableAlgebra

/-!
# Descriptors along chains and back

What a renaming writes is read again by the next one. A new class name may have an `L` or a
parenthesis, and may be the name of another class: as long as it has no semicolon it is read as what
it was written for. So descriptors follow the tables, along a chain and back
(`descriptor_follows_tables`).
-/

namespace Namebridge

/-- A descriptor that is renamed twice is renamed by both renamings at once. -/
theorem Descriptor.rename_rename {f g : String → String} {d renamed : String}
    (h : rename f d = .ok renamed) (hplain : ∀ c ∈ classNames d, ';' ∉ (f c).toList) :
    rename g renamed = rename (g ∘ f) d := by
  rw [← rename_bind_rename hplain, h]
  rfl

namespace Mappings

/-- **Descriptors along chains and back**: a descriptor renamed by one mapping and then by another
is renamed by the chain of both, and the inverse of a mapping with distinct classes takes back what
the mapping did. A class that the first mapping does not have must have no entry in the second one,
and no name that the first one gives. -/
theorem descriptor_follows_tables (m n : Mappings) (d renamed : String)
    (h : Descriptor.rename m.className d = .ok renamed)
    (hplain : ∀ c ∈ Descriptor.classNames d, ∀ target, m.class? c = some target →
      ';' ∉ target.toList) :
    ((∀ c ∈ Descriptor.classNames d, c ∈ m.classes.keys ∨ c ∉ n.classes.keys) →
      Descriptor.rename n.className renamed = Descriptor.rename (m.chain n .keep).className d) ∧
    (m.classes.values.Nodup →
      (∀ c ∈ Descriptor.classNames d, c ∈ m.classes.keys ∨ c ∉ m.classes.values) →
      Descriptor.rename m.inverse.className renamed = .ok d) := by
  have hnames : ∀ c ∈ Descriptor.classNames d, ';' ∉ (m.className c).toList := fun c hc =>
    NameTable.not_mem_rename_of_get? (hplain c hc) (Descriptor.not_mem_of_mem_classNames hc)
  constructor
  · intro hknown
    rw [Descriptor.rename_rename h hnames]
    refine Descriptor.rename_congr fun c hc => ?_
    refine ((NameTable.rename_chain_keep_iff m.classes n.classes c).mpr fun hnot => ?_).symm
    exact NameTable.rename_of_not_mem ((hknown c hc).resolve_left hnot)
  · intro hdistinct hknown
    have hclosed : ¬ Descriptor.LeavesOpen d := by
      intro hopen
      rw [(Descriptor.rename_eq_error_iff m.className d ⟨d⟩).mpr ⟨hopen, rfl⟩] at h
      cases h
    rw [Descriptor.rename_rename h hnames]
    refine Descriptor.rename_eq_self (fun c hc => ?_) hclosed
    exact NameTable.rename_inverse_rename hdistinct (hknown c hc)

/-- A class whose new name looks like part of a descriptor, and one that takes its old name. -/
def shiftedClasses : Mappings := { classes := .ofPairs [("a/B", "L(x"), ("c", "a/B")] }

/-- The same names once more under others. -/
def settledClasses : Mappings := { classes := .ofPairs [("a/B", "z"), ("L(x", "y/Y")] }

theorem descriptor_follows_shifted_classes :
    let d := "toL(La/B;[Lc;Lother;I)La/B;"
    let renamed := "toL(LL(x;[La/B;Lother;I)LL(x;"
    Descriptor.rename shiftedClasses.className d = .ok renamed ∧
    shiftedClasses.classes.values.Nodup ∧
    Descriptor.rename settledClasses.className renamed = .ok "toL(Ly/Y;[Lz;Lother;I)Ly/Y;" ∧
    Descriptor.rename shiftedClasses.inverse.className renamed = .ok d := by
  have hplain : ∀ c ∈ Descriptor.classNames "toL(La/B;[Lc;Lother;I)La/B;", ∀ target,
      shiftedClasses.class? c = some target → ';' ∉ target.toList := by
    intro c _ target htarget
    have hvalues : ∀ v ∈ shiftedClasses.classes.values, ';' ∉ v.toList := by decide
    exact hvalues target ((NameTable.mem_values_iff _ _).mpr ⟨c, htarget⟩)
  have hfollows := descriptor_follows_tables shiftedClasses settledClasses
    "toL(La/B;[Lc;Lother;I)La/B;" "toL(LL(x;[La/B;Lother;I)LL(x;" rfl hplain
  refine ⟨rfl, by decide, (hfollows.1 (by decide)).trans rfl, ?_⟩
  exact hfollows.2 (by decide) (by decide)

end Mappings

end Namebridge
