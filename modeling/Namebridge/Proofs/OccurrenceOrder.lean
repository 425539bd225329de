import Namebridge.Proofs.Inheritance
import Namebridge.Proofs.Splice

/-!
# Occurrences in another order

Renaming takes the occurrences in the order of their places and compares each of them with its
neighbour only. Occurrences that are not empty have a neighbour to overlap with if any two of them
overlap at all (`isChain_iff_pairwise_not_overlaps`). Without an overlap no two of them start at one
place, so that there is only one order to take them in, however they are listed
(`inOrder_eq_of_perm`). So the list says which occurrences there are, and its order says nothing:
`apply_perm`.
-/

namespace Namebridge

/-! ## Places in common -/

namespace Occurrence

variable {a b c : Occurrence}

/-- There is a byte that both occurrences take up. -/
def Overlaps (a b : Occurrence) : Prop :=
  ∃ place, (a.first ≤ place ∧ place < a.last) ∧ b.first ≤ place ∧ place < b.last

/-- An occurrence that is not empty ends before the other one starts. -/
def Precedes (a b : Occurrence) : Prop := a.first < a.last ∧ a.last ≤ b.first

instance : Trans Precedes Precedes Precedes where
  trans := by
    intro a b c hab hbc
    exact ⟨hab.1, by have := hab.2; have := hbc.1; have := hbc.2; omega⟩

theorem Precedes.asymm (hab : a.Precedes b) : ¬ b.Precedes a := by
  intro hba
  have := hab.1
  have := hab.2
  have := hba.1
  have := hba.2
  omega

theorem Overlaps.symm (h : a.Overlaps b) : b.Overlaps a := by
  obtain ⟨place, ha, hb⟩ := h
  exact ⟨place, hb, ha⟩

theorem Precedes.not_overlaps (h : a.Precedes b) : ¬ a.Overlaps b := by
  intro hoverlaps
  obtain ⟨place, ⟨-, ha⟩, hb, -⟩ := hoverlaps
  have := h.2
  omega

/-- An occurrence overlaps with every one that starts inside of it and is not empty. -/
theorem precedes_of_not_overlaps (ha : a.first < a.last) (hb : b.first < b.last)
    (hle : a.first ≤ b.first) (h : ¬ a.Overlaps b) : a.Precedes b := by
  refine ⟨ha, Nat.le_of_not_lt fun hlt => h ?_⟩
  exact ⟨b.first, ⟨hle, hlt⟩, Nat.le_refl _, hb⟩

end Occurrence

namespace Splice

open Occurrence

variable {r : Renamer} {text : String} {occurrences listed : List Occurrence}

/-! ## Neighbours are enough -/

/-- In the order of places, all occurrences precede those behind them if none overlap. -/
theorem pairwise_precedes (hne : ∀ o ∈ occurrences, o.first < o.last)
    (hsorted : occurrences.Pairwise fun a b => a.first ≤ b.first)
    (hapart : occurrences.Pairwise fun a b => ¬ a.Overlaps b) : occurrences.Pairwise Precedes :=
  (hsorted.and hapart).imp_of_mem fun ha hb h =>
    precedes_of_not_overlaps (hne _ ha) (hne _ hb) h.1 h.2

/-- In the order of places, no two occurrences overlap if no neighbours do. -/
theorem isChain_iff_pairwise_not_overlaps (hne : ∀ o ∈ occurrences, o.first < o.last)
    (hsorted : occurrences.Pairwise fun a b => a.first ≤ b.first) :
    (occurrences.IsChain fun a b => a.last ≤ b.first) ↔
      occurrences.Pairwise fun a b => ¬ a.Overlaps b := by
  constructor
  · intro hchain
    have hprecedes : occurrences.IsChain Precedes :=
      hchain.imp_of_mem_imp fun a b ha _ hab => ⟨hne a ha, hab⟩
    exact hprecedes.pairwise.imp Precedes.not_overlaps
  · intro hapart
    exact (pairwise_precedes hne hsorted hapart).isChain.imp fun _ _ h => h.2

theorem mem_inOrder_iff {o : Occurrence} : o ∈ inOrder occurrences ↔ o ∈ occurrences :=
  (stablySorted_inOrder occurrences).perm.mem_iff

theorem pairwise_not_overlaps_iff_of_perm (hperm : listed.Perm occurrences) :
    (listed.Pairwise fun a b => ¬ a.Overlaps b) ↔
      occurrences.Pairwise fun a b => ¬ a.Overlaps b :=
  hperm.pairwise_iff fun h hba => h hba.symm

/-! ## One order for all lists -/

/-- Occurrences that do not overlap are taken in one order, however they are listed. -/
theorem inOrder_eq_of_perm (hne : ∀ o ∈ occurrences, o.first < o.last)
    (hapart : occurrences.Pairwise fun a b => ¬ a.Overlaps b) (hperm : listed.Perm occurrences) :
    inOrder listed = inOrder occurrences := by
  have hsorted := stablySorted_inOrder occurrences
  have hsorted' := stablySorted_inOrder listed
  have hperm' : (inOrder listed).Perm occurrences := hsorted'.perm.trans hperm
  have hlisted : (inOrder listed).Pairwise Precedes :=
    pairwise_precedes (fun o ho => hne o (hperm'.mem_iff.mp ho)) hsorted'.ordered
      ((pairwise_not_overlaps_iff_of_perm hperm').mpr hapart)
  have hgiven : (inOrder occurrences).Pairwise Precedes :=
    pairwise_precedes (fun o ho => hne o (mem_inOrder_iff.mp ho)) hsorted.ordered
      ((pairwise_not_overlaps_iff_of_perm hsorted.perm).mpr hapart)
  exact List.Perm.eq_of_pairwise (fun a b _ _ hab hba => absurd hba hab.asymm) hlisted hgiven
    (hperm'.trans hsorted.perm.symm)

/-! ## Renaming -/

/-- Renaming occurrences that are not empty succeeds exactly if each of them takes up a part of the
text and no two of them overlap, in whatever order they are listed. -/
theorem exists_apply_iff (r : Renamer) (text : String)
    (hne : ∀ o ∈ occurrences, o.first < o.last) :
    (∃ renamed, (apply r text occurrences).run.value = .ok renamed) ↔
      (∀ o ∈ occurrences, o.Fits text) ∧ occurrences.Pairwise fun a b => ¬ a.Overlaps b := by
  have hsorted := stablySorted_inOrder occurrences
  have hnone : (∃ renamed, (apply r text occurrences).run.value = .ok renamed) ↔
      firstFault text 0 (inOrder occurrences) = none := by
    rw [apply_eq]
    cases firstFault text 0 (inOrder occurrences) <;> simp
  have hstart : ∀ o ∈ (inOrder occurrences).head?, 0 ≤ o.first := fun o _ => Nat.zero_le o.first
  rw [hnone, firstFault_eq_none_iff, and_iff_right hstart,
    isChain_iff_pairwise_not_overlaps (fun o ho => hne o (mem_inOrder_iff.mp ho)) hsorted.ordered,
    pairwise_not_overlaps_iff_of_perm hsorted.perm]
  simp only [mem_inOrder_iff]

/-- Two renamings end alike if both are refused, or both give the same text with the same
reports. -/
inductive EndAlike : Reporting (Except Fault String) → Reporting (Except Fault String) → Prop
  | refused {x y : Reporting (Except Fault String)} {fault fault' : Fault}
      (hx : x.value = .error fault) (hy : y.value = .error fault') : EndAlike x y
  | renamed (text : String) (events : List Event) :
      EndAlike ⟨.ok text, events⟩ ⟨.ok text, events⟩

theorem endAlike_of_ok {x : Reporting (Except Fault String)} {renamed : String}
    (h : x.value = .ok renamed) : EndAlike x x := by
  obtain ⟨value, events⟩ := x
  obtain rfl : value = .ok renamed := h
  exact .renamed renamed events

/-- **The order of the list does not matter**: occurrences that are not empty are renamed alike,
however they are listed. They are renamed exactly if each of them takes up a part of the text and no
two of them overlap. -/
theorem apply_perm (r : Renamer) (text : String) (hne : ∀ o ∈ occurrences, o.first < o.last)
    (hperm : listed.Perm occurrences) :
    EndAlike (apply r text listed).run (apply r text occurrences).run ∧
      ((∃ renamed, (apply r text occurrences).run.value = .ok renamed) ↔
        (∀ o ∈ occurrences, o.Fits text) ∧
          occurrences.Pairwise fun a b => ¬ a.Overlaps b) := by
  have hiff := exists_apply_iff r text hne
  refine ⟨?alike, hiff⟩
  case alike =>
    have hne' : ∀ o ∈ listed, o.first < o.last := fun o ho => hne o (hperm.mem_iff.mp ho)
    have hiff' := exists_apply_iff r text hne'
    rw [pairwise_not_overlaps_iff_of_perm hperm] at hiff'
    simp only [hperm.mem_iff] at hiff'
    cases hvalue : (apply r text occurrences).run.value with
    | ok renamed =>
        have hapart := (hiff.mp ⟨renamed, hvalue⟩).2
        have hsame : apply r text listed = apply r text occurrences := by
          rw [apply, apply, inOrder_eq_of_perm hne hapart hperm]
        rw [hsame]
        exact endAlike_of_ok hvalue
    | error fault =>
        cases hvalue' : (apply r text listed).run.value with
        | ok renamed =>
            obtain ⟨_, hok⟩ := hiff.mpr (hiff'.mp ⟨renamed, hvalue'⟩)
            rw [hvalue] at hok
            cases hok
        | error fault' => exact .refused hvalue' hvalue

/-- A field and a guessed method, listed from the last place to the first, next to a letter of two
bytes. -/
def backwards : List Occurrence :=
  [⟨5, 6, .method "mod/Bottom" "m" "(Z)V" false⟩, ⟨2, 4, .classNamed "mod/Unknown"⟩,
    ⟨0, 1, .field (some "mod/Bottom") "x"⟩]

/-- The guess is reported whichever occurrence is listed first. -/
theorem apply_perm_backwards :
    (∀ o ∈ backwards, o.first < o.last) ∧ backwards.reverse.Perm backwards ∧
      EndAlike (apply Renamer.diamond "x é m" backwards.reverse).run
        (apply Renamer.diamond "x é m" backwards).run ∧
      (apply Renamer.diamond "x é m" backwards).run = ⟨.ok "topX é topLong",
        [.recovered "mod/Bottom" "m" "(Z)V" "m" "(J)V" "topLong"]⟩ := by
  have hne : ∀ o ∈ backwards, o.first < o.last := by decide
  have hperm : backwards.reverse.Perm backwards := List.reverse_perm backwards
  have hprecedes : backwards.reverse.Pairwise Precedes := by simp [backwards, Precedes]
  have hapart := (pairwise_not_overlaps_iff_of_perm hperm).mp
    (hprecedes.imp Precedes.not_overlaps)
  have horder : inOrder backwards = backwards.reverse := by
    rw [← inOrder_eq_of_perm hne hapart hperm]
    exact List.mergeSort_of_pairwise (by decide)
  refine ⟨hne, hperm, (apply_perm Renamer.diamond "x é m" hne hperm).1, ?_⟩
  rw [apply, horder]
  decide +kernel

end Splice

end Namebridge
