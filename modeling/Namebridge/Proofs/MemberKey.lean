import Namebridge.Name.MemberKey
import Namebridge.Proofs.Cut
import Namebridge.Proofs.Traversal

/-!
# Keys of members taken apart

A key that is made from its parts gives them back as long as the separators stand where they are
looked for: no colon in the owner, no parenthesis in the name, and one at the start of the
descriptor. Then different members have different keys.
-/

namespace Namebridge.MemberKey

variable {key owner owner' name name' descriptor descriptor' member : String}

/-- Whether a text is empty or starts like the descriptor of a method. -/
def OpensOrEmpty (descriptor : String) : Prop := ∀ c ∈ descriptor.toList.head?, c = '('

/-- Whether a text starts like the descriptor of a method. -/
def Opens (descriptor : String) : Prop := descriptor.toList.head? = some '('

instance (descriptor : String) : Decidable (Opens descriptor) :=
  inferInstanceAs (Decidable (_ = _))

theorem Opens.opensOrEmpty (h : Opens descriptor) : OpensOrEmpty descriptor := by
  intro c hc
  rw [Opens] at h
  rw [h] at hc
  exact (Option.some.inj hc).symm

theorem Opens.ne_empty (h : Opens descriptor) : descriptor ≠ "" := by
  rintro rfl
  cases h

theorem OpensOrEmpty.opens (h : OpensOrEmpty descriptor) (hne : descriptor ≠ "") :
    Opens descriptor := by
  cases hd : descriptor.toList with
  | nil => exact absurd (String.toList_eq_nil_iff.mp hd) hne
  | cons c rest =>
      have hc := h c (by simp [hd])
      rw [Opens, hd, hc]
      rfl

theorem OpensOrEmpty.opens_left (h : OpensOrEmpty (name ++ descriptor)) (hne : name ≠ "") :
    Opens name := by
  refine OpensOrEmpty.opens (fun c hc => h c ?_) hne
  rw [String.toList_append, List.head?_append, hc, Option.some_or]
  rfl

/-! ## Owner and member -/

theorem method_eq_field (owner name descriptor : String) :
    method owner name descriptor = field owner (name ++ descriptor) := by
  rw [method, field, String.append_assoc]

/-- A key has the parts that it is made of, where the owner ends at the first colon. -/
theorem split_eq_ok_iff (key owner member : String) :
    split key = .ok (owner, member) ↔ key = field owner member ∧ ':' ∉ owner.toList := by
  have hcut : Text.cutFirst? ':' key = some (owner, member) ↔ _ := Text.cutFirst?_eq_some_iff key
  rw [field, show ":" = String.ofList [':'] from rfl, ← hcut, split]
  cases Text.cutFirst? ':' key <;> simp

theorem split_field (h : ':' ∉ owner.toList) (member : String) :
    split (field owner member) = .ok (owner, member) :=
  (split_eq_ok_iff _ owner member).mpr ⟨rfl, h⟩

theorem split_method (h : ':' ∉ owner.toList) (name descriptor : String) :
    split (method owner name descriptor) = .ok (owner, name ++ descriptor) := by
  rw [method_eq_field, split_field h]

theorem field_inj (h : ':' ∉ owner.toList) (h' : ':' ∉ owner'.toList)
    (heq : field owner name = field owner' name') : owner = owner' ∧ name = name' := by
  have hsplit := split_field h name
  rw [heq, split_field h' name'] at hsplit
  cases hsplit
  exact ⟨rfl, rfl⟩

/-- A key that ends in a name does not end at its first colon. -/
theorem ne_empty_of_split_field (hname : name ≠ "")
    (h : split (field owner name) = .ok (owner', member)) : member ≠ "" := by
  rintro rfl
  obtain ⟨hkey, howner'⟩ := (split_eq_ok_iff _ _ _).mp h
  have hne : name.toList ≠ [] := fun hnil => hname (String.toList_eq_nil_iff.mp hnil)
  have hdrop : (field owner name).toList.dropLast = owner'.toList := by
    rw [hkey]
    simp [field]
  apply howner'
  rw [← hdrop, field, String.toList_append, List.dropLast_append_of_ne_nil hne]
  simp

/-! ## Keys that can be taken apart -/

/-- The class that a key names: all before the first colon. -/
def ownerPart (key : String) : String := Text.before ':' key

/-- Whether a key names a class. -/
def HasOwner (key : String) : Prop := ':' ∈ key.toList

/-- Whether a key has a parenthesis after its first colon. -/
def HasDescriptor (key : String) : Prop := '(' ∈ (Text.since ':' key).toList

instance : DecidablePred HasOwner := fun _ => inferInstanceAs (Decidable (_ ∈ _))
instance : DecidablePred HasDescriptor := fun _ => inferInstanceAs (Decidable (_ ∈ _))

theorem exists_split_iff (key : String) : (∃ parts, split key = .ok parts) ↔ HasOwner key := by
  have hnone : Text.cutFirst? ':' key = none ↔ _ := Text.cutFirst?_eq_none_iff ':' key
  rw [split, HasOwner]
  cases hcut : Text.cutFirst? ':' key with
  | none => simpa using hnone.mp hcut
  | some parts => simpa [hcut] using hnone

theorem hasOwner_field (owner member : String) : HasOwner (field owner member) := by
  simp [HasOwner, field]

theorem ownerPart_field (h : ':' ∉ owner.toList) (member : String) :
    ownerPart (field owner member) = owner := by
  rw [ownerPart, field, String.append_assoc]
  exact Text.before_append h (by simp)

theorem hasDescriptor_field (h : ':' ∉ owner.toList) (member : String) :
    HasDescriptor (field owner member) ↔ '(' ∈ member.toList := by
  rw [HasDescriptor, field, String.append_assoc, Text.since_append h (by simp)]
  simp

theorem HasDescriptor.hasOwner (h : HasDescriptor key) : HasOwner key := by
  rw [HasDescriptor] at h
  refine not_not.mp fun hnot => ?_
  rw [(Text.since_eq_empty_iff ':' key).mpr hnot] at h
  cases h

/-- A descriptor stands after the first colon of a key, whatever the owner and the name are. -/
theorem hasDescriptor_method (owner name : String) (h : Opens descriptor) :
    HasDescriptor (method owner name descriptor) := by
  have hmem : '(' ∈ (name ++ descriptor).toList := by
    rw [String.toList_append]
    exact List.mem_append_right _ (List.mem_of_head? h)
  rw [method_eq_field]
  exact Text.mem_since_append owner hmem

/-! ## Name and descriptor -/

theorem namePart_append (hname : '(' ∉ name.toList) (hdescriptor : OpensOrEmpty descriptor) :
    namePart (name ++ descriptor) = name := Text.before_append hname hdescriptor

theorem descriptorPart_append (hname : '(' ∉ name.toList) (hdescriptor : OpensOrEmpty descriptor) :
    descriptorPart (name ++ descriptor) = descriptor := Text.since_append hname hdescriptor

theorem namePart_append_descriptorPart (member : String) :
    namePart member ++ descriptorPart member = member := Text.before_append_since '(' member

theorem not_mem_namePart (member : String) : '(' ∉ (namePart member).toList :=
  Text.not_mem_before '(' member

theorem opensOrEmpty_descriptorPart (member : String) : OpensOrEmpty (descriptorPart member) :=
  Text.head?_since '(' member

/-- Nothing stands before the descriptor exactly if there is nothing else. -/
theorem namePart_eq_empty_iff (member : String) : namePart member = "" ↔ OpensOrEmpty member := by
  constructor
  · intro h
    have hparts := namePart_append_descriptorPart member
    rw [h, String.empty_append] at hparts
    rw [← hparts]
    exact opensOrEmpty_descriptorPart member
  · intro h
    exact Text.before_of_head? h

/-- Methods of one key have the same owner, name and descriptor. -/
theorem method_inj (h : ':' ∉ owner.toList) (h' : ':' ∉ owner'.toList)
    (hname : '(' ∉ name.toList) (hname' : '(' ∉ name'.toList)
    (hdescriptor : OpensOrEmpty descriptor) (hdescriptor' : OpensOrEmpty descriptor')
    (heq : method owner name descriptor = method owner' name' descriptor') :
    owner = owner' ∧ name = name' ∧ descriptor = descriptor' := by
  rw [method_eq_field, method_eq_field] at heq
  obtain ⟨howner, hmember⟩ := field_inj h h' heq
  refine ⟨howner, ?_, ?_⟩
  · rw [← namePart_append hname hdescriptor, hmember, namePart_append hname' hdescriptor']
  · rw [← descriptorPart_append hname hdescriptor, hmember,
      descriptorPart_append hname' hdescriptor']

end Namebridge.MemberKey
