import Mathlib.Data.Set.Function
import Namebridge.Proofs.MemberKey

/-!
# The parts of a key

Nothing is escaped in a key, so it can be read as made of other parts than it was made of. `Apart`
says when it is not: the first colon ends the owner, and the first parenthesis after it starts the
descriptor. These parts and the keys with a colon correspond to each other (`parts_eq_ok_iff`),
whatever further colons and parentheses follow.
-/

namespace Namebridge.MemberKey

/-- What the key of a member is made of. A field has the empty descriptor. -/
structure Parts where
  owner : String
  name : String
  descriptor : String
deriving DecidableEq, Repr

namespace Parts

/-- The key that is made of these parts. -/
def key (p : Parts) : String := method p.owner p.name p.descriptor

/-- Each part ends where the separator after it is first found. -/
structure Apart (p : Parts) : Prop where
  owner : ':' ∉ p.owner.toList
  name : '(' ∉ p.name.toList
  descriptor : OpensOrEmpty p.descriptor

end Parts

/-- Takes a key apart, at its first colon and at the first parenthesis after it. -/
def parts (key : String) : Except Fault Parts :=
  (split key).map fun (owner, member) => ⟨owner, namePart member, descriptorPart member⟩

variable {key owner name descriptor member : String}

/-! ## One cut after the other -/

theorem split_field_iff (owner member : String) :
    split (field owner member) = .ok (owner, member) ↔ ':' ∉ owner.toList := by
  rw [split_eq_ok_iff]
  exact and_iff_right rfl

theorem field_of_split (h : split key = .ok (owner, member)) : field owner member = key :=
  ((split_eq_ok_iff key owner member).mp h).1.symm

/-- A key is refused for nothing but a missing colon. -/
theorem split_eq_error_iff (key : String) (e : Fault) :
    split key = .error e ↔ ':' ∉ key.toList ∧ e = .noOwner key := by
  have hnone : Text.cutFirst? ':' key = none ↔ _ := Text.cutFirst?_eq_none_iff ':' key
  rw [← hnone, split]
  cases Text.cutFirst? ':' key <;> simp [eq_comm]

/-- A member has one name without a parenthesis that a descriptor, or nothing, can follow. -/
theorem member_eq_append_iff (member name descriptor : String) :
    namePart member = name ∧ descriptorPart member = descriptor ↔
      member = name ++ descriptor ∧ '(' ∉ name.toList ∧ OpensOrEmpty descriptor := by
  constructor
  · rintro ⟨rfl, rfl⟩
    exact ⟨(namePart_append_descriptorPart member).symm, not_mem_namePart member,
      opensOrEmpty_descriptorPart member⟩
  · rintro ⟨rfl, hname, hdescriptor⟩
    exact ⟨namePart_append hname hdescriptor, descriptorPart_append hname hdescriptor⟩

/-! ## Both cuts -/

/-- A key is taken apart into the one list of parts that it can be made of without ambiguity. -/
theorem parts_eq_ok_iff (key : String) (p : Parts) : parts key = .ok p ↔ p.key = key ∧ p.Apart := by
  obtain ⟨owner, name, descriptor⟩ := p
  have hkey : Parts.key ⟨owner, name, descriptor⟩ = field owner (name ++ descriptor) :=
    method_eq_field owner name descriptor
  rw [parts, Traversal.map_eq_ok_iff, hkey]
  constructor
  · rintro ⟨⟨owner', member⟩, hsplit, hparts⟩
    cases hparts
    obtain ⟨hfield, howner⟩ := (split_eq_ok_iff key owner member).mp hsplit
    obtain ⟨hmember, hname, hdescriptor⟩ := (member_eq_append_iff member _ _).mp ⟨rfl, rfl⟩
    rw [← hmember]
    exact ⟨hfield.symm, howner, hname, hdescriptor⟩
  · rintro ⟨rfl, howner, hname, hdescriptor⟩
    refine ⟨(owner, name ++ descriptor), split_field howner _, ?_⟩
    obtain ⟨hbefore, hsince⟩ :=
      (member_eq_append_iff _ name descriptor).mpr ⟨rfl, hname, hdescriptor⟩
    show Parts.mk owner _ _ = ⟨owner, name, descriptor⟩
    rw [hbefore, hsince]

theorem exists_parts_iff (key : String) : (∃ p, parts key = .ok p) ↔ HasOwner key := by
  rw [← exists_split_iff, parts]
  cases split key <;> simp [Except.map]

/-- Parts and keys correspond to each other, one to one. -/
theorem bijOn_key : Set.BijOn Parts.key {p | p.Apart} {key | HasOwner key} := by
  refine ⟨?mapsTo, ?injOn, ?surjOn⟩
  case mapsTo =>
    intro p hp
    exact (exists_parts_iff p.key).mp ⟨p, (parts_eq_ok_iff p.key p).mpr ⟨rfl, hp⟩⟩
  case injOn =>
    intro p hp q hq hkey
    have hparts := (parts_eq_ok_iff q.key p).mpr ⟨hkey, hp⟩
    rw [(parts_eq_ok_iff q.key q).mpr ⟨rfl, hq⟩] at hparts
    exact (Except.ok.inj hparts).symm
  case surjOn =>
    intro key hkey
    obtain ⟨p, hp⟩ := (exists_parts_iff key).mpr hkey
    obtain ⟨heq, hapart⟩ := (parts_eq_ok_iff key p).mp hp
    exact ⟨p, hapart, heq⟩

/-- **Keys are unambiguous**: a key gives back the parts it is made of exactly if they stand apart,
so that parts which stand apart and have one key are the same. What a key is taken apart into makes
the key again, and only a key without a colon cannot be taken apart. -/
theorem keys_unambiguous :
    (∀ owner name, split (field owner name) = .ok (owner, name) ↔ ':' ∉ owner.toList) ∧
      (∀ owner name descriptor, ':' ∉ owner.toList →
        (parts (method owner name descriptor) = .ok ⟨owner, name, descriptor⟩ ↔
          '(' ∉ name.toList ∧ OpensOrEmpty descriptor)) ∧
      Set.BijOn Parts.key {p | p.Apart} {key | HasOwner key} ∧
      (∀ key owner member, split key = .ok (owner, member) →
        field owner member = key ∧
          method owner (namePart member) (descriptorPart member) = key) ∧
      ∀ key e, split key = .error e ↔ ':' ∉ key.toList ∧ e = .noOwner key := by
  refine ⟨split_field_iff, ?whole, bijOn_key, ?again, split_eq_error_iff⟩
  case whole =>
    intro owner name descriptor howner
    rw [parts_eq_ok_iff]
    constructor
    · rintro ⟨-, -, hname, hdescriptor⟩
      exact ⟨hname, hdescriptor⟩
    · rintro ⟨hname, hdescriptor⟩
      exact ⟨rfl, howner, hname, hdescriptor⟩
  case again =>
    intro key owner member h
    refine ⟨field_of_split h, ?_⟩
    rw [method_eq_field, namePart_append_descriptorPart, field_of_split h]

/-- Colons in the name and both separators in the descriptor do no harm. -/
theorem keys_unambiguous_punctuated :
    parts (method "a/B" "x:y" "(L(:;I)V") = .ok ⟨"a/B", "x:y", "(L(:;I)V"⟩ :=
  (keys_unambiguous.2.1 "a/B" "x:y" "(L(:;I)V" (by decide)).mpr
    ⟨by decide, by simp [OpensOrEmpty]⟩

/-- A parenthesis in the name does: it is taken for the start of the descriptor. -/
example : parts (method "a" "x(" "(I)V") = .ok ⟨"a", "x", "((I)V"⟩ := by decide

end Namebridge.MemberKey
