import Namebridge.Lookup.Renamer
import Namebridge.Proofs.MemberKey
import Namebridge.Proofs.OrderedMap

/-!
# What a class index holds

Each entry of a table of members has one cell in the index: a class and a member in it, with the new
name. Making the index is reading all cells and putting them in one after the other, and nothing
else is ever found: `field?_eq_some_iff` and `method?_eq_some_iff`.
-/

namespace Namebridge.ClassIndex

open OrderedMap MemberKey

/-- The new name of a field that a class has. -/
def field? (index : ClassIndex) (cls name : String) : Option String :=
  (index.get? cls).bind fun entry => entry.fields.get? name

/-- The new name of a method that a class has. -/
def method? (index : ClassIndex) (cls name descriptor : String) : Option String :=
  (index.get? cls).bind fun entry => entry.methods.get? (name, descriptor)

/-! ## Cells -/

/-- The class of a field and its name, with its new name. -/
def fieldCell (entry : String × String) : Except MemberKey.Fault ((String × String) × String) := do
  let (owner, name) ← split entry.1
  let (_, target) ← split entry.2
  return ((owner, name), target)

/-- The class of a method, its name and its descriptor, with its new name. -/
def methodCell (entry : String × String) :
    Except MemberKey.Fault ((String × String × String) × String) := do
  let (owner, member) ← split entry.1
  let (_, target) ← split entry.2
  if descriptorPart member = "" then
    throw (.noDescriptor entry.1)
  return ((owner, namePart member, descriptorPart member), namePart target)

theorem fieldCell_eq_ok_iff (key value cls name target : String) :
    fieldCell (key, value) = .ok ((cls, name), target) ↔
      key = field cls name ∧ ':' ∉ cls.toList ∧ ∃ owner, split value = .ok (owner, target) := by
  rw [← and_assoc, ← split_eq_ok_iff, fieldCell]
  cases hkey : split key with
  | error e => simp [bind, Except.bind]
  | ok parts =>
      cases hvalue : split value with
      | error e => simp [bind, Except.bind]
      | ok targetParts =>
          obtain ⟨owner, member⟩ := parts
          obtain ⟨targetOwner, targetMember⟩ := targetParts
          simp [bind, Except.bind, pure, Except.pure]

theorem methodCell_eq_ok_iff (key value cls name descriptor target : String) :
    methodCell (key, value) = .ok ((cls, name, descriptor), target) ↔
      key = method cls name descriptor ∧ ':' ∉ cls.toList ∧ '(' ∉ name.toList ∧ Opens descriptor ∧
        ∃ owner member, split value = .ok (owner, member) ∧ namePart member = target := by
  constructor
  · intro h
    obtain ⟨⟨owner, member⟩, hkey, h⟩ := (Traversal.bind_eq_ok_iff _ _ _).mp h
    obtain ⟨⟨targetOwner, targetMember⟩, hvalue, h⟩ := (Traversal.bind_eq_ok_iff _ _ _).mp h
    by_cases hempty : descriptorPart member = ""
    · simp only [if_pos hempty] at h
      cases h
    · simp only [if_neg hempty] at h
      cases h
      obtain ⟨hkey, howner⟩ := (split_eq_ok_iff _ _ _).mp hkey
      refine ⟨?_, howner, not_mem_namePart member,
        (opensOrEmpty_descriptorPart member).opens hempty, _, _, hvalue, rfl⟩
      rw [method_eq_field, namePart_append_descriptorPart]
      exact hkey
  · intro hparts
    obtain ⟨rfl, hcls, hname, hopens, owner, member, hvalue, rfl⟩ := hparts
    have hdescriptor := descriptorPart_append hname hopens.opensOrEmpty
    rw [methodCell, split_method hcls, hvalue]
    simp only [bind, Except.bind, hdescriptor, if_neg hopens.ne_empty,
      namePart_append hname hopens.opensOrEmpty]
    rfl

/-- The cell of a field tells the key. -/
theorem key_of_fieldCell {entry : String × String} {cell : (String × String) × String}
    (h : fieldCell entry = .ok cell) : entry.1 = field cell.1.1 cell.1.2 :=
  ((fieldCell_eq_ok_iff _ _ _ _ _).mp h).1

/-- The cell of a method tells the key. -/
theorem key_of_methodCell {entry : String × String} {cell : (String × String × String) × String}
    (h : methodCell entry = .ok cell) : entry.1 = method cell.1.1 cell.1.2.1 cell.1.2.2 :=
  ((methodCell_eq_ok_iff _ _ _ _ _ _).mp h).1

/-! ## Putting cells in -/

/-- Puts the cell of a field in. -/
def putField (index : ClassIndex) (cell : (String × String) × String) : ClassIndex :=
  index.alter cell.1.1 fun present =>
    let cls := entryOf cell.1.1 present
    { cls with fields := cls.fields.insert cell.1.2 cell.2 }

/-- Puts the cell of a method in. -/
def putMethod (index : ClassIndex) (cell : (String × String × String) × String) : ClassIndex :=
  index.alter cell.1.1 fun present =>
    let cls := entryOf cell.1.1 present
    { cls with methods := cls.methods.insert cell.1.2 cell.2 }

theorem addField_eq (index : ClassIndex) (entry : String × String) :
    addField index entry = (fieldCell entry).map (putField index) := by
  rw [addField, fieldCell]
  cases split entry.1 with
  | error e => rfl
  | ok parts => cases split entry.2 <;> rfl

theorem addMethod_eq (index : ClassIndex) (entry : String × String) :
    addMethod index entry = (methodCell entry).map (putMethod index) := by
  rw [addMethod, methodCell]
  cases split entry.1 with
  | error e => rfl
  | ok parts =>
      cases split entry.2 with
      | error e => rfl
      | ok targetParts =>
          by_cases hempty : descriptorPart parts.2 = ""
          · simp only [bind, Except.bind, hempty]
            rfl
          · simp only [bind, Except.bind, if_neg hempty]
            rfl

/-- An index is made by reading the cells of all members and putting them in, class by class. -/
theorem ofMappings_eq_ok_iff (m : Mappings) (index : ClassIndex) :
    ofMappings m = .ok index ↔ ∃ fields methods, m.fields.entries.mapM fieldCell = .ok fields ∧
      m.methods.entries.mapM methodCell = .ok methods ∧
      index = methods.foldl putMethod
        (fields.foldl putField (m.classes.entries.foldl addClass .empty)) := by
  have hfields : addField = fun index entry => (fieldCell entry).map (putField index) :=
    funext fun index => funext (addField_eq index)
  have hmethods : addMethod = fun index entry => (methodCell entry).map (putMethod index) :=
    funext fun index => funext (addMethod_eq index)
  rw [ofMappings, hfields, hmethods]
  simp only [Traversal.foldlM_map_eq, Traversal.bind_eq_ok_iff, Traversal.map_eq_ok_iff]
  constructor
  · intro h
    obtain ⟨-, ⟨fields, hf, rfl⟩, methods, hm, rfl⟩ := h
    exact ⟨fields, methods, hf, hm, rfl⟩
  · intro h
    obtain ⟨fields, methods, hf, hm, rfl⟩ := h
    exact ⟨_, ⟨fields, hf, rfl⟩, methods, hm, rfl⟩

/-- A mapping has an index if each of its members has a cell. -/
theorem exists_ofMappings {m : Mappings}
    (hfields : ∀ e ∈ m.fields.entries, ∃ c, fieldCell e = .ok c)
    (hmethods : ∀ e ∈ m.methods.entries, ∃ c, methodCell e = .ok c) :
    ∃ index, ofMappings m = .ok index := by
  obtain ⟨fields, hf⟩ := Traversal.exists_mapM_eq_ok hfields
  obtain ⟨methods, hm⟩ := Traversal.exists_mapM_eq_ok hmethods
  exact ⟨_, (ofMappings_eq_ok_iff m _).mpr ⟨fields, methods, hf, hm, rfl⟩⟩

/-! ## Look-ups -/

theorem fields_entryOf (index : ClassIndex) (cls name : String) :
    (entryOf cls (index.get? cls)).fields.get? name = index.field? cls name := by
  rw [field?, entryOf]
  cases index.get? cls <;> rfl

theorem methods_entryOf (index : ClassIndex) (cls name descriptor : String) :
    (entryOf cls (index.get? cls)).methods.get? (name, descriptor)
      = index.method? cls name descriptor := by
  rw [method?, entryOf]
  cases index.get? cls <;> rfl

/-- A look-up of a class that was changed finds what the change made of its entry. -/
theorem get?_alter (index : ClassIndex) (owner cls : String) (f : Option ClassEntry → ClassEntry) :
    (index.alter owner f).get? cls
      = if owner = cls then some (f (index.get? owner)) else index.get? cls :=
  get?_insert index owner cls _

theorem field?_putField (index : ClassIndex) (cell : (String × String) × String)
    (cls name : String) :
    (putField index cell).field? cls name
      = if cell.1 = (cls, name) then some cell.2 else index.field? cls name := by
  obtain ⟨⟨owner, member⟩, target⟩ := cell
  by_cases howner : owner = cls
  · subst howner
    rw [field?, putField, get?_alter, if_pos rfl, Option.bind_some, get?_insert, fields_entryOf]
    simp
  · rw [field?, putField, get?_alter, if_neg howner, if_neg (by simp [howner])]
    rfl

theorem method?_putMethod (index : ClassIndex) (cell : (String × String × String) × String)
    (cls name descriptor : String) :
    (putMethod index cell).method? cls name descriptor
      = if cell.1 = (cls, name, descriptor) then some cell.2
        else index.method? cls name descriptor := by
  obtain ⟨⟨owner, member⟩, target⟩ := cell
  by_cases howner : owner = cls
  · subst howner
    rw [method?, putMethod, get?_alter, if_pos rfl, Option.bind_some, get?_insert, methods_entryOf]
    simp
  · rw [method?, putMethod, get?_alter, if_neg howner, if_neg (by simp [howner])]
    rfl

theorem field?_putMethod (index : ClassIndex) (cell : (String × String × String) × String)
    (cls name : String) : (putMethod index cell).field? cls name = index.field? cls name := by
  by_cases howner : cell.1.1 = cls
  · subst howner
    rw [field?, putMethod, get?_alter, if_pos rfl, Option.bind_some, fields_entryOf]
  · rw [field?, putMethod, get?_alter, if_neg howner]
    rfl

theorem method?_putField (index : ClassIndex) (cell : (String × String) × String)
    (cls name descriptor : String) :
    (putField index cell).method? cls name descriptor = index.method? cls name descriptor := by
  by_cases howner : cell.1.1 = cls
  · subst howner
    rw [method?, putField, get?_alter, if_pos rfl, Option.bind_some, methods_entryOf]
  · rw [method?, putField, get?_alter, if_neg howner]
    rfl

/-- Classes alone have no members. -/
theorem members_addClass (index : ClassIndex) (entry : String × String) (cls name : String) :
    (addClass index entry).field? cls name = index.field? cls name ∧
      ∀ descriptor, (addClass index entry).method? cls name descriptor
        = index.method? cls name descriptor := by
  by_cases howner : entry.1 = cls
  · subst howner
    constructor
    · rw [field?, addClass, get?_alter, if_pos rfl, Option.bind_some, fields_entryOf]
    · intro descriptor
      rw [method?, addClass, get?_alter, if_pos rfl, Option.bind_some, methods_entryOf]
  · simp only [field?, method?, addClass, get?_alter, if_neg howner, implies_true, and_self]

/-! ## The index of a mapping -/

variable {m : Mappings} {index : ClassIndex}

/-- The index of a mapping finds the cells of its fields and of its methods. -/
theorem exists_cells (h : ofMappings m = .ok index) :
    (∃ fields, m.fields.entries.mapM fieldCell = .ok fields ∧
      ∀ cls name, index.field? cls name = lookup (cls, name) fields.reverse) ∧
    (∃ methods, m.methods.entries.mapM methodCell = .ok methods ∧
      ∀ cls name descriptor, index.method? cls name descriptor
        = lookup (cls, name, descriptor) methods.reverse) := by
  obtain ⟨fields, methods, hf, hm, rfl⟩ := (ofMappings_eq_ok_iff m index).mp h
  refine ⟨⟨fields, hf, fun cls name => ?_⟩, methods, hm, fun cls name descriptor => ?_⟩
  · -- the methods come after the fields and leave them alone, and classes have no fields yet
    rw [Traversal.look_foldl_eq (fun i => field? i cls name)
      (fun i c => field?_putMethod i c cls name)]
    rw [look_foldl (fun i => field? i cls name) putField (cls, name)
      (fun i c => field?_putField i c cls name)]
    rw [Traversal.look_foldl_eq (fun i => field? i cls name)
      (fun i e => (members_addClass i e cls name).1)]
    exact Option.or_none
  · rw [look_foldl (fun i => method? i cls name descriptor) putMethod (cls, name, descriptor)
      (fun i c => method?_putMethod i c cls name descriptor)]
    rw [Traversal.look_foldl_eq (fun i => method? i cls name descriptor)
      (fun i c => method?_putField i c cls name descriptor)]
    rw [Traversal.look_foldl_eq (fun i => method? i cls name descriptor)
      (fun i e => (members_addClass i e cls name).2 descriptor)]
    exact Option.or_none

/-- A place tells its key, so that no two entries have one place. -/
theorem nodup_places {κ : Type} {t : NameTable} (key : κ → String)
    {cell : String × String → Except MemberKey.Fault (κ × String)}
    (hkey : ∀ e c, cell e = .ok c → e.1 = key c.1) {cells : List (κ × String)}
    (hcells : t.entries.mapM cell = .ok cells) : (cells.map Prod.fst).Nodup := by
  have hmap : cells.map (key ∘ Prod.fst) = t.entries.map Prod.fst :=
    Traversal.map_eq_of_mapM hcells fun e c hc => (hkey e c hc).symm
  have hkeys : ((cells.map Prod.fst).map key).Nodup := by
    rw [List.map_map, hmap]
    exact t.nodup
  exact hkeys.of_map

/-- A look-up finds the cell of an entry. -/
theorem lookup_cells {κ : Type} [DecidableEq κ] {t : NameTable} (key : κ → String)
    {cell : String × String → Except MemberKey.Fault (κ × String)}
    (hkey : ∀ e c, cell e = .ok c → e.1 = key c.1) {cells : List (κ × String)}
    (hcells : t.entries.mapM cell = .ok cells) (place : κ) (target : String) :
    lookup place cells.reverse = some target ↔
      ∃ e ∈ t.entries, cell e = .ok (place, target) := by
  rw [lookup_reverse (nodup_places key hkey hcells),
    ← mem_iff_lookup place target (nodup_places key hkey hcells)]
  exact Traversal.mem_iff_of_mapM hcells (place, target)

/-- The index has the fields of the mapping, under their own keys. -/
theorem field?_eq_some_iff (h : ofMappings m = .ok index) (cls name target : String) :
    index.field? cls name = some target ↔ ':' ∉ cls.toList ∧
      ∃ value owner, m.fields.get? (field cls name) = some value ∧
        split value = .ok (owner, target) := by
  obtain ⟨⟨fields, hfields, hlook⟩, -⟩ := exists_cells h
  have hcells := lookup_cells (fun p : String × String => field p.1 p.2)
    (fun e c => key_of_fieldCell) hfields (cls, name) target
  rw [hlook, hcells]
  constructor
  · intro hparts
    obtain ⟨⟨key, value⟩, hmem, hcell⟩ := hparts
    obtain ⟨rfl, hcls, owner, hvalue⟩ := (fieldCell_eq_ok_iff _ _ _ _ _).mp hcell
    exact ⟨hcls, value, owner, (mem_entries_iff _ _ _).mp hmem, hvalue⟩
  · intro hparts
    obtain ⟨hcls, value, owner, hget, hvalue⟩ := hparts
    exact ⟨(field cls name, value), (mem_entries_iff _ _ _).mpr hget,
      (fieldCell_eq_ok_iff _ _ _ _ _).mpr ⟨rfl, hcls, owner, hvalue⟩⟩

/-- The index has the methods of the mapping, under their own keys. -/
theorem method?_eq_some_iff (h : ofMappings m = .ok index)
    (cls name descriptor target : String) :
    index.method? cls name descriptor = some target ↔
      ':' ∉ cls.toList ∧ '(' ∉ name.toList ∧ Opens descriptor ∧
      ∃ value owner member, m.methods.get? (method cls name descriptor) = some value ∧
        split value = .ok (owner, member) ∧ namePart member = target := by
  obtain ⟨-, methods, hmethods, hlook⟩ := exists_cells h
  have hcells := lookup_cells (fun p : String × String × String => method p.1 p.2.1 p.2.2)
    (fun e c => key_of_methodCell) hmethods (cls, name, descriptor) target
  rw [hlook, hcells]
  constructor
  · intro hparts
    obtain ⟨⟨key, value⟩, hmem, hcell⟩ := hparts
    obtain ⟨rfl, hcls, hname, hopens, owner, member, hvalue, htarget⟩ :=
      (methodCell_eq_ok_iff _ _ _ _ _ _).mp hcell
    exact ⟨hcls, hname, hopens, value, owner, member, (mem_entries_iff _ _ _).mp hmem, hvalue,
      htarget⟩
  · intro hparts
    obtain ⟨hcls, hname, hopens, value, owner, member, hget, hvalue, htarget⟩ := hparts
    exact ⟨(method cls name descriptor, value), (mem_entries_iff _ _ _).mpr hget,
      (methodCell_eq_ok_iff _ _ _ _ _ _).mpr ⟨rfl, hcls, hname, hopens, owner, member, hvalue,
        htarget⟩⟩

end Namebridge.ClassIndex

/-! ## Renaming without super classes -/

namespace Namebridge

theorem Hierarchy.find?_flat {α : Type} (ask : String → Option α) (cls : String) :
    Hierarchy.flat.find? ask cls = ask cls := by
  show Hierarchy.flat.search ask 1 cls = ask cls
  rw [search]
  cases ask cls <;> rfl

theorem Renamer.field?_flat (index : ClassIndex) (cls name : String) :
    (Renamer.mk index .flat).field? cls name = index.field? cls name :=
  Hierarchy.find?_flat _ cls

theorem Renamer.method?_flat (index : ClassIndex) (cls name descriptor : String) :
    (Renamer.mk index .flat).method? cls name descriptor = index.method? cls name descriptor :=
  Hierarchy.find?_flat _ cls

end Namebridge
