import Namebridge.Proofs.ClassIndex

/-!
# Grouping by class loses nothing

The members of a mapping can be grouped by class exactly if their keys and counterparts can be taken
apart (`exists_ofMappings_iff`). The index then has each member once and no other one, has a class
for each owner, and keeps the order of the tables: `Regroups`.
-/

namespace Namebridge

open MemberKey

namespace ClassIndex

open OrderedMap

/-! ## Which mappings can be grouped -/

theorem exists_fieldCell_iff (e : String × String) :
    (∃ cell, fieldCell e = .ok cell) ↔ HasOwner e.1 ∧ HasOwner e.2 := by
  rw [← exists_split_iff, ← exists_split_iff, fieldCell]
  cases split e.1 with
  | error fault => simp [bind, Except.bind]
  | ok parts => cases split e.2 <;> simp [bind, Except.bind, pure, Except.pure]

theorem exists_methodCell_iff (e : String × String) :
    (∃ cell, methodCell e = .ok cell) ↔ HasDescriptor e.1 ∧ HasOwner e.2 := by
  obtain ⟨key, value⟩ := e
  constructor
  · intro h
    obtain ⟨⟨⟨cls, name, descriptor⟩, target⟩, hcell⟩ := h
    obtain ⟨rfl, -, -, hopens, owner, member, hvalue, -⟩ :=
      (methodCell_eq_ok_iff _ _ _ _ _ _).mp hcell
    exact ⟨hasDescriptor_method cls name hopens, (exists_split_iff _).mp ⟨_, hvalue⟩⟩
  · intro h
    obtain ⟨hkey, hvalue⟩ := h
    obtain ⟨⟨cls, member⟩, hsplit⟩ := (exists_split_iff key).mpr hkey.hasOwner
    obtain ⟨⟨owner, target⟩, htarget⟩ := (exists_split_iff value).mpr hvalue
    obtain ⟨rfl, hcls⟩ := (split_eq_ok_iff _ _ _).mp hsplit
    have hdescriptor : descriptorPart member ≠ "" := fun hempty =>
      (Text.since_eq_empty_iff '(' member).mp hempty ((hasDescriptor_field hcls member).mp hkey)
    refine ⟨((cls, namePart member, descriptorPart member), namePart target),
      (methodCell_eq_ok_iff _ _ _ _ _ _).mpr ⟨?_, hcls, not_mem_namePart member,
        (opensOrEmpty_descriptorPart member).opens hdescriptor, owner, target, htarget, rfl⟩⟩
    rw [method_eq_field, namePart_append_descriptorPart]

end ClassIndex

/-- The keys and counterparts of the members of a mapping can be taken apart. -/
structure Mappings.Groupable (m : Mappings) : Prop where
  fields : ∀ e ∈ m.fields.entries, HasOwner e.1 ∧ HasOwner e.2
  methods : ∀ e ∈ m.methods.entries, HasDescriptor e.1 ∧ HasOwner e.2

instance (m : Mappings) : Decidable m.Groupable :=
  decidable_of_iff ((∀ e ∈ m.fields.entries, HasOwner e.1 ∧ HasOwner e.2) ∧
      ∀ e ∈ m.methods.entries, HasDescriptor e.1 ∧ HasOwner e.2)
    ⟨fun h => ⟨h.1, h.2⟩, fun h => ⟨h.fields, h.methods⟩⟩

namespace ClassIndex

open OrderedMap

theorem exists_ofMappings_iff (m : Mappings) :
    (∃ index, ofMappings m = .ok index) ↔ m.Groupable := by
  constructor
  · intro h
    obtain ⟨index, hindex⟩ := h
    obtain ⟨fields, methods, hf, hm, -⟩ := (ofMappings_eq_ok_iff m index).mp hindex
    have hfields := (Traversal.exists_mapM_iff _ _).mp ⟨fields, hf⟩
    have hmethods := (Traversal.exists_mapM_iff _ _).mp ⟨methods, hm⟩
    exact ⟨fun e he => (exists_fieldCell_iff e).mp (hfields e he),
      fun e he => (exists_methodCell_iff e).mp (hmethods e he)⟩
  · intro h
    exact exists_ofMappings (fun e he => (exists_fieldCell_iff e).mpr (h.fields e he))
      (fun e he => (exists_methodCell_iff e).mpr (h.methods e he))

/-! ## Names of classes -/

/-- The new name of a class. -/
def class? (index : ClassIndex) (cls : String) : Option String :=
  (index.get? cls).map ClassEntry.name

theorem name_entryOf (index : ClassIndex) (cls : String) :
    (entryOf cls (index.get? cls)).name = (index.class? cls).getD cls := by
  rw [class?, entryOf]
  cases index.get? cls <;> rfl

theorem class?_addClass (index : ClassIndex) (entry : String × String) (cls : String) :
    (addClass index entry).class? cls
      = if entry.1 = cls then some entry.2 else index.class? cls := by
  rw [class?, addClass, get?_alter]
  split <;> rfl

/-- What puts a member in gives its class a name only if it had none. -/
theorem class?_putField (index : ClassIndex) (cell : (String × String) × String) (cls : String) :
    (putField index cell).class? cls
      = if cell.1.1 = cls then some ((index.class? cls).getD cls) else index.class? cls := by
  rw [class?, putField, get?_alter]
  split
  · rename_i howner
    subst howner
    rw [Option.map_some, name_entryOf]
  · rfl

theorem class?_putMethod (index : ClassIndex) (cell : (String × String × String) × String)
    (cls : String) :
    (putMethod index cell).class? cls
      = if cell.1.1 = cls then some ((index.class? cls).getD cls) else index.class? cls := by
  rw [class?, putMethod, get?_alter]
  split
  · rename_i howner
    subst howner
    rw [Option.map_some, name_entryOf]
  · rfl

theorem class?_foldl {β : Type} {put : ClassIndex → β → ClassIndex} {owner : β → String}
    (h : ∀ index b cls, (put index b).class? cls
      = if owner b = cls then some ((index.class? cls).getD cls) else index.class? cls)
    (index : ClassIndex) (bs : List β) (cls : String) :
    (bs.foldl put index).class? cls
      = if cls ∈ bs.map owner then some ((index.class? cls).getD cls) else index.class? cls := by
  induction bs generalizing index with
  | nil => simp
  | cons b rest ih =>
      rw [List.foldl_cons, ih, h]
      by_cases hb : owner b = cls
      · simp [hb]
      · have hb' : ¬ cls = owner b := fun hb' => hb hb'.symm
        simp [hb, hb']

/-! ## Numbers of members -/

/-- A change of one class adds to a total what it adds to the class. -/
theorem total_change (measure : ClassEntry → Nat) (hnone : ∀ name, measure { name } = 0)
    (index : ClassIndex) (cls : String) (change : ClassEntry → ClassEntry) {n : Nat}
    (h : measure (change (entryOf cls (index.get? cls)))
      = measure (entryOf cls (index.get? cls)) + n) :
    (index.alter cls fun present => change (entryOf cls present)).total measure
      = index.total measure + n := by
  refine total_alter ?_
  rw [h]
  cases index.get? cls with
  | none => exact congrArg (· + n) (hnone cls)
  | some entry => rfl

theorem total_keep (measure : ClassEntry → Nat) (hnone : ∀ name, measure { name } = 0)
    (index : ClassIndex) (cls : String) (change : ClassEntry → ClassEntry)
    (h : measure (change (entryOf cls (index.get? cls)))
      = measure (entryOf cls (index.get? cls))) :
    (index.alter cls fun present => change (entryOf cls present)).total measure
      = index.total measure :=
  total_change measure hnone index cls change (n := 0) h

/-- The number of fields that all classes have together. -/
def fieldCount (index : ClassIndex) : Nat := index.total fun entry => entry.fields.size

/-- The number of methods that all classes have together. -/
def methodCount (index : ClassIndex) : Nat := index.total fun entry => entry.methods.size

theorem count_addClass (index : ClassIndex) (entry : String × String) :
    (addClass index entry).fieldCount = index.fieldCount ∧
      (addClass index entry).methodCount = index.methodCount :=
  ⟨total_keep _ (fun _ => rfl) index entry.1 (fun cls => { cls with name := entry.2 }) rfl,
    total_keep _ (fun _ => rfl) index entry.1 (fun cls => { cls with name := entry.2 }) rfl⟩

theorem fieldCount_putMethod (index : ClassIndex)
    (cell : (String × String × String) × String) :
    (putMethod index cell).fieldCount = index.fieldCount :=
  total_keep _ (fun _ => rfl) index cell.1.1
    (fun cls => { cls with methods := cls.methods.insert cell.1.2 cell.2 }) rfl

theorem methodCount_putField (index : ClassIndex) (cell : (String × String) × String) :
    (putField index cell).methodCount = index.methodCount :=
  total_keep _ (fun _ => rfl) index cell.1.1
    (fun cls => { cls with fields := cls.fields.insert cell.1.2 cell.2 }) rfl

theorem fieldCount_putField (index : ClassIndex) (cell : (String × String) × String)
    (h : index.field? cell.1.1 cell.1.2 = none) :
    (putField index cell).fieldCount = index.fieldCount + 1 :=
  total_change _ (fun _ => rfl) index cell.1.1
    (fun cls => { cls with fields := cls.fields.insert cell.1.2 cell.2 })
    (size_insert_of_get?_eq_none ((fields_entryOf index _ _).trans h) cell.2)

theorem methodCount_putMethod (index : ClassIndex)
    (cell : (String × String × String) × String)
    (h : index.method? cell.1.1 cell.1.2.1 cell.1.2.2 = none) :
    (putMethod index cell).methodCount = index.methodCount + 1 :=
  total_change _ (fun _ => rfl) index cell.1.1
    (fun cls => { cls with methods := cls.methods.insert cell.1.2 cell.2 })
    (size_insert_of_get?_eq_none ((methods_entryOf index _ _ _).trans h) cell.2)

/-! ## The index of a mapping -/

variable {m : Mappings} {index : ClassIndex}

/-- The classes that the members of a mapping belong to, in the order of the tables. -/
def owners (m : Mappings) : List String := (m.fields.keys ++ m.methods.keys).map ownerPart

theorem owner_of_fieldCell {e : String × String} {cell : (String × String) × String}
    (h : fieldCell e = .ok cell) : cell.1.1 = ownerPart e.1 := by
  obtain ⟨⟨cls, name⟩, target⟩ := cell
  obtain ⟨hkey, hcls, -⟩ := (fieldCell_eq_ok_iff e.1 e.2 _ _ _).mp h
  rw [hkey, ownerPart_field hcls]

theorem owner_of_methodCell {e : String × String} {cell : (String × String × String) × String}
    (h : methodCell e = .ok cell) : cell.1.1 = ownerPart e.1 := by
  obtain ⟨⟨cls, name, descriptor⟩, target⟩ := cell
  obtain ⟨hkey, hcls, -⟩ := (methodCell_eq_ok_iff e.1 e.2 _ _ _ _).mp h
  rw [hkey, method_eq_field, ownerPart_field hcls]

theorem map_owner_cells {fields : List ((String × String) × String)}
    {methods : List ((String × String × String) × String)}
    (hf : m.fields.entries.mapM fieldCell = .ok fields)
    (hm : m.methods.entries.mapM methodCell = .ok methods) :
    fields.map (fun c => c.1.1) ++ methods.map (fun c => c.1.1) = owners m := by
  have hfields : fields.map (fun c => c.1.1) = m.fields.entries.map (ownerPart ∘ Prod.fst) :=
    Traversal.map_eq_of_mapM hf fun e c => owner_of_fieldCell
  have hmethods : methods.map (fun c => c.1.1) = m.methods.entries.map (ownerPart ∘ Prod.fst) :=
    Traversal.map_eq_of_mapM hm fun e c => owner_of_methodCell
  rw [hfields, hmethods, owners, keys, keys, List.map_append, List.map_map, List.map_map]

theorem keys_addClass (index : ClassIndex) (entry : String × String) :
    (addClass index entry).keys
      = if entry.1 ∈ index.keys then index.keys else index.keys ++ [entry.1] :=
  keys_insert index entry.1 _

theorem keys_putField (index : ClassIndex) (cell : (String × String) × String) :
    (putField index cell).keys
      = if cell.1.1 ∈ index.keys then index.keys else index.keys ++ [cell.1.1] :=
  keys_insert index cell.1.1 _

theorem keys_putMethod (index : ClassIndex) (cell : (String × String × String) × String) :
    (putMethod index cell).keys
      = if cell.1.1 ∈ index.keys then index.keys else index.keys ++ [cell.1.1] :=
  keys_insert index cell.1.1 _

/-- The classes come first, then the owners of fields, then those of methods. -/
theorem keys_ofMappings (h : ofMappings m = .ok index) :
    index.keys = (m.classes.keys ++ owners m).eraseDups := by
  obtain ⟨fields, methods, hf, hm, rfl⟩ := (ofMappings_eq_ok_iff m index).mp h
  have hempty : (empty : ClassIndex).keys = [].eraseDups := rfl
  have hclasses := keys_foldl keys keys_addClass hempty m.classes.entries
  have hfields := keys_foldl keys keys_putField hclasses fields
  have hmethods := keys_foldl keys keys_putMethod hfields methods
  rw [← map_owner_cells hf hm, ← List.append_assoc]
  exact hmethods

/-- A class has its own counterpart, or, if it has none but has members, its own name. -/
theorem class?_ofMappings (h : ofMappings m = .ok index) (cls : String) :
    index.class? cls
      = (m.classes.get? cls).or (if cls ∈ owners m then some cls else none) := by
  obtain ⟨fields, methods, hf, hm, rfl⟩ := (ofMappings_eq_ok_iff m index).mp h
  have hclasses : (m.classes.entries.foldl addClass .empty).class? cls = m.classes.get? cls := by
    rw [look_foldl (fun index => class? index cls) addClass cls
      (fun index e => class?_addClass index e cls), lookup_reverse m.classes.nodup]
    exact Option.or_none
  rw [class?_foldl class?_putMethod, class?_foldl class?_putField, hclasses,
    ← map_owner_cells hf hm]
  cases m.classes.get? cls with
  | some target => split <;> simp
  | none =>
      by_cases hfield : cls ∈ fields.map (fun c => c.1.1)
      · simp [hfield]
      · rw [if_neg hfield, Option.getD_none, Option.none_or]
        simp only [List.mem_append, hfield, false_or]

/-- All fields and methods of the mapping are there, and each is there once. -/
theorem count_ofMappings (h : ofMappings m = .ok index) :
    index.fieldCount = m.fields.size ∧ index.methodCount = m.methods.size := by
  obtain ⟨fields, methods, hf, hm, rfl⟩ := (ofMappings_eq_ok_iff m index).mp h
  generalize hstart : m.classes.entries.foldl addClass .empty = start
  -- classes alone have no members
  have hnoField : ∀ cls name, start.field? cls name = none := fun cls name => hstart ▸
    Traversal.look_foldl_eq (fun index => field? index cls name)
      (fun index e => (members_addClass index e cls name).1) .empty _
  have hnoMethod : ∀ cls name descriptor, start.method? cls name descriptor = none :=
    fun cls name descriptor => hstart ▸
      Traversal.look_foldl_eq (fun index => method? index cls name descriptor)
        (fun index e => (members_addClass index e cls name).2 descriptor) .empty _
  have hfieldStart : start.fieldCount = 0 := hstart ▸
    Traversal.look_foldl_eq fieldCount (fun index e => (count_addClass index e).1) .empty _
  have hmethodStart : start.methodCount = 0 := hstart ▸
    Traversal.look_foldl_eq methodCount (fun index e => (count_addClass index e).2) .empty _
  have hfields := count_foldl fieldCount (fun (p : String × String) index => index.field? p.1 p.2)
    fieldCount_putField (fun index c p => field?_putField index c p.1 p.2)
    (nodup_places (fun p : String × String => field p.1 p.2) (fun e c => key_of_fieldCell) hf)
    (fun c _ => hnoField c.1.1 c.1.2)
  have hnoMethodYet : ∀ c ∈ methods,
      (fields.foldl putField start).method? c.1.1 c.1.2.1 c.1.2.2 = none := by
    intro c _
    rw [Traversal.look_foldl_eq (fun index => method? index c.1.1 c.1.2.1 c.1.2.2)
      (fun index f => method?_putField index f _ _ _)]
    exact hnoMethod _ _ _
  have hmethods := count_foldl methodCount
    (fun (p : String × String × String) index => index.method? p.1 p.2.1 p.2.2)
    methodCount_putMethod (fun index c p => method?_putMethod index c p.1 p.2.1 p.2.2)
    (nodup_places (fun p : String × String × String => method p.1 p.2.1 p.2.2)
      (fun e c => key_of_methodCell) hm) hnoMethodYet
  have hfieldsLength := ((Traversal.mapM_eq_ok_iff _ _ _).mp hf).length_eq
  have hmethodsLength := ((Traversal.mapM_eq_ok_iff _ _ _).mp hm).length_eq
  constructor
  · rw [Traversal.look_foldl_eq fieldCount fieldCount_putMethod, hfields, hfieldStart, size,
      hfieldsLength, Nat.zero_add]
  · rw [hmethods, Traversal.look_foldl_eq methodCount methodCount_putField, hmethodStart, size,
      hmethodsLength, Nat.zero_add]

/-- What a renamer without super classes finds in the index of a mapping, and what the index has. -/
structure Regroups (m : Mappings) (index : ClassIndex) : Prop where
  /-- A field is found if its key is in the table, and gets what follows the first colon there. -/
  field_iff : ∀ cls name target, (Renamer.mk index .flat).field? cls name = some target ↔
    ':' ∉ cls.toList ∧ ∃ owner, ':' ∉ owner.toList ∧
      m.fields.get? (field cls name) = some (field owner target)
  /-- Of what follows the first colon there a method gets all before the first parenthesis. -/
  method_iff : ∀ cls name descriptor target,
    (Renamer.mk index .flat).method? cls name descriptor = some target ↔
      ':' ∉ cls.toList ∧ '(' ∉ name.toList ∧ Opens descriptor ∧
      ∃ owner member, ':' ∉ owner.toList ∧
        m.methods.get? (method cls name descriptor) = some (field owner member) ∧
        namePart member = target
  /-- A class that only has members keeps its name. -/
  class?_eq : ∀ cls, (Renamer.mk index .flat).class? cls
    = (m.classes.get? cls).or (if cls ∈ owners m then some cls else none)
  /-- All classes together have the fields of the table. -/
  size_fields : index.fieldCount = m.fields.size
  /-- All classes together have the methods of the table. -/
  size_methods : index.methodCount = m.methods.size
  keys_eq : index.keys = (m.classes.keys ++ m.fields.keys.map ownerPart
    ++ m.methods.keys.map ownerPart).eraseDups

/-- **Grouping by class**: a mapping has an index exactly if all its members can be taken apart, and
the index then has the classes and members of the mapping, each once, and no others. -/
theorem ofMappings_regroups (m : Mappings) :
    ((∃ index, ofMappings m = .ok index) ↔ m.Groupable) ∧
      ∀ index, ofMappings m = .ok index → Regroups m index := by
  refine ⟨exists_ofMappings_iff m, fun index hindex => ?_⟩
  obtain ⟨hfields, hmethods⟩ := count_ofMappings hindex
  refine ⟨?field_iff, ?method_iff, class?_ofMappings hindex, hfields, hmethods, ?keys_eq⟩
  case field_iff =>
    intro cls name target
    rw [Renamer.field?_flat, field?_eq_some_iff hindex]
    simp only [split_eq_ok_iff]
    constructor
    · intro h
      obtain ⟨hcls, _, owner, hget, rfl, howner⟩ := h
      exact ⟨hcls, owner, howner, hget⟩
    · intro h
      obtain ⟨hcls, owner, howner, hget⟩ := h
      exact ⟨hcls, _, owner, hget, rfl, howner⟩
  case method_iff =>
    intro cls name descriptor target
    rw [Renamer.method?_flat, method?_eq_some_iff hindex]
    simp only [split_eq_ok_iff]
    constructor
    · intro h
      obtain ⟨hcls, hname, hopens, _, owner, member, hget, ⟨rfl, howner⟩, htarget⟩ := h
      exact ⟨hcls, hname, hopens, owner, member, howner, hget, htarget⟩
    · intro h
      obtain ⟨hcls, hname, hopens, owner, member, howner, hget, htarget⟩ := h
      exact ⟨hcls, hname, hopens, _, owner, member, hget, ⟨rfl, howner⟩, htarget⟩
  case keys_eq =>
    rw [keys_ofMappings hindex, owners, List.map_append, List.append_assoc]

/-- Members whose names and descriptors have colons and parentheses of their own. -/
def punctuated : Mappings :=
  { classes := .ofPairs [("a", "x/A")]
    fields := .ofPairs [("b:f:g(", "y/B:count:er(")]
    methods := .ofPairs [("a:m(La;:)V", "x/A:get(Lx/A;:)V"), ("c:(I)V", ":")] }

theorem ofMappings_regroups_punctuated :
    ∃ index, ofMappings punctuated = .ok index ∧ Regroups punctuated index ∧
      (Renamer.mk index .flat).field? "b" "f:g(" = some "count:er(" ∧
      (Renamer.mk index .flat).method? "a" "m" "(La;:)V" = some "get" ∧
      (Renamer.mk index .flat).class? "c" = some "c" ∧ index.keys = ["a", "b", "c"] ∧
      ¬ ∃ index, ofMappings { methods := .ofPairs [("a(:m", "b:n")] } = .ok index := by
  obtain ⟨index, hindex⟩ := (ofMappings_regroups punctuated).1.mpr (by decide)
  have hregroups := (ofMappings_regroups punctuated).2 index hindex
  refine ⟨index, hindex, hregroups, ?field, ?method, ?cls, ?keys, ?none⟩
  case field => exact (hregroups.field_iff _ _ _).mpr ⟨by decide, "y/B", by decide, by decide⟩
  case method =>
    exact (hregroups.method_iff _ _ _ _).mpr ⟨by decide, by decide, by decide, "x/A",
      "get(Lx/A;:)V", by decide, by decide, by decide⟩
  case cls => exact (hregroups.class?_eq "c").trans (by decide)
  case keys => exact hregroups.keys_eq.trans (by decide)
  case none => exact mt (ofMappings_regroups _).1.mp (by decide)

end ClassIndex

end Namebridge
