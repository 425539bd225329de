import Namebridge.Proofs.Inheritance
import Namebridge.Proofs.Regrouping

/-!
# Methods of one name

An index keeps the methods of each class in the order of the table (`methodsOf_ofMappings`). So
where a method is taken for another one of its name, it is the one that the table has first:
`namesake?_flat_iff`.
-/

namespace Namebridge

open OrderedMap MemberKey

/-! ## The first item that can be found -/

/-- What is found first in a traversal is what the first item gives that gives such a thing. -/
theorem Traversal.find?_eq_some_iff_of_mapM {α β ε : Type} {f : α → Except ε β} {l : List α}
    {bs : List β} (h : l.mapM f = .ok bs) (p : β → Bool) (b : β) :
    bs.find? p = some b ↔ p b = true ∧ ∃ before a after, l = before ++ a :: after ∧ f a = .ok b ∧
      ∀ a' ∈ before, ∀ b', f a' = .ok b' → p b' = false := by
  rw [mapM_eq_ok_iff] at h
  rw [List.find?_eq_some_iff_append]
  refine and_congr_right fun _ => ?_
  constructor
  · rintro ⟨before, after, rfl, hbefore⟩
    obtain ⟨first, rest, hfirst, hrest, rfl⟩ := forall₂_append_left_iff.mp h.flip
    obtain ⟨a, later, hab, -, rfl⟩ := List.forall₂_cons_left_iff.mp hrest
    refine ⟨first, a, later, rfl, hab, fun a' ha' b' hb' => ?_⟩
    obtain ⟨c, hc, hac⟩ := exists_of_mem_right hfirst ha'
    have hcb : c = b' := Except.ok.inj (hac.symm.trans hb')
    simpa using hbefore b' (hcb ▸ hc)
  · rintro ⟨first, a, later, rfl, hab, hfirst⟩
    obtain ⟨before, rest, hbefore, hrest, rfl⟩ := forall₂_append_left_iff.mp h
    obtain ⟨b', after, hab', -, rfl⟩ := List.forall₂_cons_left_iff.mp hrest
    obtain rfl : b = b' := Except.ok.inj (hab.symm.trans hab')
    refine ⟨before, after, rfl, fun c hc => ?_⟩
    obtain ⟨a', ha', hac⟩ := exists_of_mem_right hbefore hc
    simpa using hfirst a' ha' c hac

/-! ## The methods of a class, in their order -/

namespace ClassIndex

variable {m : Mappings} {index : ClassIndex} {cls name descriptor target : String}

/-- The methods that a class has in an index. -/
def methodsOf (index : ClassIndex) (cls : String) : OrderedMap (String × String) String :=
  ((index.get? cls).map ClassEntry.methods).getD .empty

theorem methods_entryOf_eq (index : ClassIndex) (cls : String) :
    (entryOf cls (index.get? cls)).methods = index.methodsOf cls := by
  rw [methodsOf, entryOf]
  cases index.get? cls <;> rfl

theorem methodsOf_alter (index : ClassIndex) (owner cls : String)
    (f : Option ClassEntry → ClassEntry) : methodsOf (index.alter owner f) cls
      = if owner = cls then (f (index.get? owner)).methods else index.methodsOf cls := by
  rw [methodsOf, get?_alter]
  split <;> rfl

/-- What leaves the methods of one class as they are leaves those of all classes. -/
theorem methodsOf_alter_eq {index : ClassIndex} {owner : String}
    {f : Option ClassEntry → ClassEntry}
    (h : (f (index.get? owner)).methods = (entryOf owner (index.get? owner)).methods)
    (cls : String) : methodsOf (index.alter owner f) cls = index.methodsOf cls := by
  rw [methodsOf_alter, h, methods_entryOf_eq]
  split
  · rename_i howner
    rw [howner]
  · rfl

theorem methodsOf_addClass (index : ClassIndex) (entry : String × String) (cls : String) :
    (addClass index entry).methodsOf cls = index.methodsOf cls := by
  rw [addClass, methodsOf_alter_eq]
  rfl

theorem methodsOf_putField (index : ClassIndex) (cell : (String × String) × String) (cls : String) :
    (putField index cell).methodsOf cls = index.methodsOf cls := by
  rw [putField, methodsOf_alter_eq]
  rfl

theorem methodsOf_putMethod (index : ClassIndex) (cell : (String × String × String) × String)
    (cls : String) : (putMethod index cell).methodsOf cls
      = if cell.1.1 = cls then (index.methodsOf cls).insert cell.1.2 cell.2
        else index.methodsOf cls := by
  rw [putMethod, methodsOf_alter]
  simp only [methods_entryOf_eq]
  split
  · rename_i howner
    rw [howner]
  · rfl

/-- The methods of a class are put in one after the other, whatever is put into other classes. -/
theorem methodsOf_foldl (index : ClassIndex) (cells : List ((String × String × String) × String))
    (cls : String) : (cells.foldl putMethod index).methodsOf cls
      = ((cells.filter (·.1.1 = cls)).map fun c => (c.1.2, c.2)).foldl
        (fun methods p => methods.insert p.1 p.2) (index.methodsOf cls) := by
  induction cells generalizing index with
  | nil => rfl
  | cons cell rest ih =>
      rw [List.foldl_cons, ih, methodsOf_putMethod]
      by_cases howner : cell.1.1 = cls <;> simp [howner]

/-- Within one class, methods have different names and descriptors. -/
theorem nodup_ownPlaces {methods : List ((String × String × String) × String)}
    (h : (methods.map Prod.fst).Nodup) (cls : String) :
    (((methods.filter (·.1.1 = cls)).map fun c => (c.1.2, c.2)).map Prod.fst).Nodup := by
  have hown : ((methods.filter (·.1.1 = cls)).map Prod.fst).Nodup :=
    h.sublist (List.filter_sublist.map Prod.fst)
  have howner : ((methods.filter (·.1.1 = cls)).map (·.1.2)).map (cls, ·)
      = (methods.filter (·.1.1 = cls)).map Prod.fst := by
    rw [List.map_map]
    refine List.map_congr_left fun c hc => ?_
    have hcls : c.1.1 = cls := by simpa using List.of_mem_filter hc
    rw [Function.comp_apply, ← hcls]
  rw [← howner] at hown
  rw [List.map_map]
  exact hown.of_map

/-- A class has its methods in the order in which the table has them. -/
theorem methodsOf_ofMappings (h : ofMappings m = .ok index) (cls : String) :
    ∃ methods, m.methods.entries.mapM methodCell = .ok methods ∧
      (index.methodsOf cls).entries
        = (methods.filter (·.1.1 = cls)).map fun c => (c.1.2, c.2) := by
  obtain ⟨fields, methods, -, hm, rfl⟩ := (ofMappings_eq_ok_iff m index).mp h
  have hstart : (fields.foldl putField (m.classes.entries.foldl addClass .empty)).methodsOf cls
      = .empty := by
    rw [Traversal.look_foldl_eq (fun index => methodsOf index cls)
      (fun index c => methodsOf_putField index c cls)]
    exact Traversal.look_foldl_eq (fun index => methodsOf index cls)
      (fun index e => methodsOf_addClass index e cls) .empty _
  have hplaces := nodup_places (fun p : String × String × String => method p.1 p.2.1 p.2.2)
    (fun e c => key_of_methodCell) hm
  refine ⟨methods, hm, ?_⟩
  rw [methodsOf_foldl, hstart]
  exact entries_ofPairs (nodup_ownPlaces hplaces cls)

end ClassIndex

/-! ## Members of a table -/

namespace Mappings

/-- The table has the field of the class, and all after the first colon of its counterpart is the
target. -/
def HasField (m : Mappings) (cls name target : String) : Prop :=
  ':' ∉ cls.toList ∧ ∃ owner, ':' ∉ owner.toList ∧
    m.fields.get? (field cls name) = some (field owner target)

/-- The table has the method of the class with this name and descriptor, and the name in its
counterpart, which is all from the first colon to the next parenthesis there, is the target. -/
def HasMethod (m : Mappings) (cls name descriptor target : String) : Prop :=
  ':' ∉ cls.toList ∧ '(' ∉ name.toList ∧ Opens descriptor ∧
    ∃ owner member, ':' ∉ owner.toList ∧
      m.methods.get? (method cls name descriptor) = some (field owner member) ∧
      namePart member = target

/-- The table has this method of the class, and no other one of its name and class before it. -/
structure FirstMethod (m : Mappings) (cls name descriptor target : String) : Prop where
  has : m.HasMethod cls name descriptor target
  first : ∃ before value after,
    m.methods.entries = before ++ (method cls name descriptor, value) :: after ∧
      ∀ e ∈ before, ∀ other, Opens other → e.1 ≠ method cls name other

end Mappings

namespace ClassIndex

variable {m : Mappings} {index : ClassIndex} {cls name descriptor target : String}

theorem field?_eq_some_iff_hasField (h : ofMappings m = .ok index) (cls name target : String) :
    index.field? cls name = some target ↔ m.HasField cls name target := by
  rw [field?_eq_some_iff h, Mappings.HasField]
  simp only [split_eq_ok_iff]
  constructor
  · rintro ⟨hcls, _, owner, hget, rfl, howner⟩
    exact ⟨hcls, owner, howner, hget⟩
  · rintro ⟨hcls, owner, howner, hget⟩
    exact ⟨hcls, _, owner, hget, rfl, howner⟩

theorem method?_eq_some_iff_hasMethod (h : ofMappings m = .ok index)
    (cls name descriptor target : String) : index.method? cls name descriptor = some target ↔
      m.HasMethod cls name descriptor target := by
  rw [method?_eq_some_iff h, Mappings.HasMethod]
  simp only [split_eq_ok_iff]
  constructor
  · rintro ⟨hcls, hname, hopens, _, owner, member, hget, ⟨rfl, howner⟩, htarget⟩
    exact ⟨hcls, hname, hopens, owner, member, howner, hget, htarget⟩
  · rintro ⟨hcls, hname, hopens, owner, member, howner, hget, htarget⟩
    exact ⟨hcls, hname, hopens, _, owner, member, hget, ⟨rfl, howner⟩, htarget⟩

/-- The key of an entry tells whether its cell belongs to a class and has a name. -/
theorem placed_iff {e : String × String} {cell : (String × String × String) × String}
    (hcell : methodCell e = .ok cell) (hcls : ':' ∉ cls.toList) (hname : '(' ∉ name.toList) :
    cell.1.1 = cls ∧ cell.1.2.1 = name ↔ ∃ other, Opens other ∧ e.1 = method cls name other := by
  obtain ⟨⟨cls', name', descriptor⟩, target⟩ := cell
  obtain ⟨hkey, hcls', hname', hopens, -⟩ := (methodCell_eq_ok_iff _ _ _ _ _ _).mp hcell
  constructor
  · rintro ⟨rfl, rfl⟩
    exact ⟨descriptor, hopens, hkey⟩
  · rintro ⟨other, hother, hkey'⟩
    obtain ⟨rfl, rfl, -⟩ := method_inj hcls' hcls hname' hname hopens.opensOrEmpty
      hother.opensOrEmpty (hkey.symm.trans hkey')
    exact ⟨rfl, rfl⟩

/-- Of the methods of one name a class gives the one that the table has first. -/
theorem find?_methods_eq_some_iff {methods : List ((String × String × String) × String)}
    (hm : m.methods.entries.mapM methodCell = .ok methods) (cls name descriptor target : String) :
    methods.find? (fun c => c.1.1 = cls ∧ c.1.2.1 = name)
        = some ((cls, name, descriptor), target) ↔
      m.FirstMethod cls name descriptor target := by
  have hcells := (Traversal.exists_mapM_iff _ _).mp ⟨methods, hm⟩
  rw [Traversal.find?_eq_some_iff_of_mapM hm]
  constructor
  · rintro ⟨-, before, ⟨key, value⟩, after, hentries, hcell, hbefore⟩
    obtain ⟨rfl, hcls, hname, hopens, owner, member, hvalue, htarget⟩ :=
      (methodCell_eq_ok_iff _ _ _ _ _ _).mp hcell
    obtain ⟨rfl, howner⟩ := (split_eq_ok_iff _ _ _).mp hvalue
    have hget : m.methods.get? (method cls name descriptor) = some (field owner member) := by
      rw [← mem_entries_iff, hentries]
      simp
    refine ⟨⟨hcls, hname, hopens, owner, member, howner, hget, htarget⟩, before, _, after,
      hentries, fun e he other hother hkey => ?_⟩
    obtain ⟨cell, hcell'⟩ := hcells e (by simp [hentries, he])
    obtain ⟨howner', hname'⟩ := (placed_iff hcell' hcls hname).mpr ⟨other, hother, hkey⟩
    simpa [howner', hname'] using hbefore e he cell hcell'
  · rintro ⟨⟨hcls, hname, hopens, owner, member, howner, hget, htarget⟩, before, value, after,
      hentries, hbefore⟩
    have hvalue : m.methods.get? (method cls name descriptor) = some value := by
      rw [← mem_entries_iff, hentries]
      simp
    obtain rfl : value = field owner member := Option.some.inj (hvalue.symm.trans hget)
    refine ⟨by simp, before, _, after, hentries, (methodCell_eq_ok_iff _ _ _ _ _ _).mpr
      ⟨rfl, hcls, hname, hopens, owner, member, split_field howner member, htarget⟩, ?_⟩
    intro e he cell hcell
    by_contra hplaced
    obtain ⟨other, hother, hkey⟩ := (placed_iff hcell hcls hname).mp (by simpa using hplaced)
    exact hbefore e he other hother hkey

end ClassIndex

/-! ## Methods found by their name -/

theorem Renamer.ownNamesake?_eq (r : Renamer) (name cls : String) :
    r.ownNamesake? name cls = ((r.index.methodsOf cls).entries.find? fun e => e.1.1 = name).map
      fun e => ⟨e.1.1, e.1.2, e.2⟩ := by
  rw [ownNamesake?, ClassIndex.methodsOf]
  cases r.index.get? cls <;> rfl

/-- Without super classes a method is taken for the first one of its name and class. -/
theorem Renamer.namesake?_flat_iff {m : Mappings} {index : ClassIndex}
    (h : ClassIndex.ofMappings m = .ok index) (cls name : String) (found : Renamer.Namesake) :
    (Renamer.mk index .flat).namesake? cls name = some found ↔
      found.name = name ∧ m.FirstMethod cls name found.descriptor found.newName := by
  obtain ⟨methods, hm, hentries⟩ := ClassIndex.methodsOf_ofMappings h cls
  rw [namesake?, Hierarchy.find?_flat, ownNamesake?_eq, hentries, List.find?_map, List.find?_filter,
    Option.map_map, Option.map_eq_some_iff]
  simp only [← ClassIndex.find?_methods_eq_some_iff hm, Function.comp_def, decide_eq_true_eq]
  constructor
  · rintro ⟨⟨⟨cls', name', descriptor⟩, target⟩, hfind, rfl⟩
    have hplaced := List.find?_some hfind
    obtain ⟨rfl, rfl⟩ := of_decide_eq_true hplaced
    exact ⟨rfl, hfind⟩
  · rintro ⟨rfl, hfind⟩
    exact ⟨_, hfind, rfl⟩

end Namebridge
