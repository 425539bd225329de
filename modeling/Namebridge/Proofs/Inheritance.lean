import Mathlib.Data.Finset.Card
import Mathlib.Logic.Relation
import Namebridge.Lookup.Renamer
import Namebridge.Proofs.OrderedMap

/-!
# Inherited members

A search through a hierarchy is bounded in its depth, but where no cycle can be reached the bound is
never felt. `Inquiry` is the search without it, and `Walk` the order in which classes are asked:
each class is followed by those above it. Above a class without cycles both come to an end, and the
first class in that order that has an answer gives it: `find?_findsFirst`. For fields, methods and
methods of one name that is `inherits_first`.
-/

namespace Namebridge

open Relation

namespace Hierarchy

variable {α : Type} {h : Hierarchy} {cls c : String} {classes order : List String}

/-! ## Classes above a class -/

/-- A class has another one as a direct super class. -/
def Super (h : Hierarchy) (cls above : String) : Prop := above ∈ h.supersOf cls

/-- A class is the given one or can be reached from it through super classes. -/
def AtOrAbove (h : Hierarchy) (cls above : String) : Prop := ReflTransGen h.Super cls above

/-- No class at or above the given one is above itself. -/
def Acyclic (h : Hierarchy) (cls : String) : Prop :=
  ∀ c, h.AtOrAbove cls c → ¬ TransGen h.Super c c

theorem Acyclic.super (hacyclic : h.Acyclic cls) (habove : h.Super cls c) : h.Acyclic c :=
  fun _ hd => hacyclic _ (ReflTransGen.head habove hd)

theorem mem_entries_of_super (habove : h.Super cls c) :
    ∃ supers, (cls, supers) ∈ h.supers.entries ∧ c ∈ supers := by
  rw [Super, supersOf] at habove
  cases hsupers : h.supers.get? cls with
  | none =>
      rw [hsupers] at habove
      cases habove
  | some supers =>
      rw [hsupers] at habove
      exact ⟨supers, (h.supers.mem_entries_iff _ _).mpr hsupers, habove⟩

/-- Where super classes always have a lower rank there is no cycle. -/
theorem acyclic_of_rank (rank : String → Nat)
    (hrank : ∀ e ∈ h.supers.entries, ∀ above ∈ e.2, rank above < rank e.1) (cls : String) :
    h.Acyclic cls := by
  have hlower : ∀ {a b : String}, TransGen h.Super a b → rank b < rank a := by
    intro a b hab
    induction hab with
    | single hstep =>
        obtain ⟨supers, hentry, hmem⟩ := mem_entries_of_super hstep
        exact hrank _ hentry _ hmem
    | tail _ hstep ih =>
        obtain ⟨supers, hentry, hmem⟩ := mem_entries_of_super hstep
        exact (hrank _ hentry _ hmem).trans ih
  intro c _ hc
  exact absurd (hlower hc) (Nat.lt_irrefl _)

/-! ## The order of a search -/

/-- The depth-first order of classes: each is followed by the classes above it, a class with several
super classes by those of the first one first. Classes that are reached repeatedly are listed
repeatedly. -/
inductive Walk (h : Hierarchy) : List String → List String → Prop
  | nil : Walk h [] []
  | cons {cls : String} {rest above order : List String} (habove : Walk h (h.supersOf cls) above)
      (hrest : Walk h rest order) : Walk h (cls :: rest) (cls :: above ++ order)

/-- There is one order at most. -/
theorem Walk.unique (hwalk : Walk h classes order) {order' : List String}
    (hwalk' : Walk h classes order') : order' = order := by
  induction hwalk generalizing order' with
  | nil =>
      cases hwalk'
      rfl
  | cons _ _ ihabove ihrest =>
      cases hwalk' with
      | cons habove' hrest' => rw [ihabove habove', ihrest hrest']

theorem Walk.append {classes' order' : List String} (hwalk : Walk h classes order)
    (hwalk' : Walk h classes' order') : Walk h (classes ++ classes') (order ++ order') := by
  induction hwalk with
  | nil => exact hwalk'
  | @cons cls rest above order habove _ _ ihrest =>
      have hcons := Walk.cons habove ihrest
      rwa [← List.append_assoc] at hcons

theorem Walk.flatMap {f : String → List String} (hwalk : ∀ c ∈ classes, Walk h [c] (f c)) :
    Walk h classes (classes.flatMap f) := by
  induction classes with
  | nil => exact .nil
  | cons c rest ih =>
      rw [List.flatMap_cons]
      exact (hwalk c (by simp)).append (ih fun d hd => hwalk d (by simp [hd]))

theorem walk_single {above : List String} (habove : Walk h (h.supersOf cls) above) :
    Walk h [cls] (cls :: above) := by
  have hcons := Walk.cons habove .nil
  rwa [List.append_nil] at hcons

/-- The classes of a walk are those that it starts from and those above them. -/
theorem Walk.mem_iff (hwalk : Walk h classes order) (c : String) :
    c ∈ order ↔ ∃ start ∈ classes, h.AtOrAbove start c := by
  induction hwalk with
  | nil => simp
  | @cons cls rest above order _ _ ihabove ihrest =>
      rw [List.cons_append, List.mem_cons, List.mem_append, ihabove, ihrest]
      constructor
      · intro hparts
        rcases hparts with rfl | ⟨start, hstart, hc⟩ | ⟨start, hstart, hc⟩
        · exact ⟨c, by simp, .refl⟩
        · exact ⟨cls, by simp, ReflTransGen.head hstart hc⟩
        · exact ⟨start, by simp [hstart], hc⟩
      · intro hparts
        obtain ⟨start, hstart, hc⟩ := hparts
        rcases List.mem_cons.mp hstart with rfl | hstart
        · rcases ReflTransGen.cases_head hc with heq | ⟨next, hnext, hc⟩
          · exact .inl heq.symm
          · exact .inr (.inl ⟨next, hnext, hc⟩)
        · exact .inr (.inr ⟨start, hstart, hc⟩)

/-- The bound on the depth is never felt: on the way to a class stand only classes below it, which
are different ones with super classes, and there are no more of these than entries. -/
theorem walk_lineage {depth : Nat} {below : Finset String} (hacyclic : h.Acyclic cls)
    (hkeys : ∀ b ∈ below, b ∈ h.supers.keys) (hbelow : ∀ b ∈ below, TransGen h.Super b cls)
    (hdepth : h.supers.size < below.card + depth) : Walk h [cls] (h.lineage depth cls) := by
  induction depth generalizing cls below with
  | zero =>
      have hsub : below ⊆ h.supers.keys.toFinset := fun b hb => List.mem_toFinset.mpr (hkeys b hb)
      have hcard := (Finset.card_le_card hsub).trans (List.toFinset_card_le _)
      rw [OrderedMap.length_keys] at hcard
      omega
  | succ depth ih =>
      rw [lineage]
      refine walk_single (Walk.flatMap fun c hc => ?_)
      have hnew : cls ∉ below := fun hmem => hacyclic cls .refl (hbelow cls hmem)
      refine @ih c (insert cls below) (hacyclic.super hc) ?_ ?_ ?_
      · intro b hb
        rcases Finset.mem_insert.mp hb with rfl | hb
        · obtain ⟨supers, hentry, -⟩ := mem_entries_of_super hc
          exact List.mem_map_of_mem hentry
        · exact hkeys b hb
      · intro b hb
        rcases Finset.mem_insert.mp hb with rfl | hb
        · exact .single hc
        · exact (hbelow b hb).tail hc
      · rw [Finset.card_insert_of_notMem hnew]
        omega

theorem Acyclic.walk (hacyclic : h.Acyclic cls) : Walk h [cls] (h.lineage h.generations cls) :=
  @walk_lineage h cls h.generations ∅ hacyclic (by simp) (by simp) (by simp [generations])

/-! ## Searching without a bound -/

/-- Classes are asked one after the other, each before those above it, until one has an answer. What
stands here has come to an end: there is no bound to the depth. -/
inductive Inquiry (h : Hierarchy) (Has : String → α → Prop) : List String → Option α → Prop
  | noneLeft : Inquiry h Has [] none
  | own {cls : String} {rest : List String} {a : α} (hown : Has cls a) :
      Inquiry h Has (cls :: rest) (some a)
  | inherited {cls : String} {rest : List String} {a : α} (hown : ∀ b, ¬ Has cls b)
      (habove : Inquiry h Has (h.supersOf cls) (some a)) : Inquiry h Has (cls :: rest) (some a)
  | passed {cls : String} {rest : List String} {answer : Option α} (hown : ∀ b, ¬ Has cls b)
      (habove : Inquiry h Has (h.supersOf cls) none) (hrest : Inquiry h Has rest answer) :
      Inquiry h Has (cls :: rest) answer

/-- The first class of an order that has an answer gives this one. -/
def FirstIn (Has : String → α → Prop) (order : List String) (a : α) : Prop :=
  ∃ before c after, order = before ++ c :: after ∧ (∀ b ∈ before, ∀ a', ¬ Has b a') ∧ Has c a

/-- The first class at or above the given one that has an answer gives this one. -/
def Nearest (h : Hierarchy) (Has : String → α → Prop) (cls : String) (a : α) : Prop :=
  ∃ order, Walk h [cls] order ∧ FirstIn Has order a

theorem Nearest.exists_atOrAbove {Has : String → α → Prop} {a : α} (hnearest : h.Nearest Has cls a) :
    ∃ c, h.AtOrAbove cls c ∧ Has c a := by
  obtain ⟨order, hwalk, before, c, after, rfl, -, hc⟩ := hnearest
  obtain ⟨start, hstart, habove⟩ := (hwalk.mem_iff c).mp (by simp)
  rw [List.mem_singleton] at hstart
  exact ⟨c, hstart ▸ habove, hc⟩

/-- What a search from a class gives. -/
structure FindsFirst (h : Hierarchy) (Has : String → α → Prop) (cls : String)
    (answer : Option α) : Prop where
  /-- The class and those above it have one order, which is finite. -/
  ordered : ∃! order, Walk h [cls] order
  /-- The search comes to an end with this answer. -/
  ends : Inquiry h Has [cls] answer
  /-- The first class in the order that has an answer decides. -/
  first_iff : ∀ a, answer = some a ↔ h.Nearest Has cls a
  /-- Without an answer, no class that can be reached has one. -/
  none_iff : answer = none ↔ ∀ c, h.AtOrAbove cls c → ∀ a, ¬ Has c a

variable {ask : String → Option α} {Has : String → α → Prop}

theorem none_iff_of_ask (hask : ∀ c a, ask c = some a ↔ Has c a) (c : String) :
    ask c = none ↔ ∀ a, ¬ Has c a := by
  simp only [Option.eq_none_iff_forall_ne_some, ne_eq, hask]

theorem findSome?_eq_some_iff_firstIn (hask : ∀ c a, ask c = some a ↔ Has c a)
    (order : List String) (a : α) : order.findSome? ask = some a ↔ FirstIn Has order a := by
  rw [List.findSome?_eq_some_iff, FirstIn]
  simp only [none_iff_of_ask hask, hask]
  constructor
  · intro hparts
    obtain ⟨before, c, after, horder, hc, hbefore⟩ := hparts
    exact ⟨before, c, after, horder, hbefore, hc⟩
  · intro hparts
    obtain ⟨before, c, after, horder, hbefore, hc⟩ := hparts
    exact ⟨before, c, after, horder, hc, hbefore⟩

/-- Asking in the order of a walk is an inquiry. -/
theorem Walk.inquiry (hask : ∀ c a, ask c = some a ↔ Has c a) (hwalk : Walk h classes order) :
    Inquiry h Has classes (order.findSome? ask) := by
  induction hwalk with
  | nil => exact .noneLeft
  | @cons cls rest above order _ _ ihabove ihrest =>
      rw [List.cons_append, List.findSome?_cons, List.findSome?_append]
      cases hown : ask cls with
      | some a => exact .own ((hask cls a).mp hown)
      | none =>
          have hpass := (none_iff_of_ask hask cls).mp hown
          cases habove : above.findSome? ask with
          | some a => exact .inherited hpass (habove ▸ ihabove)
          | none => exact .passed hpass (habove ▸ ihabove) ihrest

theorem find?_eq_findSome? (hacyclic : h.Acyclic cls) (hwalk : Walk h [cls] order)
    (ask : String → Option α) : h.find? ask cls = order.findSome? ask := by
  rw [find?, search_eq_lineage, ← hwalk.unique hacyclic.walk]

/-- Where no cycle can be reached, a search comes to an end and the first answer counts. -/
theorem find?_findsFirst (hask : ∀ c a, ask c = some a ↔ Has c a) (hacyclic : h.Acyclic cls) :
    FindsFirst h Has cls (h.find? ask cls) := by
  have hwalk := hacyclic.walk
  have hfind := find?_eq_findSome? hacyclic hwalk ask
  refine ⟨⟨_, hwalk, fun _ hother => hwalk.unique hother⟩, ?ends, ?first_iff, ?none_iff⟩
  case ends =>
    rw [hfind]
    exact hwalk.inquiry hask
  case first_iff =>
    intro a
    rw [hfind, findSome?_eq_some_iff_firstIn hask]
    constructor
    · intro hfirst
      exact ⟨_, hwalk, hfirst⟩
    · intro hnearest
      obtain ⟨order, horder, hfirst⟩ := hnearest
      rwa [hwalk.unique horder] at hfirst
  case none_iff =>
    rw [hfind, List.findSome?_eq_none_iff]
    simp only [none_iff_of_ask hask, hwalk.mem_iff, List.mem_singleton, exists_eq_left]

end Hierarchy

/-! ## Members of classes -/

namespace Renamer

variable {r : Renamer}

/-- The class itself has the field. -/
def HasField (r : Renamer) (name cls newName : String) : Prop :=
  ∃ entry, r.index.get? cls = some entry ∧ entry.fields.get? name = some newName

/-- The class itself has the method with exactly this name and descriptor. -/
def HasMethod (r : Renamer) (name descriptor cls newName : String) : Prop :=
  ∃ entry, r.index.get? cls = some entry ∧ entry.methods.get? (name, descriptor) = some newName

/-- The class itself has methods of this name, and the one that was put in first is this one. -/
def HasNamesake (r : Renamer) (name cls : String) (found : Namesake) : Prop :=
  ∃ entry before after, r.index.get? cls = some entry ∧ found.name = name ∧
    entry.methods.entries = before ++ ((name, found.descriptor), found.newName) :: after ∧
    ∀ e ∈ before, e.1.1 ≠ name

theorem ownField?_eq_some_iff (r : Renamer) (name cls newName : String) :
    r.ownField? name cls = some newName ↔ r.HasField name cls newName :=
  Option.bind_eq_some_iff

theorem ownMethod?_eq_some_iff (r : Renamer) (name descriptor cls newName : String) :
    r.ownMethod? name descriptor cls = some newName ↔ r.HasMethod name descriptor cls newName :=
  Option.bind_eq_some_iff

theorem ownNamesake?_eq_some_iff (r : Renamer) (name cls : String) (found : Namesake) :
    r.ownNamesake? name cls = some found ↔ r.HasNamesake name cls found := by
  simp only [ownNamesake?, Option.bind_eq_some_iff, Option.map_eq_some_iff,
    List.find?_eq_some_iff_append, decide_eq_true_eq, Bool.not_eq_true', decide_eq_false_iff_not]
  constructor
  · intro hparts
    obtain ⟨entry, hentry, ⟨⟨name', descriptor⟩, newName⟩, ⟨hname, before, after, hmethods, hbefore⟩,
      rfl⟩ := hparts
    subst hname
    exact ⟨entry, before, after, hentry, rfl, hmethods, hbefore⟩
  · intro hparts
    obtain ⟨entry, before, after, hentry, rfl, hmethods, hbefore⟩ := hparts
    exact ⟨entry, hentry, _, ⟨rfl, before, after, hmethods, hbefore⟩, rfl⟩

/-- What is found for the members of a class. -/
structure InheritsFirst (r : Renamer) (cls : String) : Prop where
  field : ∀ name, r.hierarchy.FindsFirst (r.HasField name) cls (r.field? cls name)
  method : ∀ name descriptor,
    r.hierarchy.FindsFirst (r.HasMethod name descriptor) cls (r.method? cls name descriptor)
  namesake : ∀ name, r.hierarchy.FindsFirst (r.HasNamesake name) cls (r.namesake? cls name)

/-- **The first hit wins**: above a class from which no cycle can be reached, every search for a
field, a method or a method of some name comes to an end, and gives what the first class in
depth-first order has. Classes that have none are passed. -/
theorem inherits_first (r : Renamer) (cls : String) (hacyclic : r.hierarchy.Acyclic cls) :
    r.InheritsFirst cls where
  field name := Hierarchy.find?_findsFirst (r.ownField?_eq_some_iff name) hacyclic
  method name descriptor :=
    Hierarchy.find?_findsFirst (r.ownMethod?_eq_some_iff name descriptor) hacyclic
  namesake name := Hierarchy.find?_findsFirst (r.ownNamesake?_eq_some_iff name) hacyclic

/-- The right side of the diamond, with members of its own. -/
def rightEntry : ClassEntry where
  name := "mod/Right"
  fields := .ofPairs [("x", "rightX")]
  methods := .ofPairs [(("m", "()V"), "rightVoid"), (("n", "()V"), "rightN")]

/-- The top of the diamond, with methods of one name. -/
def topEntry : ClassEntry where
  name := "lib/Top"
  fields := .ofPairs [("x", "topX")]
  methods := .ofPairs [(("m", "(J)V"), "topLong"), (("m", "(I)V"), "topInt")]

/-- Two ways lead up to one class. A class on the second way has members of its own, and the first
super class is known to nobody. -/
def diamond : Renamer where
  index := .ofPairs [("mod/Right", rightEntry), ("mod/Top", topEntry)]
  hierarchy := .ofPairs
    [("mod/Bottom", ["mod/Unknown", "mod/Left", "mod/Right"]), ("mod/Left", ["mod/Top"]),
      ("mod/Right", ["mod/Top"])]

theorem acyclic_diamond (cls : String) : diamond.hierarchy.Acyclic cls :=
  Hierarchy.acyclic_of_rank
    (fun c => if c = "mod/Bottom" then 2 else if c = "mod/Top" ∨ c = "mod/Unknown" then 0 else 1)
    (by decide) cls

/-- The top of the diamond is reached through its left side first, so its right side does not count. -/
theorem inherits_first_diamond :
    diamond.hierarchy.Acyclic "mod/Bottom" ∧ diamond.InheritsFirst "mod/Bottom" ∧
      diamond.field? "mod/Bottom" "x" = some "topX" ∧
      diamond.method? "mod/Bottom" "m" "()V" = some "rightVoid" ∧
      diamond.namesake? "mod/Bottom" "m" = some ⟨"m", "(J)V", "topLong"⟩ ∧
      diamond.field? "mod/Bottom" "y" = none :=
  ⟨acyclic_diamond _, inherits_first diamond _ (acyclic_diamond _), by decide, by decide, by decide,
    by decide⟩

end Renamer

end Namebridge
