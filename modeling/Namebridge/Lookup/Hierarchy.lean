import Namebridge.OrderedMap

/-!
# Class hierarchies

Members are inherited: what a class does not have may be found in its super classes. `find?` asks
the class itself and then, one after the other, its super classes with all of theirs. `lineage` is
the order in which it asks, and `search_eq_lineage` says that the first answer in that order is
the one that is given.
-/

namespace Namebridge

/-- The direct super classes and interfaces of classes. -/
structure Hierarchy where
  supers : OrderedMap String (List String) := .empty
deriving DecidableEq

namespace Hierarchy

/-- The hierarchy in which no class has a super class. -/
def flat : Hierarchy := {}

/-- The hierarchy given by classes with their super classes. A super class listed twice counts
once, and a class listed twice has the super classes listed last. -/
def ofPairs (pairs : List (String × List String)) : Hierarchy :=
  ⟨.ofPairs (pairs.map fun (cls, supers) => (cls, supers.eraseDups))⟩

/-- The direct super classes of a class. -/
def supersOf (h : Hierarchy) (cls : String) : List String := (h.supers.get? cls).getD []

variable {α : Type}

/-- Asks a class and the classes above it, through at most `depth` generations. -/
def search (h : Hierarchy) (ask : String → Option α) : (depth : Nat) → String → Option α
  | 0, _ => none
  | depth + 1, cls =>
      match ask cls with
      | some answer => some answer
      | none => (h.supersOf cls).findSome? (search h ask depth)

/-- A class and the classes above it through at most `depth` generations, each followed by those
above it. Classes that are reached repeatedly are listed repeatedly. -/
def lineage (h : Hierarchy) : (depth : Nat) → String → List String
  | 0, _ => []
  | depth + 1, cls => cls :: (h.supersOf cls).flatMap (lineage h depth)

/-- A number of generations that reaches all classes above any class: without repetition there are
no more generations than classes that have super classes, and one. -/
def generations (h : Hierarchy) : Nat := h.supers.size + 1

/-- The first answer of a class and the classes above it. -/
def find? (h : Hierarchy) (ask : String → Option α) (cls : String) : Option α :=
  h.search ask h.generations cls

/-! ## Laws -/

theorem findSome?_flatMap {β : Type} (f : β → List String) (ask : String → Option α)
    (l : List β) : (l.flatMap f).findSome? ask = l.findSome? fun b => (f b).findSome? ask := by
  induction l with
  | nil => rfl
  | cons b rest ih =>
      rw [List.flatMap_cons, List.findSome?_append, ih, List.findSome?_cons]
      cases (f b).findSome? ask <;> rfl

/-- A search gives the first answer in the order of the lineage. -/
theorem search_eq_lineage (h : Hierarchy) (ask : String → Option α) (depth : Nat) (cls : String) :
    h.search ask depth cls = (h.lineage depth cls).findSome? ask := by
  induction depth generalizing cls with
  | zero => rfl
  | succ depth ih =>
      rw [search, lineage, List.findSome?_cons, findSome?_flatMap]
      have hs : h.search ask depth = fun c => (h.lineage depth c).findSome? ask := funext ih
      rw [hs]
      cases ask cls <;> rfl

end Hierarchy

end Namebridge
