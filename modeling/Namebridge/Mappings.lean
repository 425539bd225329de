import Namebridge.OrderedMap

/-!
# Mappings

A mapping gives the classes, fields and methods of one naming scheme their names in another one.
Each of its three tables has keys and values of the same form: class names, and keys of members
whose class names belong to the same scheme as the rest of the key.

Mappings can be turned around (`inverse`) and put one after the other (`chain`). Both keep the order
of the entries, which decides between several entries for one name.
-/

namespace Namebridge

/-- Names, or keys of members, with their counterparts in another naming scheme. -/
abbrev NameTable := OrderedMap String String

namespace NameTable

/-- The table read from right to left. Of several entries with one value the last one counts, and
it stands where the first one stood. -/
def inverse (t : NameTable) : NameTable := OrderedMap.ofPairs (t.entries.map Prod.swap)

/-- What becomes of an entry that has no continuation in the second table of a chain. -/
inductive Unmatched where
  | keep
  | drop
deriving DecidableEq, Repr

/-- Follows each entry of `s` by the entry of `t` for its value. -/
def chain (s t : NameTable) (unmatched : Unmatched) : NameTable :=
  s.filterMap fun _ middle =>
    match t.get? middle, unmatched with
    | some target, _ => some target
    | none, .keep => some middle
    | none, .drop => none

/-- The counterpart of a name, or the name itself if there is none. -/
def rename (t : NameTable) (name : String) : String := (t.get? name).getD name

end NameTable

/-- The names of one naming scheme with their counterparts in another one. A class that a member
key names need not have an entry of its own; such a class keeps its name. -/
@[ext] structure Mappings where
  classes : NameTable := .empty
  fields : NameTable := .empty
  methods : NameTable := .empty
deriving DecidableEq

namespace Mappings

instance : Inhabited Mappings := ⟨{}⟩

/-- Whether no table has an entry. -/
def isEmpty (m : Mappings) : Bool := m.classes.isEmpty && m.fields.isEmpty && m.methods.isEmpty

/-- Does the same to each of the three tables. -/
def mapTables (f : NameTable → NameTable) (m : Mappings) : Mappings :=
  ⟨f m.classes, f m.fields, f m.methods⟩

/-- Joins each of the three tables of one mapping with that of another. -/
def zipTables (f : NameTable → NameTable → NameTable) (m n : Mappings) : Mappings :=
  ⟨f m.classes n.classes, f m.fields n.fields, f m.methods n.methods⟩

/-- The mapping in the other direction. -/
def inverse (m : Mappings) : Mappings := m.mapTables NameTable.inverse

/-- One mapping after the other. -/
def chain (m n : Mappings) (unmatched : NameTable.Unmatched) : Mappings :=
  m.zipTables (NameTable.chain · · unmatched) n

/-- Whether both mappings have the same entries, in whatever order. -/
def agrees (m n : Mappings) : Bool :=
  m.classes.agrees n.classes && m.fields.agrees n.fields && m.methods.agrees n.methods

/-- Two mappings agree if their tables do. -/
def Agrees (m n : Mappings) : Prop :=
  m.classes.Agrees n.classes ∧ m.fields.Agrees n.fields ∧ m.methods.Agrees n.methods

/-- The counterpart of a class. -/
def class? (m : Mappings) (name : String) : Option String := m.classes.get? name

/-- The counterpart of a class, or the class itself if there is none. -/
def className (m : Mappings) (name : String) : String := m.classes.rename name

end Mappings

end Namebridge
