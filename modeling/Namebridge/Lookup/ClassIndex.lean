import Namebridge.Mappings
import Namebridge.Name.MemberKey

/-!
# Members by class

`ClassIndex` holds the entries of a mapping grouped by the class they belong to, so that members are
found by class and name. The keys of members are taken apart for it; a key or value that cannot be
taken apart makes the whole mapping unusable.
-/

namespace Namebridge

/-- A class with its members. -/
@[ext] structure ClassEntry where
  /-- The counterpart of the class. -/
  name : String
  /-- The counterparts of its fields. -/
  fields : NameTable := .empty
  /-- The counterparts of its methods, by name and descriptor. -/
  methods : OrderedMap (String × String) String := .empty
deriving DecidableEq

/-- The entries of a mapping, by class. -/
abbrev ClassIndex := OrderedMap String ClassEntry

namespace ClassIndex

/-- The entry of a class, made for a class that keeps its name if there is none. -/
def entryOf (name : String) (present : Option ClassEntry) : ClassEntry := present.getD { name }

/-- Gives a class its counterpart. -/
def addClass (index : ClassIndex) (entry : String × String) : ClassIndex :=
  index.alter entry.1 fun present => { entryOf entry.1 present with name := entry.2 }

/-- Adds a field to its class. -/
def addField (index : ClassIndex) (entry : String × String) :
    Except MemberKey.Fault ClassIndex := do
  let (owner, name) ← MemberKey.split entry.1
  let (_, target) ← MemberKey.split entry.2
  return index.alter owner fun present =>
    let cls := entryOf owner present
    { cls with fields := cls.fields.insert name target }

/-- Adds a method to its class. -/
def addMethod (index : ClassIndex) (entry : String × String) :
    Except MemberKey.Fault ClassIndex := do
  let (owner, member) ← MemberKey.split entry.1
  let (_, target) ← MemberKey.split entry.2
  let name := MemberKey.namePart member
  let descriptor := MemberKey.descriptorPart member
  if descriptor = "" then
    throw (.noDescriptor entry.1)
  return index.alter owner fun present =>
    let cls := entryOf owner present
    { cls with methods := cls.methods.insert (name, descriptor) (MemberKey.namePart target) }

/-- Groups the entries of a mapping: the classes first, then the fields, then the methods. -/
def ofMappings (m : Mappings) : Except MemberKey.Fault ClassIndex := do
  let index := m.classes.entries.foldl addClass .empty
  let index ← m.fields.entries.foldlM addField index
  m.methods.entries.foldlM addMethod index

end ClassIndex

end Namebridge
