import Namebridge.Mappings
import Namebridge.Name.MemberKey
import Namebridge.Name.Descriptor

/-!
# Declarations

A file of mappings declares classes, fields and methods one after the other. `ofDeclarations` makes
tables of them, whatever the format of the file.

The counterpart of a method has the same descriptor with renamed classes. Classes can be declared
after the methods that mention them, so descriptors are renamed when all classes are known.
-/

namespace Namebridge

/-- A class under its name in the source scheme and in the target scheme. -/
structure ClassPair where
  source : String
  target : String
deriving DecidableEq, Repr

/-- What one line of a file of mappings says. Members name the class that they belong to. -/
inductive Declaration where
  | classNamed (pair : ClassPair)
  | field (owner : ClassPair) (source target : String)
  | method (owner : ClassPair) (source descriptor target : String)
deriving DecidableEq, Repr

namespace Declaration

/-- The class that is declared, or whose member is declared. -/
def owner : Declaration → ClassPair
  | classNamed pair => pair
  | field owner _ _ => owner
  | method owner _ _ _ => owner

/-- The entry for the table of classes. -/
def forClasses? : Declaration → Option (String × String)
  | classNamed pair => some (pair.source, pair.target)
  | _ => none

/-- The entry for the table of fields. -/
def forFields? : Declaration → Option (String × String)
  | field owner source target =>
      some (MemberKey.field owner.source source, MemberKey.field owner.target target)
  | _ => none

/-- A method has a descriptor that cannot be read. -/
structure BadDescriptor where
  key : String
  fault : Descriptor.Fault
deriving DecidableEq, Repr

/-- What went wrong, the more general first. -/
def BadDescriptor.trail (error : BadDescriptor) : List String :=
  [s!"failed to map descriptor of method {Text.quoted error.key}", error.fault.message]

/-- The entry for the table of methods, with renamed classes in the descriptor of the value. -/
def forMethods? (classes : NameTable) :
    Declaration → Option (Except BadDescriptor (String × String))
  | method owner source descriptor target =>
      let key := MemberKey.method owner.source source descriptor
      some <| match Descriptor.rename classes.rename descriptor with
        | .ok renamed => .ok (key, MemberKey.method owner.target target renamed)
        | .error fault => .error ⟨key, fault⟩
  | _ => none

end Declaration

namespace Mappings

/-- The tables that the declarations make. Of several declarations with one key the last counts. -/
def ofDeclarations (declarations : List Declaration) :
    Except Declaration.BadDescriptor Mappings := do
  let classes : NameTable := .ofPairs (declarations.filterMap Declaration.forClasses?)
  let fields : NameTable := .ofPairs (declarations.filterMap Declaration.forFields?)
  let entries ← (declarations.filterMap (Declaration.forMethods? classes)).mapM id
  return { classes, fields, methods := .ofPairs entries }

end Mappings

end Namebridge
