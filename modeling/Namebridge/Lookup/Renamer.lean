import Namebridge.Event
import Namebridge.Lookup.ClassIndex
import Namebridge.Lookup.Hierarchy
import Namebridge.Name.ClassName

/-!
# New names for the symbols of source code

Whoever reads source code finds out what each identifier means, which is a `Binding`. A `Renamer`
answers with the new name of the symbol.

A method that cannot be found by its name and descriptor is taken for one of the same name. That can
be wrong if there are several, so each such answer is reported.
-/

namespace Namebridge

/-- What an identifier in source code stands for. -/
inductive Binding where
  | classNamed (name : String)
  /-- A field of a class, or a variable that is no field of any class. -/
  | field (owner : Option String) (name : String)
  | method (owner name descriptor : String) (isConstructor : Bool)
deriving DecidableEq, Repr

/-- A binding as messages show it. -/
def Binding.describe : Binding → String
  | classNamed name => s!"Class \x7b binary_name: {Text.quoted name} \x7d"
  | field owner name =>
      s!"Field \x7b declaring_class: {Text.quotedOption owner}, name: {Text.quoted name} \x7d"
  | method owner name descriptor isConstructor =>
      s!"Method \x7b declaring_class: {Text.quoted owner}, name: {Text.quoted name}, "
        ++ s!"descriptor: {Text.quoted descriptor}, constructor: {isConstructor} \x7d"

/-- The names to give, and the hierarchy in which members are looked for. -/
structure Renamer where
  index : ClassIndex
  hierarchy : Hierarchy := .flat

namespace Renamer

/-- The new name of a class. -/
def class? (r : Renamer) (name : String) : Option String :=
  (r.index.get? name).map ClassEntry.name

/-- The new name of a field that the class itself declares. -/
def ownField? (r : Renamer) (name : String) (cls : String) : Option String :=
  (r.index.get? cls).bind fun entry => entry.fields.get? name

/-- The new name of a method that the class itself declares. -/
def ownMethod? (r : Renamer) (name descriptor : String) (cls : String) : Option String :=
  (r.index.get? cls).bind fun entry => entry.methods.get? (name, descriptor)

/-- A method found in place of another one: its name and descriptor, and its new name. -/
structure Namesake where
  name : String
  descriptor : String
  newName : String
deriving DecidableEq, Repr

/-- The first method of that name that the class itself declares, whatever its descriptor. -/
def ownNamesake? (r : Renamer) (name : String) (cls : String) : Option Namesake :=
  (r.index.get? cls).bind fun entry =>
    (entry.methods.entries.find? fun e => e.1.1 = name).map fun e => ⟨e.1.1, e.1.2, e.2⟩

/-- The new name of a field of the class or of the classes above it. -/
def field? (r : Renamer) (cls name : String) : Option String :=
  r.hierarchy.find? (r.ownField? name) cls

/-- The new name of a method of the class or of the classes above it. -/
def method? (r : Renamer) (cls name descriptor : String) : Option String :=
  r.hierarchy.find? (r.ownMethod? name descriptor) cls

/-- A method of that name of the class or of the classes above it, whatever its descriptor. -/
def namesake? (r : Renamer) (cls name : String) : Option Namesake :=
  r.hierarchy.find? (r.ownNamesake? name) cls

/-- The name of the constructors of a class, which is the simple name of the class. -/
def constructorName (r : Renamer) (cls : String) : String :=
  ClassName.simple ((r.class? cls).getD cls)

/-- The new name of a method, by its descriptor if it can be, else that of a namesake. -/
def methodOrNamesake (r : Renamer) (owner name descriptor : String) :
    Reporting (Option String) := do
  match r.method? owner name descriptor with
  | some newName => return some newName
  | none =>
      match r.namesake? owner name with
      | none => return none
      | some found =>
          Reporting.report
            (.recovered owner name descriptor found.name found.descriptor found.newName)
          return some found.newName

/-- The new name of what a binding stands for. -/
def newName (r : Renamer) : Binding → Reporting (Option String)
  | .classNamed name => pure ((r.class? name).map ClassName.simple)
  | .field owner name => pure (owner.bind (r.field? · name))
  | .method owner _ _ true => pure (some (r.constructorName owner))
  | .method owner name descriptor false => r.methodOrNamesake owner name descriptor

/-- The name to write in place of an identifier, if it is another one. -/
def rename (r : Renamer) (binding : Binding) (identifier : String) :
    Reporting (Option String) := do
  let name ← r.newName binding
  return name.filter (· ≠ identifier)

end Renamer

end Namebridge
