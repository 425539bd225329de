import Namebridge.Text.Cut
import Namebridge.Text.Quoted

/-!
# Keys of members

A table names a field `owner:name` and a method `owner:name(parameters)result`, in one text. The
owner ends at the first colon, and the descriptor of a method starts at the first parenthesis.
-/

namespace Namebridge.MemberKey

/-- Why a text is no key of a member. -/
inductive Fault where
  | noOwner (key : String)
  | noDescriptor (key : String)
deriving DecidableEq, Repr

def Fault.message : Fault → String
  | noOwner key => s!"member key {Text.quoted key} has no owner class part"
  | noDescriptor key => s!"method key {Text.quoted key} has no descriptor"

/-- The key of a field. -/
def field (owner name : String) : String := owner ++ ":" ++ name

/-- The key of a method. -/
def method (owner name descriptor : String) : String := owner ++ ":" ++ name ++ descriptor

/-- The owner and the member that a key names. -/
def split (key : String) : Except Fault (String × String) :=
  match Text.cutFirst? ':' key with
  | some parts => .ok parts
  | none => .error (.noOwner key)

/-- The name in the member part of a key: all before the first parenthesis. -/
def namePart (member : String) : String := Text.before '(' member

/-- The descriptor in the member part of a key: all from the first parenthesis on. A field has
none, which is the empty text. -/
def descriptorPart (member : String) : String := Text.since '(' member

example : split "a/B:foo(I)V" = .ok ("a/B", "foo(I)V") := rfl
example : split "a/B" = .error (.noOwner "a/B") := rfl
example : descriptorPart "foo(ILa/B;)V" = "(ILa/B;)V" ∧ descriptorPart "foo" = "" := by decide

end Namebridge.MemberKey
