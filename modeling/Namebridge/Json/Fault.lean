import Namebridge.Host.OsError
import Namebridge.Text.Quoted

/-!
# What can be wrong with a JSON text

A text is read from left to right against what is expected of it, and the first thing that is wrong
ends the reading.
-/

namespace Namebridge.Json

/-- A value that stands where another kind of value was expected. -/
inductive Found where
  | null
  | bool (value : Bool)
  | integer (value : Int)
  | float (text : String)
  | string (text : String)
  | array
  | object
deriving DecidableEq, Repr

def Found.describe : Found → String
  | null => "null"
  | bool value => s!"boolean \x60{value}\x60"
  | integer value => s!"integer \x60{value}\x60"
  | float text => s!"floating point \x60{text}\x60"
  | string text => s!"string {Text.quoted text}"
  | array => "sequence"
  | object => "map"

/-- How a well formed text differs from what was expected. -/
inductive Mismatch where
  | wrongType (found : Found) (expected : String)
  | wrongValue (found : Found) (expected : String)
  | missing (field : String)
  | duplicate (field : String)
  | tooShort (length : Nat) (expected : String)
deriving DecidableEq, Repr

def Mismatch.message : Mismatch → String
  | wrongType found expected => s!"invalid type: {found.describe}, expected {expected}"
  | wrongValue found expected => s!"invalid value: {found.describe}, expected {expected}"
  | missing field => s!"missing field \x60{field}\x60"
  | duplicate field => s!"duplicate field \x60{field}\x60"
  | tooShort length expected => s!"invalid length {length}, expected {expected}"

/-- Why a JSON text cannot be read. -/
inductive Fault where
  /-- The text is not JSON. -/
  | malformed
  /-- The text ends too early. -/
  | truncated
  /-- The file with the text cannot be read. -/
  | unreadable (error : OsError)
  /-- The text is JSON, but it does not say what it should. -/
  | mismatch (what : Mismatch)
deriving DecidableEq, Repr

def Fault.message : Fault → String
  | malformed => "the text is not JSON"
  | truncated => "the text ends too early"
  | unreadable error => error.message
  | mismatch what => what.message

end Namebridge.Json
