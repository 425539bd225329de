import Namebridge.Json.Scanner

/-!
# Expected values in a JSON text

Each function here reads a value of one kind from the start of the bytes that are left. A value of
another kind is a mismatch, and so is a number out of range; it is found before anything behind the
value is looked at.
-/

namespace Namebridge.Json

/-- A number that was found. -/
def Number.found : Number → Found
  | integer n => .integer n
  | float f => .float (Decimal.text f)

/-- The fault that a value of another kind stands here, unless what stands here is no value. -/
def mismatch (expected : String) (bytes : Bytes) : Fault :=
  let found : Except Fault Found := match skipBlanks bytes with
    | [] => .error .truncated
    | b :: rest =>
        if b = code 'n' then (expectWord "ull".toList rest).map fun _ => .null
        else if b = code 't' then (expectWord "rue".toList rest).map fun _ => .bool true
        else if b = code 'f' then (expectWord "alse".toList rest).map fun _ => .bool false
        else if b = code '"' then (stringBody rest).map fun (s, _) => .string s
        else if b = code '[' then .ok .array
        else if b = code '{' then .ok .object
        else if b = code '-' then (numberBody true rest).map fun (n, _) => n.found
        else if isDigit b then (numberBody false (b :: rest)).map fun (n, _) => n.found
        else .error .malformed
  match found with
  | .ok found => .mismatch (.wrongType found expected)
  | .error fault => fault

/-- Reads a string. -/
def expectString (expected : String) (bytes : Bytes) : Except Fault (String × Bytes) :=
  match skipBlanks bytes with
  | b :: rest => if b = code '"' then stringBody rest else .error (mismatch expected bytes)
  | [] => .error .truncated

/-- Reads a truth value. -/
def expectBool (bytes : Bytes) : Except Fault (Bool × Bytes) :=
  match skipBlanks bytes with
  | b :: rest =>
      if b = code 't' then (expectWord "rue".toList rest).map (true, ·)
      else if b = code 'f' then (expectWord "alse".toList rest).map (false, ·)
      else .error (mismatch "a boolean" bytes)
  | [] => .error .truncated

/-- Reads a natural number of at most 64 bits. -/
def expectCount (bytes : Bytes) : Except Fault (Nat × Bytes) := do
  let kind := "usize"
  match skipBlanks bytes with
  | b :: rest =>
      if b = code '-' || isDigit b then
        let (number, rest) ← if b = code '-' then numberBody true rest
          else numberBody false (b :: rest)
        match number with
        | .integer n =>
            if 0 ≤ n then return (n.toNat, rest)
            else throw (.mismatch (.wrongValue (.integer n) kind))
        | .float f => throw (.mismatch (.wrongType (.float (Decimal.text f)) kind))
      else throw (mismatch kind bytes)
  | [] => throw .truncated

/-- What stands behind the opening bracket of an array or behind an element: the next element, or
the closing bracket, for which there is none. -/
def nextElement (first : Bool) (bytes : Bytes) : Except Fault (Option Bytes) :=
  match skipBlanks bytes with
  | [] => .error .truncated
  | b :: rest =>
      if b = code ']' then .ok none
      else if first then .ok (some (b :: rest))
      else if b = code ',' then
        match skipBlanks rest with
        | [] => .error .truncated
        | c :: rest => if c = code ']' then .error .malformed else .ok (some (c :: rest))
      else .error .malformed

/-- Takes the closing bracket of an array of which no more elements are expected. -/
def closeArray (bytes : Bytes) : Except Fault Bytes :=
  match skipBlanks bytes with
  | [] => .error .truncated
  | b :: rest => if b = code ']' then .ok rest else .error .malformed

/-- Reads the elements of an array of strings, after those `read` so far (the last one first), of
which there are at most `steps` more. -/
def stringElements (expected : String) :
    (steps : Nat) → (read : List String) → Bytes → Except Fault (List String × Bytes)
  | 0, _, _ => .error .truncated
  | steps + 1, read, bytes => do
      match ← nextElement read.isEmpty bytes with
      | none => return (read.reverse, bytes)
      | some bytes =>
          let (s, rest) ← expectString expected bytes
          stringElements expected steps (s :: read) rest

/-- Reads an array of strings. -/
def expectStrings (expected : String) (bytes : Bytes) : Except Fault (List String × Bytes) :=
  match skipBlanks bytes with
  | b :: rest =>
      if b = code '[' then do
        let (strings, rest) ← stringElements expected rest.length [] rest
        return (strings, ← closeArray rest)
      else .error (mismatch "a sequence" bytes)
  | [] => .error .truncated

/-- What stands behind the opening brace of an object or behind a member: the name of the next
member, with the bytes behind it, or the closing brace, for which there is none. -/
def nextMember (first : Bool) (bytes : Bytes) : Except Fault (Option (String × Bytes)) :=
  match skipBlanks bytes with
  | [] => .error .truncated
  | b :: rest =>
      if b = code '}' then .ok none
      else if first then memberName b rest
      else if b = code ',' then
        match skipBlanks rest with
        | [] => .error .truncated
        | c :: rest => memberName c rest
      else .error .malformed
where
  /-- Reads the name of a member that starts with the byte `b`. -/
  memberName (b : UInt8) (rest : Bytes) : Except Fault (Option (String × Bytes)) :=
    if b = code '"' then (stringBody rest).map some else .error .malformed

/-- Takes the colon between the name and the value of a member. -/
def memberColon (bytes : Bytes) : Except Fault Bytes :=
  match skipBlanks bytes with
  | [] => .error .truncated
  | b :: rest => if b = code ':' then .ok rest else .error .malformed

/-- Takes the closing brace of an object of which no more members are expected. -/
def closeObject (bytes : Bytes) : Except Fault Bytes :=
  match skipBlanks bytes with
  | [] => .error .truncated
  | b :: rest => if b = code '}' then .ok rest else .error .malformed

/-- Nothing but blanks may follow the value of a text. -/
def closeText (bytes : Bytes) : Except Fault Unit :=
  if (skipBlanks bytes).isEmpty then .ok () else .error .malformed

end Namebridge.Json
