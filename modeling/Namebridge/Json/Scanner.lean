import Namebridge.Decimal.Shortest
import Namebridge.Json.Fault
import Namebridge.Text.Utf8

/-!
# The words of a JSON text

Strings, numbers, names of constants and whole values, each read from the start of the bytes that
are left, and given with the bytes that are left then. A string whose value is needed has to be
well formed text; one that is skipped need not be.
-/

namespace Namebridge.Json

/-- The code of an ASCII character. -/
def code (c : Char) : UInt8 := c.toNat.toUInt8

/-- Whether a byte is one of the four blanks that can stand between words. -/
def isBlank (b : UInt8) : Bool := b == 0x20 || b == 0x0a || b == 0x0d || b == 0x09

def skipBlanks (bytes : Bytes) : Bytes := bytes.dropWhile isBlank

/-- Takes the rest of the name of a constant. -/
def expectWord : List Char → Bytes → Except Fault Bytes
  | [], bytes => .ok bytes
  | _ :: _, [] => .error .truncated
  | c :: later, b :: bytes => if b = code c then expectWord later bytes else .error .malformed

/-! ## Strings -/

/-- The value of a hexadecimal digit. -/
def hexDigit? (b : UInt8) : Option Nat :=
  if code '0' ≤ b && b ≤ code '9' then some (b - code '0').toNat
  else if code 'a' ≤ b && b ≤ code 'f' then some ((b - code 'a').toNat + 10)
  else if code 'A' ≤ b && b ≤ code 'F' then some ((b - code 'A').toNat + 10)
  else none

/-- Where in a string a reader stands. A character beyond the first 65536 is escaped as a pair, a
`high` half and a low half. -/
inductive StringState where
  | plain
  | afterBackslash
  /-- In an escape with `left` more digits, with the value so far unless there was a bad digit. -/
  | inHex (left : Nat) (value : Option Nat) (high : Option Nat)
  | awaitBackslash (high : Nat)
  | awaitU (high : Nat)

/-- The character for which a letter after a backslash stands. -/
def escaped? (b : UInt8) : Option UInt8 :=
  if b = code '"' || b = code '\\' || b = code '/' then some b
  else if b = code 'b' then some 0x08
  else if b = code 'f' then some 0x0c
  else if b = code 'n' then some 0x0a
  else if b = code 'r' then some 0x0d
  else if b = code 't' then some 0x09
  else none

/-- What follows an escape with four digits. If the value of the string is needed, halves have to
come in pairs. -/
def afterHex (needed : Bool) (taken : Bytes) (value : Nat) (high : Option Nat) :
    Except Fault (StringState × Bytes) :=
  let isLow := 0xdc00 ≤ value && value ≤ 0xdfff
  let isHigh := 0xd800 ≤ value && value ≤ 0xdbff
  let push (code : Nat) := ((Utf8.encode (String.singleton (Char.ofNat code))).reverse ++ taken)
  if !needed then .ok (.plain, taken)
  else match high with
    | some high =>
        if isLow then
          .ok (.plain, push (0x10000 + (high - 0xd800) * 0x400 + (value - 0xdc00)))
        else .error .malformed
    | none =>
        if isLow then .error .malformed
        else if isHigh then .ok (.awaitBackslash value, taken)
        else .ok (.plain, push value)

/-- Reads the rest of a string, after `taken` (the last byte first), up to its closing quote. -/
def scanString (needed : Bool) :
    StringState → (taken : Bytes) → Bytes → Except Fault (Bytes × Bytes)
  | _, _, [] => .error .truncated
  | .plain, taken, b :: bytes =>
      if b = code '"' then .ok (taken.reverse, bytes)
      else if b = code '\\' then scanString needed .afterBackslash taken bytes
      else if b < 0x20 then .error .malformed
      else scanString needed .plain (b :: taken) bytes
  | .afterBackslash, taken, b :: bytes =>
      if b = code 'u' then scanString needed (.inHex 4 (some 0) none) taken bytes
      else match escaped? b with
        | some value => scanString needed .plain (value :: taken) bytes
        | none => .error .malformed
  | .inHex left value high, taken, b :: bytes =>
      let value := value.bind fun v => (hexDigit? b).map fun d => v * 16 + d
      if 1 < left then scanString needed (.inHex (left - 1) value high) taken bytes
      else match value with
        | none => .error .malformed
        | some value =>
            match afterHex needed taken value high with
            | .ok (state, taken) => scanString needed state taken bytes
            | .error fault => .error fault
  | .awaitBackslash high, taken, b :: bytes =>
      if b = code '\\' then scanString needed (.awaitU high) taken bytes else .error .malformed
  | .awaitU high, taken, b :: bytes =>
      if b = code 'u' then scanString needed (.inHex 4 (some 0) (some high)) taken bytes
      else .error .malformed

/-- Reads a string whose opening quote has been taken. -/
def stringBody (bytes : Bytes) : Except Fault (String × Bytes) := do
  let (taken, rest) ← scanString true .plain [] bytes
  match Utf8.decode? taken with
  | some s => return (s, rest)
  | none => throw .malformed

/-- Skips a string whose opening quote has been taken. -/
def skipString (bytes : Bytes) : Except Fault Bytes :=
  (scanString false .plain [] bytes).map Prod.snd

/-! ## Numbers -/

/-- A number in a JSON text. -/
inductive Number where
  | integer (value : Int)
  | float (value : Float)

/-- The largest number that is kept exactly. -/
def maximumInteger : Nat := 0xffffffffffffffff

def isDigit (b : UInt8) : Bool := code '0' ≤ b && b ≤ code '9'

def digitValue (b : UInt8) : Nat := (b - code '0').toNat

/-- Appends digits to a number as long as it stays exact, and counts those that it takes. -/
def appendDigits : (value taken : Nat) → Bytes → Nat × Nat
  | value, taken, [] => (value, taken)
  | value, taken, d :: digits =>
      let next := value * 10 + digitValue d
      if maximumInteger < next then (value, taken) else appendDigits next (taken + 1) digits

/-- Multiplies by a power of ten, in steps that floating point numbers can hold. It fails if the
result is too large for a floating point number. -/
def scale : (steps : Nat) → Float → Int → Option Float
  | 0, f, _ => some f
  | steps + 1, f, exponent =>
      if exponent.natAbs ≤ 308 then
        let power := Float.ofScientific 1 false exponent.natAbs
        if 0 ≤ exponent then
          let product := f * power
          if product.isInf then none else some product
        else some (f / power)
      else if f == 0.0 then some f
      else if 0 ≤ exponent then none
      else scale steps (f / 1e308) (exponent + 308)

/-- The floating point number `digits · 10 ^ exponent`, with its sign. -/
def toFloat (negative : Bool) (digits : Nat) (exponent : Int) : Except Fault Number :=
  match scale 4 digits.toUInt64.toFloat exponent with
  | some f => .ok (.float (if negative then -f else f))
  | none => .error .malformed

/-- The largest exponent that is read. -/
def maximumExponent : Nat := 0x7fffffff

/-- Reads the exponent of a number after its letter. -/
def exponentPart (negative : Bool) (digits : Nat) (start : Int) (bytes : Bytes) :
    Except Fault (Number × Bytes) := do
  let (down, bytes) := match bytes with
    | b :: rest =>
        if b = code '+' then (false, rest) else if b = code '-' then (true, rest)
        else (false, bytes)
    | [] => (false, [])
  let exponentDigits := bytes.takeWhile isDigit
  let rest := bytes.dropWhile isDigit
  if exponentDigits.isEmpty then
    throw (if bytes.isEmpty then .truncated else .malformed)
  let exponent := exponentDigits.foldl (fun n d => n * 10 + digitValue d) 0
  if maximumExponent < exponent then
    if digits ≠ 0 && !down then throw .malformed
    return (.float (if negative then -0.0 else 0.0), rest)
  let number ← toFloat negative digits (if down then start - exponent else start + exponent)
  return (number, rest)

/-- Reads what can follow the digits of a number. -/
def exponentOrEnd (negative : Bool) (digits : Nat) (exponent : Int) (bytes : Bytes) :
    Except Fault (Number × Bytes) := do
  match bytes with
  | b :: rest =>
      if b = code 'e' || b = code 'E' then exponentPart negative digits exponent rest
      else return (← toFloat negative digits exponent, bytes)
  | [] => return (← toFloat negative digits exponent, [])

/-- Reads the digits after the point of a number. -/
def fractionPart (negative : Bool) (digits : Nat) (exponent : Int) (bytes : Bytes) :
    Except Fault (Number × Bytes) := do
  let fraction := bytes.takeWhile isDigit
  let rest := bytes.dropWhile isDigit
  if fraction.isEmpty then
    throw (if rest.isEmpty then .truncated else .malformed)
  let (digits, taken) := appendDigits digits 0 fraction
  exponentOrEnd negative digits (exponent - taken) rest

/-- Reads a number after its sign. Integers stay exact as long as they fit in 64 bits, except for
the negative zero, which is no integer. -/
def numberBody (negative : Bool) (bytes : Bytes) : Except Fault (Number × Bytes) := do
  let whole := bytes.takeWhile isDigit
  let rest := bytes.dropWhile isDigit
  match whole with
  | [] => throw (if rest.isEmpty then .truncated else .malformed)
  | first :: _ :: _ => if first = code '0' then throw .malformed
  | _ => pure ()
  let (digits, taken) := appendDigits 0 0 whole
  let dropped := whole.length - taken
  match rest with
  | b :: later =>
      if b = code '.' then return ← fractionPart negative digits dropped later
      if b = code 'e' || b = code 'E' then return ← exponentPart negative digits dropped later
  | [] => pure ()
  if 0 < dropped then
    return (← toFloat negative digits dropped, rest)
  if !negative then
    return (.integer digits, rest)
  if digits = 0 || 0x8000000000000000 < digits then
    return (.float (-digits.toUInt64.toFloat), rest)
  return (.integer (-digits), rest)

/-- Skips a number after its sign. -/
def skipNumber (bytes : Bytes) : Except Fault Bytes := do
  let whole := bytes.takeWhile isDigit
  let rest := bytes.dropWhile isDigit
  match whole with
  | [] => throw .malformed
  | first :: _ :: _ => if first = code '0' then throw .malformed
  | _ => pure ()
  let rest ← match rest with
    | b :: later =>
        if b = code '.' then
          if (later.takeWhile isDigit).isEmpty then throw .malformed
          pure (later.dropWhile isDigit)
        else pure rest
    | [] => pure []
  match rest with
  | b :: later =>
      if b = code 'e' || b = code 'E' then
        let unsigned := match later with
          | s :: more => if s = code '+' || s = code '-' then more else later
          | [] => []
        if (unsigned.takeWhile isDigit).isEmpty then throw .malformed
        return unsigned.dropWhile isDigit
      else return rest
  | [] => return []

/-! ## Values that are not needed -/

/-- What is being skipped, from the inside out. -/
inductive Container where
  | array
  | object
deriving DecidableEq

/-- What comes next when a value is skipped. -/
inductive Expectation where
  | value
  /-- The first element or member, or the end of an empty container. -/
  | firstOrEnd
  /-- A comma, or the end of the container. -/
  | commaOrEnd
  | key

/-- Skips a value that starts with the byte `b` and has no values in it. -/
def skipScalar (b : UInt8) (rest : Bytes) : Except Fault Bytes :=
  if b = code 'n' then expectWord "ull".toList rest
  else if b = code 't' then expectWord "rue".toList rest
  else if b = code 'f' then expectWord "alse".toList rest
  else if b = code '"' then skipString rest
  else if b = code '-' then skipNumber rest
  else if isDigit b then skipNumber (b :: rest)
  else .error .malformed

/-- Skips a value and the containers around it, in at most `steps` steps. -/
def skip : (steps : Nat) → Expectation → List Container → Bytes → Except Fault Bytes
  | 0, _, _, _ => .error .truncated
  | steps + 1, expected, inside, bytes =>
      match expected, inside, skipBlanks bytes with
      | .commaOrEnd, [], _ => .ok bytes
      | _, _, [] => .error .truncated
      | .value, _, b :: rest =>
          if b = code '[' then skip steps .firstOrEnd (.array :: inside) rest
          else if b = code '{' then skip steps .firstOrEnd (.object :: inside) rest
          else do skip steps .commaOrEnd inside (← skipScalar b rest)
      | .firstOrEnd, .array :: outside, b :: rest =>
          if b = code ']' then skip steps .commaOrEnd outside rest
          else skip steps .value inside (b :: rest)
      | .firstOrEnd, .object :: outside, b :: rest =>
          if b = code '}' then skip steps .commaOrEnd outside rest
          else skip steps .key inside (b :: rest)
      | .commaOrEnd, .array :: outside, b :: rest =>
          if b = code ',' then skip steps .value inside rest
          else if b = code ']' then skip steps .commaOrEnd outside rest
          else .error .malformed
      | .commaOrEnd, .object :: outside, b :: rest =>
          if b = code ',' then skip steps .key inside rest
          else if b = code '}' then skip steps .commaOrEnd outside rest
          else .error .malformed
      | .key, _, b :: rest => do
          if b ≠ code '"' then throw .malformed
          match skipBlanks (← skipString rest) with
          | [] => throw .truncated
          | c :: rest =>
              if c = code ':' then skip steps .value inside rest else throw .malformed
      | .firstOrEnd, [], _ => .error .malformed

/-- Skips a value. Each step takes a byte or is followed by one that does. -/
def skipValue (bytes : Bytes) : Except Fault Bytes := skip (2 * bytes.length + 2) .value [] bytes

end Namebridge.Json
