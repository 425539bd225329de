import Namebridge.Text.Utf8
import Namebridge.Host.OsError

/-!
# Numbered lines

A text file as its lines, numbered from 1. A line feed ends a line, and what follows the last line
feed is a line of its own unless it is empty. Line endings may be LF or CR LF: `ofBytes` removes
them, so that no reader sees which of them a file uses.

Bytes that are no UTF-8 spoil their own line only, and a reader meets the fault when it comes to
that line.
-/

namespace Namebridge

/-- Why a line of a file cannot be read. -/
inductive Line.Fault where
  | notUtf8
  | refused (error : OsError)
deriving DecidableEq, Repr

def Line.Fault.message : Line.Fault → String
  | notUtf8 => "stream did not contain valid UTF-8"
  | refused error => error.message

/-- A line of a file: its number, counted from 1, and its text, if it can be read. -/
structure Line where
  number : Nat
  text : Except Line.Fault String

namespace Line

def lineFeed : UInt8 := 10
def carriageReturn : UInt8 := 13

/-- The lines of a file without their line feeds, each with the fact that it had one. Only the last
line can lack it. -/
def pieces (bytes : Bytes) : List (Bytes × Bool) :=
  let parts := bytes.splitOn lineFeed
  let unended := match parts.getLast? with
    | none | some [] => []
    | some last => [(last, false)]
  parts.dropLast.map (·, true) ++ unended

/-- Removes a carriage return at the end. -/
def dropReturn (bytes : Bytes) : Bytes :=
  if bytes.getLast? = some carriageReturn then bytes.dropLast else bytes

/-- Removes the line ending. A line feed takes a carriage return before it along, and then one more
is removed, as it is from a line without a line feed. -/
def trimEnd : Bytes × Bool → Bytes
  | (bytes, true) => dropReturn (dropReturn bytes)
  | (bytes, false) => dropReturn bytes

/-- The text of a line without its ending. -/
def decode (piece : Bytes × Bool) : Except Fault String :=
  match Utf8.decode? (trimEnd piece) with
  | some s => .ok s
  | none => .error .notUtf8

/-- The lines of a file with this content. -/
def ofBytes (bytes : Bytes) : List Line :=
  ((pieces bytes).zipIdx 1).map fun (piece, number) => ⟨number, decode piece⟩

/-- What a reader meets in a file that was opened but cannot be read. -/
def ofRefusal (error : OsError) : List Line := [⟨1, .error (.refused error)⟩]

/-- The lines of a file that may be unreadable. -/
def ofContent : Except OsError Bytes → List Line
  | .ok bytes => ofBytes bytes
  | .error error => ofRefusal error

/-- The message that a line cannot be read. -/
def unreadableMessage (number : Nat) : String :=
  s!"got a reader error on line {number}"

end Line

end Namebridge
