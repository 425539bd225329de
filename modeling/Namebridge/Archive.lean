import Namebridge.Archive.Checksum
import Namebridge.Archive.Inflate
import Namebridge.Host.OsError

/-!
# Archives

A zip archive is a sequence of entries, each a header with the packed content, then a directory of
the entries, then a mark that says where the directory starts. Numbers are written lowest byte
first.

`pack` writes an archive, `records` reads its directory, and `ofContent` all of it.
-/

namespace Namebridge.Archive

/-- Why an archive does not give the content of an entry. -/
inductive Fault where
  | notAnArchive
  | noEntry
  /-- The entry is packed in a way that is not known here. -/
  | unknownPacking
  | damaged
deriving DecidableEq, Repr

def Fault.message : Fault → String
  | notAnArchive => "invalid Zip archive"
  | noEntry => "specified file not found in archive"
  | unknownPacking => "unsupported Zip archive"
  | damaged => "the content of the entry is damaged"

/-- An archive that was opened: what is found under the name of an entry. What is found can still turn
out to be unreadable. -/
abbrev Opened := (entry : String) → Except Fault (Except Fault Bytes)

def entryMark : Nat := 0x04034b50
def recordMark : Nat := 0x02014b50
def endMark : Nat := 0x06054b50

/-- What the directory of an archive says about an entry. -/
structure Record where
  name : String
  packing : Nat
  checksum : Nat
  packedSize : Nat
  offset : Nat
deriving DecidableEq, Repr

/-! ## Reading -/

/-- The number in so many bytes. -/
def number (data : Array UInt8) (offset : Nat) : (width : Nat) → Option Nat
  | 0 => some 0
  | width + 1 => do
      let low ← data[offset]?
      let high ← number data (offset + 1) width
      return low.toNat + 256 * high

/-- The last place before `position` where the directory can end. -/
def findEnd (data : Array UInt8) : (position : Nat) → Option Nat
  | 0 => none
  | position + 1 =>
      if number data position 4 = some endMark then some position else findEnd data position

/-- The bytes from `offset` on, if there are so many. -/
def slice (data : Array UInt8) (offset count : Nat) : Option Bytes :=
  if offset + count ≤ data.size then some (data.extract offset (offset + count)).toList else none

/-- Reads so many records from `offset` on. -/
def recordsFrom (data : Array UInt8) : (count offset : Nat) → Option (List Record)
  | 0, _ => some []
  | count + 1, offset => do
      guard ((← number data offset 4) = recordMark)
      let nameLength ← number data (offset + 28) 2
      let extraLength ← number data (offset + 30) 2
      let commentLength ← number data (offset + 32) 2
      let record : Record := {
        name := ← Utf8.decode? (← slice data (offset + 46) nameLength)
        packing := ← number data (offset + 10) 2
        checksum := ← number data (offset + 16) 4
        packedSize := ← number data (offset + 20) 4
        offset := ← number data (offset + 42) 4 }
      let later ← recordsFrom data count (offset + 46 + nameLength + extraLength + commentLength)
      return record :: later

/-- The directory of an archive. -/
def records (data : Array UInt8) : Option (List Record) := do
  let position ← findEnd data (data.size - 21)
  let count ← number data (position + 10) 2
  let offset ← number data (position + 16) 4
  recordsFrom data count offset

/-- The packed content of an entry. -/
def packed (data : Array UInt8) (record : Record) : Option Bytes := do
  guard ((← number data record.offset 4) = entryMark)
  let nameLength ← number data (record.offset + 26) 2
  let extraLength ← number data (record.offset + 28) 2
  slice data (record.offset + 30 + nameLength + extraLength) record.packedSize

/-- The content of an entry. -/
def content (data : Array UInt8) (record : Record) : Except Fault Bytes := do
  let some packed := packed data record | throw .damaged
  let unpacked ← match record.packing with
    | 0 => pure packed
    | 8 =>
        match inflate packed with
        | some unpacked => pure unpacked
        | none => throw .damaged
    | _ => throw .unknownPacking
  if (checksum unpacked).toNat ≠ record.checksum then throw .damaged
  return unpacked

/-- The last entry of that name. One that is packed in an unknown way is not found. -/
def find (data : Array UInt8) (found : List Record) (name : String) :
    Except Fault (Except Fault Bytes) :=
  match found.reverse.find? fun record => record.name = name with
  | none => .error .noEntry
  | some record =>
      match content data record with
      | .error .unknownPacking => .error .unknownPacking
      | result => .ok result

/-- Reads an archive that was opened as a file but can be unreadable. -/
def ofContent : Except OsError Bytes → Except Fault Opened
  | .error _ => .error .damaged
  | .ok bytes =>
      match records bytes.toArray with
      | none => .error .notAnArchive
      | some found => .ok (find bytes.toArray found)

/-! ## Writing -/

/-- A number in so many bytes. -/
def digits : (width : Nat) → Nat → Bytes
  | 0, _ => []
  | width + 1, n => (n % 256).toUInt8 :: digits width (n / 256)

/-- The part that the header of an entry and its record in the directory share: version, flags (the
name is UTF-8), packing, time, checksum, sizes, and the length of the name. -/
def description (name : Bytes) (content : Bytes) : Bytes :=
  digits 2 20 ++ digits 2 0x800 ++ digits 2 0 ++ digits 4 0x00210000
    ++ digits 4 (checksum content).toNat ++ digits 4 content.length ++ digits 4 content.length
    ++ digits 2 name.length ++ digits 2 0

/-- An entry with its header. -/
def packEntry (entry : String × Bytes) : Bytes :=
  let name := Utf8.encode entry.1
  digits 4 entryMark ++ description name entry.2 ++ name ++ entry.2

/-- The record of an entry that starts at `offset`. -/
def packRecord (entry : String × Bytes) (offset : Nat) : Bytes :=
  let name := Utf8.encode entry.1
  digits 4 recordMark ++ digits 2 20 ++ description name entry.2 ++ digits 2 0 ++ digits 2 0
    ++ digits 2 0 ++ digits 4 0 ++ digits 4 offset ++ name

/-- The records of entries, the first of which starts at `offset`. -/
def packRecords : (offset : Nat) → List (String × Bytes) → Bytes
  | _, [] => []
  | offset, entry :: later =>
      packRecord entry offset ++ packRecords (offset + (packEntry entry).length) later

/-- The archive with these entries, each as it is. -/
def pack (entries : List (String × Bytes)) : Bytes :=
  let body := entries.flatMap packEntry
  let directory := packRecords 0 entries
  body ++ directory ++ digits 4 endMark ++ digits 2 0 ++ digits 2 0 ++ digits 2 entries.length
    ++ digits 2 entries.length ++ digits 4 directory.length ++ digits 4 body.length ++ digits 2 0

end Namebridge.Archive
