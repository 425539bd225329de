import Namebridge.Text.Utf8

/-!
# Checksums

The cyclic redundancy check with 32 bits by which archives tell that the content of an entry is
damaged: the remainder of the content, taken as a polynomial over two elements, lowest bit first.
-/

namespace Namebridge.Archive

/-- Divides out one bit. -/
def checksumBit (sum : UInt32) : UInt32 :=
  if sum &&& 1 = 1 then (sum >>> 1) ^^^ 0xedb88320 else sum >>> 1

/-- Takes in one byte. -/
def checksumByte (sum : UInt32) (b : UInt8) : UInt32 :=
  Nat.repeat checksumBit 8 (sum ^^^ b.toUInt32)

/-- The checksum of a content. -/
def checksum (content : Bytes) : UInt32 :=
  content.foldl checksumByte 0xffffffff ^^^ 0xffffffff

/-- The check value that the standard gives for the digits from 1 to 9. -/
example : checksum (Utf8.encode "123456789") = 0xcbf43926 := by decide +kernel

end Namebridge.Archive
