/-!
# Text and its bytes

The bytes of a text are its UTF-8 encoding, from which it reads back (`decode_encode`).
-/

namespace Namebridge

/-- The content of a file, or of an entry of an archive. -/
abbrev Bytes := List UInt8

namespace Utf8

/-- The bytes of a text. -/
def encode (s : String) : Bytes := s.toUTF8.data.toList

/-- The text with these bytes, if they are well formed. -/
def decode? (bytes : Bytes) : Option String := String.fromUTF8? ⟨bytes.toArray⟩

@[simp] theorem decode_encode (s : String) : decode? (encode s) = some s := by
  have h : ByteArray.mk s.toUTF8.data.toList.toArray = s.toByteArray := by
    simp [String.toUTF8]
  rw [decode?, encode, h, String.fromUTF8?, dif_pos s.isValidUTF8]
  rfl

/-- Whether the bytes of `a` come before or are those of `b` in lexicographic order. -/
def le (a b : String) : Bool := !List.lex (encode b) (encode a)

end Utf8

end Namebridge
