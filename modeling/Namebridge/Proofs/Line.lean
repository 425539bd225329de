import Namebridge.Text.Line

/-!
# The lines of a file

Lines are numbered from 1 (`number_of_ofBytes`), and what follows a line feed changes nothing about
the lines before it (`prefix_ofBytes_append`). Texts that are written with a line feed after each
are read back as lines (`ofBytes_encode_unlines`).
-/

namespace Namebridge

/-! ## The bytes of a text -/

namespace Utf8

theorem encode_eq_flatMap (s : String) : encode s = s.toList.flatMap String.utf8EncodeChar := by
  rw [encode, String.toUTF8, ← String.utf8Encode_toList, List.utf8Encode,
    List.toList_data_toByteArray]

theorem encode_append (s t : String) : encode (s ++ t) = encode s ++ encode t := by
  simp only [encode_eq_flatMap, String.toList_append, List.flatMap_append]

/-- All bytes of a character beyond ASCII are at least 128. -/
theorem le_of_mem_utf8EncodeChar {c : Char} {b : UInt8} (hc : ¬ c.val.toNat ≤ 127)
    (hb : b ∈ String.utf8EncodeChar c) : 128 ≤ b.toNat := by
  unfold String.utf8EncodeChar at hb
  simp only [if_neg hc] at hb
  split at hb
  · simp only [List.mem_cons, List.not_mem_nil, or_false] at hb
    rcases hb with rfl | rfl <;> simp only [UInt8.toNat_ofNat'] <;> omega
  · split at hb
    · simp only [List.mem_cons, List.not_mem_nil, or_false] at hb
      rcases hb with rfl | rfl | rfl <;> simp only [UInt8.toNat_ofNat'] <;> omega
    · simp only [List.mem_cons, List.not_mem_nil, or_false] at hb
      rcases hb with rfl | rfl | rfl | rfl <;> simp only [UInt8.toNat_ofNat'] <;> omega

/-- A byte below 128 is a character of its own, and no part of another one. -/
theorem eq_of_mem_utf8EncodeChar {c : Char} {b : UInt8} (hb : b ∈ String.utf8EncodeChar c)
    (hlt : b.toNat < 128) : c.toNat = b.toNat := by
  by_cases hc : c.val.toNat ≤ 127
  · unfold String.utf8EncodeChar at hb
    simp only [if_pos hc, List.mem_singleton] at hb
    rw [hb, UInt8.toNat_ofNat', Nat.mod_eq_of_lt (by omega)]
    rfl
  · have hle := le_of_mem_utf8EncodeChar hc hb
    omega

theorem mem_of_mem_encode {s : String} {b : UInt8} (h : b ∈ encode s) (hlt : b.toNat < 128) :
    Char.ofNat b.toNat ∈ s.toList := by
  rw [encode_eq_flatMap, List.mem_flatMap] at h
  obtain ⟨c, hc, hb⟩ := h
  rw [← eq_of_mem_utf8EncodeChar hb hlt, Char.ofNat_toNat]
  exact hc

end Utf8

namespace Line

/-! ## Numbers -/

theorem number_of_ofBytes {file : Bytes} {above below : List Line} {line : Line}
    (h : ofBytes file = above ++ line :: below) : line.number = above.length + 1 := by
  have hget : (ofBytes file)[above.length]? = some line := by simp [h]
  rw [ofBytes, List.getElem?_map, List.getElem?_zipIdx, Option.map_map,
    Option.map_eq_some_iff] at hget
  obtain ⟨piece, -, rfl⟩ := hget
  exact Nat.add_comm 1 above.length

/-- The message that a line cannot be read ends with its number. -/
theorem exists_unreadableMessage_eq (number : Nat) :
    ∃ opening, unreadableMessage number = opening ++ " line " ++ toString number := by
  have hreader : "got a reader error on line " = "got a reader error on" ++ " line " := by decide
  exact ⟨_, congrArg (· ++ toString number) hreader⟩

/-- What stands in the lines of a file, whatever their numbers are. -/
def texts (file : Bytes) : List (Except Fault String) := (ofBytes file).map text

/-! ## More bytes -/

theorem pieces_append (start rest : Bytes) :
    pieces (start ++ lineFeed :: rest)
      = (start.splitOn lineFeed).map (·, true) ++ pieces rest := by
  have hsplit : (start ++ lineFeed :: rest).splitOn lineFeed
      = start.splitOn lineFeed ++ rest.splitOn lineFeed := List.splitOn_append_cons_self start rest
  have hrest : rest.splitOn lineFeed ≠ [] := List.splitOn_ne_nil lineFeed rest
  have hlast : (start.splitOn lineFeed ++ rest.splitOn lineFeed).getLast?
      = (rest.splitOn lineFeed).getLast? := by
    rw [List.getLast?_append, List.getLast?_eq_some_getLast hrest, Option.some_or]
  simp only [pieces, hsplit, hlast, List.dropLast_append_of_ne_nil hrest, List.map_append,
    List.append_assoc]

theorem pieces_nil : pieces [] = [] := rfl

/-- Lines that are ended stay what they are, whatever follows. -/
theorem prefix_ofBytes_append (start rest : Bytes) :
    ofBytes (start ++ [lineFeed]) <+: ofBytes (start ++ lineFeed :: rest) := by
  rw [ofBytes, ofBytes, pieces_append, pieces_append, pieces_nil, List.append_nil,
    List.zipIdx_append, List.map_append]
  exact List.prefix_append _ _

/-! ## Lines that are written -/

/-- A text that is one line when a line feed is written after it. -/
structure Unbroken (text : String) : Prop where
  no_feed : '\n' ∉ text.toList
  no_return : '\r' ∉ text.toList

instance (text : String) : Decidable (Unbroken text) :=
  decidable_of_iff ('\n' ∉ text.toList ∧ '\r' ∉ text.toList)
    ⟨fun h => ⟨h.1, h.2⟩, fun h => ⟨h.no_feed, h.no_return⟩⟩

theorem Unbroken.append {s t : String} (hs : Unbroken s) (ht : Unbroken t) : Unbroken (s ++ t) :=
  ⟨by simp [hs.no_feed, ht.no_feed], by simp [hs.no_return, ht.no_return]⟩

/-- The text of a file with these lines. -/
def unlines (texts : List String) : String := String.join (texts.map (· ++ "\n"))

/-- Lines with these texts, numbered from `n` on. -/
def numbered : (n : Nat) → (texts : List String) → List Line
  | _, [] => []
  | n, text :: rest => ⟨n, .ok text⟩ :: numbered (n + 1) rest

theorem dropReturn_encode {text : String} (h : Unbroken text) :
    dropReturn (Utf8.encode text) = Utf8.encode text := by
  refine if_neg fun hlast => h.no_return ?_
  exact Utf8.mem_of_mem_encode (List.mem_of_getLast? hlast) (by decide)

theorem decode_encode {text : String} (h : Unbroken text) :
    decode (Utf8.encode text, true) = .ok text := by
  rw [decode, trimEnd, dropReturn_encode h, dropReturn_encode h, Utf8.decode_encode]

theorem pieces_encode_unlines {texts : List String} (h : ∀ text ∈ texts, Unbroken text) :
    pieces (Utf8.encode (unlines texts)) = texts.map fun text => (Utf8.encode text, true) := by
  induction texts with
  | nil => rfl
  | cons text rest ih =>
      have hwritten : Utf8.encode (unlines (text :: rest))
          = Utf8.encode text ++ lineFeed :: Utf8.encode (unlines rest) := by
        rw [unlines, List.map_cons, String.join_cons, Utf8.encode_append, Utf8.encode_append,
          List.append_assoc]
        rfl
      have hnot : lineFeed ∉ Utf8.encode text := fun hmem =>
        (h text (by simp)).no_feed (Utf8.mem_of_mem_encode hmem (by decide))
      rw [hwritten, pieces_append, List.splitOn_eq_singleton hnot,
        ih fun text htext => h text (by simp [htext])]
      rfl

theorem zipIdx_decode_encode {texts : List String} (h : ∀ text ∈ texts, Unbroken text) (n : Nat) :
    (texts.zipIdx n).map (fun (text, k) => (⟨k, decode (Utf8.encode text, true)⟩ : Line))
      = numbered n texts := by
  induction texts generalizing n with
  | nil => rfl
  | cons text rest ih =>
      rw [List.zipIdx_cons, List.map_cons, ih (fun text htext => h text (by simp [htext])) (n + 1)]
      show (⟨n, decode (Utf8.encode text, true)⟩ : Line) :: numbered (n + 1) rest = _
      rw [decode_encode (h text (by simp)), numbered]

/-- Lines without line endings of their own are read back. -/
theorem ofBytes_encode_unlines {texts : List String} (h : ∀ text ∈ texts, Unbroken text) :
    ofBytes (Utf8.encode (unlines texts)) = numbered 1 texts := by
  rw [ofBytes, pieces_encode_unlines h, List.zipIdx_map, List.map_map]
  exact zipIdx_decode_encode h 1

end Line

end Namebridge
