import Namebridge.Text.Utf8

/-!
# Deflated content

Content is deflated into blocks. A block holds bytes as they are, or literal bytes and references to
earlier content, written in a prefix code that is fixed or that the block begins with. `inflate`
gives the content back, or nothing if the blocks are damaged.
-/

namespace Namebridge.Archive

/-- Deflated bytes, and the number of bits that were taken from them, lowest bits first. -/
structure BitSource where
  data : Array UInt8
  position : Nat := 0

/-- A reading of bits, which fails if they run out or make no sense. -/
abbrev Bits := StateT BitSource Option

namespace Bits

/-- Takes one bit. -/
def one : Bits Nat := do
  let source ← get
  let byte ← (source.data[source.position / 8]? : Option UInt8)
  set { source with position := source.position + 1 }
  return byte.toNat >>> (source.position % 8) % 2

/-- Takes a number of so many bits, the lowest first. -/
def number : (width : Nat) → Bits Nat
  | 0 => return 0
  | width + 1 => do
      let low ← one
      return low + 2 * (← number width)

/-- Skips to the next full byte. -/
def alignToByte : Bits Unit :=
  modify fun source => { source with position := (source.position + 7) / 8 * 8 }

end Bits

/-- A prefix code: for each length from 1 on, how many words have it, and the symbols in the order
of their words. Words of one length are consecutive numbers, and shorter words come first. -/
structure PrefixCode where
  counts : List Nat
  symbols : Array Nat

/-- The most bits that a word of a prefix code has. -/
def maximumWord : Nat := 15

/-- The prefix code in which each symbol has a word of the given length. Symbols with length 0 have
no word. -/
def PrefixCode.ofLengths (lengths : List Nat) : PrefixCode :=
  let numbered := lengths.zipIdx
  let ofLength (length : Nat) : List Nat :=
    numbered.filterMap fun (l, symbol) => if l = length then some symbol else none
  let widths := List.range' 1 maximumWord
  ⟨widths.map fun width => (ofLength width).length, (widths.flatMap ofLength).toArray⟩

/-- Takes a word bit by bit. `first` is the first word of the present length, and `index` the number
of symbols with shorter words. -/
def PrefixCode.walk (symbols : Array Nat) :
    (counts : List Nat) → (word first index : Nat) → Bits Nat
  | [], _, _, _ => failure
  | count :: longer, word, first, index => do
      let word := word + (← Bits.one)
      if word < first + count then (symbols[index + (word - first)]? : Option Nat)
      else walk symbols longer (2 * word) (2 * (first + count)) (index + count)

/-- Takes a word, and gives its symbol. -/
def PrefixCode.symbol (code : PrefixCode) : Bits Nat := walk code.symbols code.counts 0 0 0

/-- The number that a symbol stands for, of those with a base and a count of extra bits. -/
def withExtra (table : List (Nat × Nat)) (index : Nat) : Bits Nat := do
  let (base, extra) ← (table[index]? : Option (Nat × Nat))
  return base + (← Bits.number extra)

/-- The lengths of references, from symbol 257 on. -/
def lengthTable : List (Nat × Nat) :=
  [(3, 0), (4, 0), (5, 0), (6, 0), (7, 0), (8, 0), (9, 0), (10, 0), (11, 1), (13, 1), (15, 1),
    (17, 1), (19, 2), (23, 2), (27, 2), (31, 2), (35, 3), (43, 3), (51, 3), (59, 3), (67, 4),
    (83, 4), (99, 4), (115, 4), (131, 5), (163, 5), (195, 5), (227, 5), (258, 0)]

/-- How far back references go. -/
def distanceTable : List (Nat × Nat) :=
  [(1, 0), (2, 0), (3, 0), (4, 0), (5, 1), (7, 1), (9, 2), (13, 2), (17, 3), (25, 3), (33, 4),
    (49, 4), (65, 5), (97, 5), (129, 6), (193, 6), (257, 7), (385, 7), (513, 8), (769, 8),
    (1025, 9), (1537, 9), (2049, 10), (3073, 10), (4097, 11), (6145, 11), (8193, 12), (12289, 12),
    (16385, 13), (24577, 13)]

/-- Appends so many bytes of earlier content, which can reach into those that are appended. -/
def copyBack (distance : Nat) : (count : Nat) → Array UInt8 → Option (Array UInt8)
  | 0, content => some content
  | count + 1, content =>
      if 0 < distance && distance ≤ content.size then
        (content[content.size - distance]?).bind fun b => copyBack distance count (content.push b)
      else none

/-- Reads literal bytes and references up to the end of a block, at most `steps` of them. -/
def readCoded (literals distances : PrefixCode) :
    (steps : Nat) → Array UInt8 → Bits (Array UInt8)
  | 0, _ => failure
  | steps + 1, content => do
      let symbol ← literals.symbol
      if symbol < 256 then readCoded literals distances steps (content.push symbol.toUInt8)
      else if symbol = 256 then return content
      else
        let length ← withExtra lengthTable (symbol - 257)
        let distance ← withExtra distanceTable (← distances.symbol)
        readCoded literals distances steps (← copyBack distance length content)

/-- The prefix codes of a block that does not bring its own. -/
def fixedCodes : PrefixCode × PrefixCode :=
  (.ofLengths (List.replicate 144 8 ++ List.replicate 112 9 ++ List.replicate 24 7
    ++ List.replicate 8 8), .ofLengths (List.replicate 30 5))

/-- The order in which a block gives the lengths of the words for lengths. -/
def lengthOrder : List Nat := [16, 17, 18, 0, 8, 7, 9, 6, 10, 5, 11, 4, 12, 3, 13, 2, 14, 1, 15]

/-- Reads the lengths of words, of which `count` are missing, after those in `lengths` (the last one
first). A word can stand for several equal lengths. -/
def readLengths (code : PrefixCode) :
    (steps count : Nat) → (lengths : List Nat) → Bits (List Nat)
  | _, 0, lengths => return lengths.reverse
  | 0, _ + 1, _ => failure
  | steps + 1, count + 1, lengths => do
      let symbol ← code.symbol
      if symbol < 16 then readLengths code steps count (symbol :: lengths)
      else
        let length ← if symbol = 16 then (lengths.head? : Option Nat) else pure 0
        let times ←
          if symbol = 16 then pure (3 + (← Bits.number 2))
          else if symbol = 17 then pure (3 + (← Bits.number 3))
          else pure (11 + (← Bits.number 7))
        if count + 1 < times then failure
        readLengths code steps (count + 1 - times) (List.replicate times length ++ lengths)

/-- Reads the prefix codes at the start of a block. -/
def readCodes : Bits (PrefixCode × PrefixCode) := do
  let literalCount := 257 + (← Bits.number 5)
  let distanceCount := 1 + (← Bits.number 5)
  let orderCount := 4 + (← Bits.number 4)
  let given ← (List.replicate orderCount ()).mapM fun _ => Bits.number 3
  let assigned := (lengthOrder.take orderCount).zip given
  let code := PrefixCode.ofLengths
    ((List.range 19).map fun symbol => (assigned.lookup symbol).getD 0)
  let total := literalCount + distanceCount
  let lengths ← readLengths code total total []
  return (.ofLengths (lengths.take literalCount), .ofLengths (lengths.drop literalCount))

/-- Reads a block of bytes as they are. -/
def readStored (content : Array UInt8) : Bits (Array UInt8) := do
  Bits.alignToByte
  let length ← Bits.number 16
  let inverted ← Bits.number 16
  if length + inverted ≠ 0xffff then failure
  let bytes ← (List.replicate length ()).mapM fun _ => Bits.number 8
  return content ++ (bytes.map Nat.toUInt8).toArray

/-- Reads blocks up to the last one, at most `steps` of them. -/
def readBlocks (symbols : Nat) : (steps : Nat) → Array UInt8 → Bits (Array UInt8)
  | 0, _ => failure
  | steps + 1, content => do
      let isLast ← Bits.one
      let kind ← Bits.number 2
      let content ← match kind with
        | 0 => readStored content
        | 1 => readCoded fixedCodes.1 fixedCodes.2 symbols content
        | 2 =>
            let (literals, distances) ← readCodes
            readCoded literals distances symbols content
        | _ => failure
      if isLast = 1 then return content else readBlocks symbols steps content

/-- The content that was deflated. Each block and each symbol takes at least one bit. -/
def inflate (deflated : Bytes) : Option Bytes :=
  let bits := 8 * deflated.length + 1
  ((readBlocks bits bits #[]).run { data := deflated.toArray }).map fun (content, _) =>
    content.toList

end Namebridge.Archive
