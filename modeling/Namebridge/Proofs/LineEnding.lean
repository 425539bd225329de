import Namebridge.Format.ReadableNames
import Namebridge.Format.Tiny
import Namebridge.Format.Tsrg
import Namebridge.Proofs.Line

/-!
# Line endings

`Ended` relates the texts of lines to the bytes of a file in which each of them ends in LF or CR LF,
or the last one in nothing or in a single CR. Such a file has exactly these lines
(`ofBytes_of_ended`), so no reader sees which endings it uses: `read_eq_of_ended`. The texts are
bytes and need not be UTF-8.
-/

namespace Namebridge

namespace Line

/-! ## Files with line endings -/

/-- A text of a line that is not confused with the ending after it. -/
structure Endable (text : Bytes) : Prop where
  no_feed : lineFeed ∉ text
  no_return : text.getLast? ≠ some carriageReturn

instance (text : Bytes) : Decidable (Endable text) :=
  decidable_of_iff (lineFeed ∉ text ∧ text.getLast? ≠ some carriageReturn)
    ⟨fun h => ⟨h.1, h.2⟩, fun h => ⟨h.no_feed, h.no_return⟩⟩

/-- The bytes of a file with these texts as its lines, each with an ending of its own. An empty line
at the end of a file needs a line feed to be seen. -/
inductive Ended : List Bytes → Bytes → Prop
  | nothing : Ended [] []
  | feed {text file : Bytes} {rest : List Bytes} (hrest : Ended rest file) :
      Ended (text :: rest) (text ++ lineFeed :: file)
  | returnFeed {text file : Bytes} {rest : List Bytes} (hrest : Ended rest file) :
      Ended (text :: rest) (text ++ carriageReturn :: lineFeed :: file)
  | unended {text : Bytes} (hne : text ≠ []) : Ended [text] text
  | unendedReturn {text : Bytes} (hne : text ≠ []) : Ended [text] (text ++ [carriageReturn])

/-- A line with this text, which may turn out not to be one. -/
def ofText (text : Bytes) (number : Nat) : Line :=
  ⟨number, match Utf8.decode? text with
    | some s => .ok s
    | none => .error .notUtf8⟩

/-- The lines with these texts. -/
def ofTexts (texts : List Bytes) : List Line :=
  (texts.zipIdx 1).map fun (text, number) => ofText text number

/-! ## Taking the endings off -/

theorem dropReturn_concat (text : Bytes) : dropReturn (text ++ [carriageReturn]) = text := by
  rw [dropReturn, List.getLast?_concat, if_pos rfl, List.dropLast_concat]

theorem Endable.dropReturn {text : Bytes} (h : Endable text) : dropReturn text = text :=
  if_neg h.no_return

theorem Endable.no_feed_concat {text : Bytes} (h : Endable text) :
    lineFeed ∉ text ++ [carriageReturn] := by
  rw [List.mem_append, not_or]
  exact ⟨h.no_feed, by decide⟩

/-- A line that ends in a line feed is the first piece of a file. -/
theorem map_trimEnd_pieces_cons {line : Bytes} (h : lineFeed ∉ line) (file : Bytes) :
    (pieces (line ++ lineFeed :: file)).map trimEnd
      = dropReturn (dropReturn line) :: (pieces file).map trimEnd := by
  rw [pieces_append, List.splitOn_eq_singleton h]
  rfl

/-- What follows the last line feed is a piece unless it is empty. -/
theorem map_trimEnd_pieces_unended {line : Bytes} (h : lineFeed ∉ line) (hne : line ≠ []) :
    (pieces line).map trimEnd = [dropReturn line] := by
  obtain ⟨b, rest, rfl⟩ := List.exists_cons_of_ne_nil hne
  rw [pieces, List.splitOn_eq_singleton h]
  rfl

/-- Without their endings, the pieces of a file are the texts of its lines. -/
theorem Ended.map_trimEnd_pieces {texts : List Bytes} {file : Bytes} (h : Ended texts file)
    (htexts : ∀ text ∈ texts, Endable text) : (pieces file).map trimEnd = texts := by
  induction h with
  | nothing => rfl
  | @feed text file rest hrest ih =>
      have htext := htexts text (by simp)
      rw [map_trimEnd_pieces_cons htext.no_feed, htext.dropReturn, htext.dropReturn,
        ih fun t ht => htexts t (by simp [ht])]
  | @returnFeed text file rest hrest ih =>
      have htext := htexts text (by simp)
      have hfile : text ++ carriageReturn :: lineFeed :: file
          = (text ++ [carriageReturn]) ++ lineFeed :: file := by simp
      rw [hfile, map_trimEnd_pieces_cons htext.no_feed_concat, dropReturn_concat, htext.dropReturn,
        ih fun t ht => htexts t (by simp [ht])]
  | @unended text hne =>
      have htext := htexts text (by simp)
      rw [map_trimEnd_pieces_unended htext.no_feed hne, htext.dropReturn]
  | @unendedReturn text hne =>
      have htext := htexts text (by simp)
      rw [map_trimEnd_pieces_unended htext.no_feed_concat (by simp), dropReturn_concat]

theorem decode_eq (piece : Bytes × Bool) (number : Nat) :
    (⟨number, decode piece⟩ : Line) = ofText (trimEnd piece) number := rfl

/-- A file has the lines that were ended in it. -/
theorem ofBytes_of_ended {texts : List Bytes} {file : Bytes} (h : Ended texts file)
    (htexts : ∀ text ∈ texts, Endable text) : ofBytes file = ofTexts texts := by
  rw [ofTexts, ← h.map_trimEnd_pieces htexts, List.zipIdx_map, List.map_map, ofBytes]
  exact List.map_congr_left fun piece _ => decode_eq piece.1 piece.2

end Line

/-! ## What readers see -/

/-- No reader tells two files apart: not by the table, nor by the order of its entries, nor by the
error, which quotes a line with its number. -/
structure ReadAlike (file file' : Bytes) : Prop where
  readableNames : ReadableNames.read file = ReadableNames.read file'
  tsrg : ∀ names, Tsrg.read names file = Tsrg.read names file'
  tiny : ∀ source target, Tiny.read source target file = Tiny.read source target file'

namespace Line

theorem readAlike_of_ofBytes_eq {file file' : Bytes} (h : ofBytes file = ofBytes file') :
    ReadAlike file file' where
  readableNames := congrArg ReadableNames.ofLines h
  tsrg names := congrArg (Tsrg.ofLines names) h
  tiny source target := congrArg (Tiny.ofLines source target) h

/-- **Line endings do not matter**: a file has the lines that were ended in it, whichever endings
they have, and all readers take two such files alike. -/
theorem read_eq_of_ended {texts : List Bytes} {file file' : Bytes}
    (htexts : ∀ text ∈ texts, Endable text) (h : Ended texts file) (h' : Ended texts file') :
    ofBytes file = ofTexts texts ∧ ReadAlike file file' := by
  have hfile := ofBytes_of_ended h htexts
  have hfile' := ofBytes_of_ended h' htexts
  exact ⟨hfile, readAlike_of_ofBytes_eq (hfile.trans hfile'.symm)⟩

/-- A return inside of a line stays, an empty line and one that is no UTF-8 keep their numbers, and
the last line may end in a return. -/
theorem read_eq_of_ended_mixed :
    ofBytes (Utf8.encode "a\rb,c\r\n" ++ (10 :: 255 :: 13 :: 10 :: Utf8.encode "d\r"))
        = ofTexts [Utf8.encode "a\rb,c", [], [255], Utf8.encode "d"] ∧
      ReadAlike (Utf8.encode "a\rb,c\r\n" ++ (10 :: 255 :: 13 :: 10 :: Utf8.encode "d\r"))
        (Utf8.encode "a\rb,c\n" ++ (13 :: 10 :: 255 :: 10 :: Utf8.encode "d")) := by
  have htexts : ∀ text ∈ [Utf8.encode "a\rb,c", [], [255], Utf8.encode "d"], Endable text := by
    decide
  exact read_eq_of_ended htexts
    (@Ended.returnFeed (Utf8.encode "a\rb,c") _ _ (@Ended.feed [] _ _ (@Ended.returnFeed [255] _ _
      (@Ended.unendedReturn (Utf8.encode "d") (by decide)))))
    (@Ended.feed (Utf8.encode "a\rb,c") _ _ (@Ended.returnFeed [] _ _ (@Ended.feed [255] _ _
      (@Ended.unended (Utf8.encode "d") (by decide)))))

end Line

end Namebridge
