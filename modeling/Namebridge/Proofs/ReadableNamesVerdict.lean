import Namebridge.Proofs.Line
import Namebridge.Proofs.ReadableNames

/-!
# What a file says about readable names

The first line of a file has to be there and to be readable, and says nothing. Below it a line
offends if it cannot be read, or has no comma: `Offends`. The first such line decides. Without one
the file is read, and of each line the two first columns count: of several lines for one identifier
the first gives the place, and the last gives the name (`Shows`). That is `read_twoColumns`.
-/

namespace Namebridge.ReadableNames

variable {lines : List Line} {rows : List (String × String)}

/-! ## Lines that offend -/

/-- What is wrong with a line after the header. -/
inductive Offends (line : Line) : Error → Prop
  | unreadable {fault : Line.Fault} (htext : line.text = .error fault) :
      Offends line (.unreadable line.number fault)
  | short {text : String} (htext : line.text = .ok text) (hcomma : ',' ∉ text.toList) :
      Offends line (.shortRow line.number text)

/-- No line offends. -/
def Sound (lines : List Line) : Prop := ∀ line ∈ lines, ∀ e, ¬ Offends line e

/-- The message of an error has the number of a line, and after it a colon or nothing. -/
def Error.NamesLine (e : Error) (number : Nat) : Prop :=
  ∃ opening closing, e.trail.head? = some (opening ++ " line " ++ toString number ++ closing) ∧
    ∀ c ∈ closing.toList.head?, c = ':'

theorem Offends.namesLine {line : Line} {e : Error} (h : Offends line e) :
    e.NamesLine line.number := by
  cases h with
  | unreadable htext =>
      obtain ⟨opening, hopening⟩ := Line.exists_unreadableMessage_eq line.number
      refine ⟨opening, "", ?_, by simp⟩
      rw [String.append_empty]
      exact congrArg some hopening
  | @short text htext hcomma =>
      have hin : "expected at least two fields in line "
          = "expected at least two fields in" ++ " line " := by decide
      refine ⟨"expected at least two fields in", ": " ++ Text.quoted text, ?_, by simp⟩
      rw [← hin, ← String.append_assoc]
      rfl

/-- A line is refused for what is wrong with it. -/
theorem parseRow_eq_error_iff (line : Line) (e : Error) :
    parseRow line = .error e ↔ Offends line e := by
  simp only [parseRow, lineText, Traversal.bind_eq_error_iff, Traversal.mapError_eq_error_iff,
    Traversal.mapError_eq_ok_iff]
  constructor
  · rintro (⟨fault, htext, rfl⟩ | ⟨text, htext, h⟩)
    · exact .unreadable htext
    · split at h
      · cases h
      · rename_i hfields
        cases h
        refine .short htext fun hcomma => ?_
        obtain ⟨id, name, more, hmore⟩ := (Text.exists_fields_eq_cons_cons_iff ',' text).mpr hcomma
        exact hfields id name more hmore
  · intro h
    cases h with
    | unreadable htext => exact .inl ⟨_, htext, rfl⟩
    | @short text htext hcomma =>
        refine .inr ⟨text, htext, ?_⟩
        split
        · rename_i id name more hfields
          exact absurd ((Text.exists_fields_eq_cons_cons_iff ',' text).mp ⟨_, _, _, hfields⟩) hcomma
        · rfl

theorem sound_iff (lines : List Line) :
    Sound lines ↔ ∀ line ∈ lines, ∃ row, parseRow line = .ok row := by
  have hline (line : Line) : (∀ e, ¬ Offends line e) ↔ ∃ row, parseRow line = .ok row := by
    simp only [← parseRow_eq_error_iff]
    cases parseRow line <;> simp
  simp only [Sound, hline]

/-! ## What is shown of the lines -/

/-- A line has this identifier before its first comma. -/
def HasId (line : Line) (id : String) : Prop := ∃ name, SaysRow line (id, name)

/-- What the lines after a header call an identifier: what the last line that has it says, or the
identifier itself. -/
inductive Calls (lines : List Line) (id : String) : String → Prop
  | named {above below : List Line} {line : Line} {name : String}
      (hlines : lines = above ++ line :: below) (hline : SaysRow line (id, name))
      (hlast : ∀ l ∈ below, ¬ HasId l id) : Calls lines id name
  | unnamed (hnone : ∀ line ∈ lines, ¬ HasId line id) : Calls lines id id

/-- What a table shows of the lines after a header. -/
structure Shows (lines : List Line) (t : NameTable) : Prop where
  calls : ∀ id, Calls lines id (t.rename id)
  /-- The identifiers stand in the order of their first lines. -/
  ordered : ∃ ids, List.Forall₂ HasId lines ids ∧ (∀ id, id ∈ t.keys ↔ id ∈ ids) ∧
    t.keys.Pairwise fun a b => ids.idxOf a < ids.idxOf b

theorem exists_hasId_iff (hrows : List.Forall₂ SaysRow lines rows) (id : String) :
    (∃ line ∈ lines, HasId line id) ↔ id ∈ rows.map Prod.fst := by
  constructor
  · rintro ⟨line, hline, name, hsays⟩
    obtain ⟨row, hrow, hsays'⟩ := Traversal.exists_of_mem_left hrows hline
    exact List.mem_map.mpr ⟨row, hrow, congrArg Prod.fst (hsays'.unique hsays)⟩
  · intro h
    obtain ⟨⟨_, name⟩, hrow, rfl⟩ := List.mem_map.mp h
    obtain ⟨line, hline, hsays⟩ := Traversal.exists_of_mem_right hrows hrow
    exact ⟨line, hline, name, hsays⟩

/-- The table of the rows shows the lines that say them. -/
theorem shows_ofPairs (hrows : List.Forall₂ SaysRow lines rows) : Shows lines (.ofPairs rows) := by
  refine ⟨fun id => ?calls, rows.map Prod.fst, ?ids, ?keys, ?order⟩
  case calls =>
    cases hget : (OrderedMap.ofPairs rows).get? id with
    | none =>
        rw [NameTable.rename_of_get?_eq_none hget]
        rw [OrderedMap.get?_eq_none_iff, OrderedMap.keys_ofPairs, List.mem_eraseDups] at hget
        exact .unnamed fun line hline hid =>
          hget ((exists_hasId_iff hrows id).mp ⟨line, hline, hid⟩)
    | some name =>
        rw [NameTable.rename_of_get? hget]
        obtain ⟨before, after, rfl, hafter⟩ :=
          (OrderedMap.get?_ofPairs_eq_some_iff rows id name).mp hget
        -- the lines are cut where their rows are
        obtain ⟨above, rest, habove, hrest, rfl⟩ :=
          Traversal.forall₂_append_left_iff.mp hrows.flip
        obtain ⟨line, below, hline, hbelow, rfl⟩ := List.forall₂_cons_left_iff.mp hrest
        exact .named rfl hline fun l hl hid =>
          hafter ((exists_hasId_iff hbelow.flip id).mp ⟨l, hl, hid⟩)
  case ids =>
    rw [List.forall₂_map_right_iff]
    exact hrows.imp fun _ row hsays => ⟨row.2, hsays⟩
  case keys =>
    intro id
    rw [OrderedMap.keys_ofPairs, List.mem_eraseDups]
  case order =>
    rw [OrderedMap.keys_ofPairs]
    exact OrderedMap.pairwise_idxOf_eraseDups _

/-! ## The verdict -/

/-- What becomes of the lines of a file. -/
inductive Verdict : List Line → Except Error NameTable → Prop
  /-- There has to be a header. -/
  | noHeader : Verdict [] (.error .noHeader)
  | badHeader {header : Line} {below : List Line} {fault : Line.Fault}
      (htext : header.text = .error fault) :
      Verdict (header :: below) (.error (.unreadable header.number fault))
  /-- Below it the first line that offends is blamed. -/
  | badLine {header line : Line} {text : String} {above below : List Line} {e : Error}
      (htext : header.text = .ok text) (habove : Sound above) (hline : Offends line e)
      (hnumber : line.number = above.length + 2) (hmessage : e.NamesLine (above.length + 2)) :
      Verdict (header :: (above ++ line :: below)) (.error e)
  /-- Without one the file is read. -/
  | accepted {header : Line} {text : String} {lines : List Line} {t : NameTable}
      (htext : header.text = .ok text) (hsound : Sound lines)
      (hshows : Shows lines t) : Verdict (header :: lines) (.ok t)

theorem ofLines_cons (header : Line) (lines : List Line) :
    ofLines (header :: lines)
      = lineText header >>= fun _ => (lines.mapM parseRow).map OrderedMap.ofPairs := by
  rw [ofLines]
  cases lineText header <;> cases lines.mapM parseRow <;> rfl

theorem verdict_ofLines {header : Line} {lines : List Line}
    (hnumber : ∀ above line below, lines = above ++ line :: below →
      line.number = above.length + 2) :
    Verdict (header :: lines) (ofLines (header :: lines)) := by
  rw [ofLines_cons, lineText]
  cases htext : header.text with
  | error fault => exact .badHeader htext
  | ok text =>
      show Verdict _ ((lines.mapM parseRow).map OrderedMap.ofPairs)
      cases hrows : lines.mapM parseRow with
      | ok rows =>
          have hsound := (sound_iff lines).mpr ((Traversal.exists_mapM_iff _ _).mp ⟨rows, hrows⟩)
          simp only [Traversal.mapM_eq_ok_iff, parseRow_eq_ok_iff] at hrows
          exact .accepted htext hsound (shows_ofPairs hrows)
      | error e =>
          obtain ⟨above, line, below, rfl, habove, hline⟩ :=
            (Traversal.mapM_eq_error_iff parseRow lines e).mp hrows
          have hoffends := (parseRow_eq_error_iff line e).mp hline
          have hplace := hnumber above line below rfl
          exact .badLine htext ((sound_iff above).mpr habove) hoffends hplace
            (hplace ▸ hoffends.namesLine)

/-- **The two first columns are read**: a table of readable names fails at a header that is not there
or cannot be read, else at its first line that cannot be read or has no comma, by the number of the
line. Else it calls each identifier what the last line with it says. What a header says changes
nothing. -/
theorem read_twoColumns (file : Bytes) :
    Verdict (Line.ofBytes file) (read file) ∧
      ∀ file' header header' below text text', Line.ofBytes file = header :: below →
        Line.ofBytes file' = header' :: below → header.text = .ok text →
        header'.text = .ok text' → read file' = read file := by
  refine ⟨?verdict, ?header⟩
  case verdict =>
    rw [read]
    cases hlines : Line.ofBytes file with
    | nil => exact .noHeader
    | cons header lines =>
        refine verdict_ofLines fun above line below hparts => ?_
        have hfile : Line.ofBytes file = (header :: above) ++ line :: below := by
          rw [hlines, hparts, List.cons_append]
        exact Line.number_of_ofBytes hfile
  case header =>
    intro file' header header' below text text' hfile hfile' htext htext'
    rw [read, read, hfile, hfile', ofLines_cons, ofLines_cons, lineText, lineText, htext, htext']
    rfl

/-- It does not matter that the header has an identifier of the lines below. -/
theorem read_twoColumns_recurring :
    Verdict (Line.ofBytes (Utf8.encode "c,d\na,b\nc,d,e\nc,f\n"))
        (read (Utf8.encode "c,d\na,b\nc,d,e\nc,f\n")) ∧
      read (Utf8.encode "id,name\na,b\nc,d,e\nc,f\n")
        = read (Utf8.encode "c,d\na,b\nc,d,e\nc,f\n") := by
  obtain ⟨hverdict, hheader⟩ := read_twoColumns (Utf8.encode "c,d\na,b\nc,d,e\nc,f\n")
  exact ⟨hverdict, hheader _ _ _ _ _ _ rfl rfl rfl rfl⟩

/-- A line of commas only gives the empty identifier an empty name, and an empty line is refused. -/
example : (read (Utf8.encode "a,b\n,,\nc,d,e\nc,f")).toOption.map OrderedMap.entries
      = some [("", ""), ("c", "f")] ∧
    read (Utf8.encode "a,b\n,,\n\nc\n") = .error (.shortRow 3 "") := by decide

end Namebridge.ReadableNames
