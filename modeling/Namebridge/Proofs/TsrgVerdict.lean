import Namebridge.Proofs.Line
import Namebridge.Proofs.TsrgGrammar

/-!
# What is wrong with a TSRG file

A line offends if it cannot be read, belongs to no class, or has the wrong words: `Offends`. The
first such line decides, whatever stands below it and whatever descriptors stand above it. Without
one, the first method decides whose descriptor ends in a class name. A file with neither is read.
That is `read_verdict`.
-/

namespace Namebridge.Tsrg

/-! ## Lines that offend -/

/-- The words of the line of a class. -/
inductive ClassWords : List String → Prop
  | mk {source target : String} (hsource : Word source) (htarget : Word target) :
      ClassWords [source, target]

/-- The words of the line of a member. -/
inductive MemberWords : List String → Prop
  | field {source target : String} (hsource : Word source) (htarget : Word target) :
      MemberWords [source, target]
  | method {source descriptor target : String} (hsource : Word source)
      (hdescriptor : MemberKey.Opens descriptor) (htarget : Word target) :
      MemberWords [source, descriptor, target]

/-- A line is that of a class. -/
def NamesClass (line : Line) : Prop :=
  ∃ text words, line.text = .ok text ∧ Text.Joins ' ' words text ∧ ClassWords words

/-- What is wrong with a line below the lines `above`. -/
inductive Offends (above : List Line) (line : Line) : Error → Prop
  | unreadable {fault : Line.Fault} (htext : line.text = .error fault) :
      Offends above line (.unreadable line.number fault)
  | memberOutsideClass {member : String} (htext : line.text = .ok ("\t" ++ member))
      (habove : ∀ l ∈ above, ¬ NamesClass l) :
      Offends above line (.badLine line.number ("\t" ++ member) .memberOutsideClass)
  | memberWords {member : String} {words : List String}
      (htext : line.text = .ok ("\t" ++ member)) (habove : ∃ l ∈ above, NamesClass l)
      (hjoins : Text.Joins ' ' words member) (hwords : ¬ MemberWords words) :
      Offends above line (.badLine line.number ("\t" ++ member) (.memberWords words))
  | classWords {text : String} {words : List String} (htext : line.text = .ok text)
      (htab : text.toList.head? ≠ some '\t') (hjoins : Text.Joins ' ' words text)
      (hwords : ¬ ClassWords words) :
      Offends above line (.badLine line.number text (.classWords words))

/-- No line offends. -/
def Sound (lines : List Line) : Prop :=
  ∀ above line below e, lines = above ++ line :: below → ¬ Offends above line e

/-- The message of an error ends with the number of a line. -/
def Error.NamesLine (e : Error) (number : Nat) : Prop :=
  ∃ opening, e.trail.head? = some (opening ++ " line " ++ toString number)

theorem Offends.namesLine {above : List Line} {line : Line} {e : Error}
    (h : Offends above line e) : e.NamesLine line.number := by
  -- the message is written in one piece, so the piece with the number is cut off first
  have hin : " in line " = " in" ++ " line " := by decide
  have hbad : ∀ text fault, (Error.badLine line.number text fault).NamesLine line.number := by
    intro text fault
    have hsplit := congrArg (s!"invalid tsrg line {Text.quoted text}" ++ ·) hin
    rw [← String.append_assoc] at hsplit
    exact ⟨_, congrArg (fun opening => some (opening ++ toString line.number)) hsplit⟩
  cases h with
  | unreadable htext =>
      obtain ⟨opening, hopening⟩ := Line.exists_unreadableMessage_eq line.number
      exact ⟨opening, congrArg some hopening⟩
  | memberOutsideClass htext habove => exact hbad _ _
  | memberWords htext habove hjoins hwords => exact hbad _ _
  | classWords htext htab hjoins hwords => exact hbad _ _

/-! ## Reading a line -/

theorem parseClass_eq_error_iff (text : String) (fault : Fault) :
    parseClass text = .error fault ↔
      ∃ words, Text.Joins ' ' words text ∧ ¬ ClassWords words ∧ fault = .classWords words := by
  have hspace := (Text.joins_fields ' ' text).not_mem
  simp only [← Text.fields_eq_iff, exists_eq_left']
  rw [parseClass]
  generalize Text.fields ' ' text = words at hspace
  constructor
  · intro h
    split at h
    · rename_i source target
      split at h
      · cases h
      · rename_i hno
        cases h
        refine ⟨fun hwords => ?_, rfl⟩
        cases hwords with
        | mk hsource htarget => simp [hsource.isWord, htarget.isWord] at hno
    · rename_i hother
      cases h
      refine ⟨fun hwords => ?_, rfl⟩
      cases hwords with
      | mk hsource htarget => exact hother _ _ rfl
  · intro hparts
    obtain ⟨hno, rfl⟩ := hparts
    split
    · rename_i source target
      split
      · rename_i hwords
        rw [Bool.and_eq_true] at hwords
        exact absurd (.mk (word_of_isWord hwords.1 (hspace source (by simp)))
          (word_of_isWord hwords.2 (hspace target (by simp)))) hno
      · rfl
    · rfl

theorem parseMember_eq_error_iff (names : MemberNames) (owner : ClassPair) (text : String)
    (fault : Fault) :
    parseMember names owner text = .error fault ↔
      ∃ words, Text.Joins ' ' words text ∧ ¬ MemberWords words ∧ fault = .memberWords words := by
  have hspace := (Text.joins_fields ' ' text).not_mem
  simp only [← Text.fields_eq_iff, exists_eq_left']
  rw [parseMember]
  generalize Text.fields ' ' text = words at hspace
  constructor
  · intro h
    split at h
    · split at h
      · cases h
      · rename_i hno
        cases h
        refine ⟨fun hwords => ?_, rfl⟩
        cases hwords with
        | field hsource htarget => simp [hsource.isWord, htarget.isWord] at hno
    · split at h
      · cases h
      · rename_i hno
        cases h
        refine ⟨fun hwords => ?_, rfl⟩
        cases hwords with
        | method hsource hdescriptor htarget =>
            simp [hsource.isWord, (isDescriptor_iff _).mpr hdescriptor, htarget.isWord] at hno
    · rename_i hpair htriple
      cases h
      refine ⟨fun hwords => ?_, rfl⟩
      cases hwords with
      | field hsource htarget => exact hpair _ _ rfl
      | method hsource hdescriptor htarget => exact htriple _ _ _ rfl
  · intro hparts
    obtain ⟨hno, rfl⟩ := hparts
    split
    · rename_i source target
      split
      · rename_i hwords
        rw [Bool.and_eq_true] at hwords
        exact absurd (.field (word_of_isWord hwords.1 (hspace source (by simp)))
          (word_of_isWord hwords.2 (hspace target (by simp)))) hno
      · rfl
    · rename_i source descriptor target
      split
      · rename_i hwords
        rw [Bool.and_eq_true, Bool.and_eq_true] at hwords
        exact absurd (.method (word_of_isWord hwords.1.1 (hspace source (by simp)))
          ((isDescriptor_iff _).mp hwords.1.2)
          (word_of_isWord hwords.2 (hspace target (by simp)))) hno
      · rfl
    · rfl

/-- A line is refused for what is wrong with it, if declarations so far mean a class above it. -/
theorem readLine_eq_error_iff (names : MemberNames) {declared : List Declaration}
    {above : List Line} (habove : declared ≠ [] ↔ ∃ l ∈ above, NamesClass l) (line : Line)
    (e : Error) : readLine names declared line = .error e ↔ Offends above line e := by
  simp only [readLine, Traversal.bind_eq_error_iff, Traversal.mapError_eq_error_iff,
    Traversal.mapError_eq_ok_iff, pure, Except.pure, reduceCtorEq, and_false, exists_false,
    or_false]
  constructor
  · intro h
    rcases h with ⟨fault, htext, rfl⟩ | ⟨text, htext, fault, hparse, rfl⟩
    · exact .unreadable htext
    · by_cases htab : text.toList.head? = some '\t'
      · obtain ⟨member, rfl⟩ := exists_tab_append htab
        cases declared with
        | nil =>
            rw [List.head?_nil, Option.map_none, parseLine_tab_none] at hparse
            cases hparse
            refine .memberOutsideClass htext fun l hl hclass => ?_
            exact habove.mpr ⟨l, hl, hclass⟩ rfl
        | cons d rest =>
            rw [List.head?_cons, Option.map_some, parseLine_tab] at hparse
            obtain ⟨words, hjoins, hwords, rfl⟩ := (parseMember_eq_error_iff _ _ _ _).mp hparse
            exact .memberWords htext (habove.mp (by simp)) hjoins hwords
      · rw [parseLine_of_head? names _ htab] at hparse
        obtain ⟨words, hjoins, hwords, rfl⟩ := (parseClass_eq_error_iff _ _).mp hparse
        exact .classWords htext htab hjoins hwords
  · intro h
    cases h with
    | @unreadable fault htext => exact .inl ⟨fault, htext, rfl⟩
    | @memberOutsideClass member htext hnone =>
        have hempty : declared = [] := by
          refine not_not.mp fun hne => ?_
          obtain ⟨l, hl, hclass⟩ := habove.mp hne
          exact hnone l hl hclass
        subst hempty
        refine .inr ⟨_, htext, _, ?_, rfl⟩
        rw [List.head?_nil, Option.map_none, parseLine_tab_none]
    | @memberWords member words htext hclass hjoins hwords =>
        obtain ⟨d, rest, rfl⟩ := List.exists_cons_of_ne_nil (habove.mpr hclass)
        refine .inr ⟨_, htext, _, ?_, rfl⟩
        rw [List.head?_cons, Option.map_some, parseLine_tab]
        exact (parseMember_eq_error_iff _ _ _ _).mpr ⟨words, hjoins, hwords, rfl⟩
    | @classWords text words htext htab hjoins hwords =>
        refine .inr ⟨_, htext, _, ?_, rfl⟩
        rw [parseLine_of_head? names _ htab]
        exact (parseClass_eq_error_iff _ _).mpr ⟨words, hjoins, hwords, rfl⟩

/-! ## Reading a file -/

/-- The first line of a file names a class. -/
theorem namesClass_of_says {line : Line} {text : String} {d : Declaration}
    (htext : line.text = .ok text) (h : Says none text d) : NamesClass line := by
  cases h with
  | @classLine _ source target hsource htarget =>
      have hjoins : Text.Joins ' ' [source, target] (source ++ " " ++ target) :=
        (Text.fields_eq_iff ' ' _ _).mp
          ((Text.fields_eq_pair_iff _ _ _).mpr ⟨hsource.no_space, htarget.no_space, rfl⟩)
      exact ⟨_, _, htext, hjoins, .mk hsource htarget⟩

/-- Lines that were read declare something exactly if one of them names a class. -/
theorem ne_nil_iff_of_run {names : MemberNames} {lines : List Line} {declared : List Declaration}
    (h : lines.foldlM (readLine names) [] = .ok declared) :
    declared ≠ [] ↔ ∃ l ∈ lines, NamesClass l := by
  obtain ⟨ds, hspells, rfl⟩ := (foldlM_readLine_eq_ok_iff names lines [] declared).mp h
  cases hspells with
  | nil => simp
  | @cons _ line text d rest ds htext hline hrest =>
      have hclass : NamesClass line := namesClass_of_says htext hline
      constructor
      · intro _
        exact ⟨line, by simp, hclass⟩
      · intro _
        simp

theorem foldlM_readLine_append {names : MemberNames} {above : List Line}
    {declared : List Declaration} (h : above.foldlM (readLine names) [] = .ok declared)
    (line : Line) (below : List Line) (e : Error) (hline : Offends above line e) :
    (above ++ line :: below).foldlM (readLine names) [] = .error e :=
  (Traversal.foldlM_eq_error_iff _ _ _ _).mpr ⟨above, line, below, declared, rfl, h,
    (readLine_eq_error_iff names (ne_nil_iff_of_run h) line e).mpr hline⟩

/-- Where reading stops, a line offends. -/
theorem exists_offends {names : MemberNames} {lines : List Line} {e : Error}
    (h : lines.foldlM (readLine names) [] = .error e) :
    ∃ above line below declared, lines = above ++ line :: below ∧
      above.foldlM (readLine names) [] = .ok declared ∧ Offends above line e := by
  obtain ⟨above, line, below, declared, hlines, habove, hline⟩ :=
    (Traversal.foldlM_eq_error_iff _ _ _ _).mp h
  exact ⟨above, line, below, declared, hlines, habove,
    (readLine_eq_error_iff names (ne_nil_iff_of_run habove) line e).mp hline⟩

/-- Lines are read exactly if none offends. -/
theorem sound_iff (names : MemberNames) (lines : List Line) :
    Sound lines ↔ ∃ declared, lines.foldlM (readLine names) [] = .ok declared := by
  constructor
  · intro h
    cases hrun : lines.foldlM (readLine names) [] with
    | ok declared => exact ⟨declared, rfl⟩
    | error e =>
        obtain ⟨above, line, below, -, hlines, -, hline⟩ := exists_offends hrun
        exact absurd hline (h above line below e hlines)
  · intro h above line below e hlines hline
    obtain ⟨declared, hrun⟩ := h
    rw [hlines, List.foldlM_append, Traversal.bind_eq_ok_iff] at hrun
    obtain ⟨declared', habove, hrun⟩ := hrun
    have hfail := foldlM_readLine_append habove line below e hline
    rw [List.foldlM_append, habove] at hfail
    exact absurd (hrun.symm.trans hfail) (by simp)

/-! ## Descriptors -/

theorem hasFault_readable_iff (names : MemberNames) (d : Declaration)
    (e : Declaration.BadDescriptor) : (names.readable d).HasFault e ↔ d.HasFault e := by
  cases d with
  | classNamed pair => exact Iff.rfl
  | field owner source target => exact ⟨nofun, nofun⟩
  | method owner source descriptor target =>
      constructor
      · intro h
        cases h with
        | method hopen => exact .method hopen
      · intro h
        cases h with
        | method hopen => exact .method hopen

/-- Readable names change nothing about the descriptor that is refused. -/
theorem ofDeclarations_readable_eq_error_iff (names : MemberNames) (ds : List Declaration)
    (e : Declaration.BadDescriptor) :
    Mappings.ofDeclarations (ds.map names.readable) = .error e ↔
      ∃ before d after, ds = before ++ d :: after ∧
        (∀ b ∈ before, ∀ e', ¬ b.HasFault e') ∧ d.HasFault e := by
  rw [Mappings.ofDeclarations_eq_error_iff]
  constructor
  · intro hparts
    obtain ⟨_, _, _, hds, hbefore, hd⟩ := hparts
    obtain ⟨before, rest, rfl, rfl, hrest⟩ := List.map_eq_append_iff.mp hds
    obtain ⟨d, after, rfl, rfl, rfl⟩ := List.map_eq_cons_iff.mp hrest
    refine ⟨before, d, after, rfl, fun b hb e' hfault => ?_, (hasFault_readable_iff _ _ _).mp hd⟩
    exact hbefore _ (List.mem_map_of_mem hb) e' ((hasFault_readable_iff _ _ _).mpr hfault)
  · intro hparts
    obtain ⟨before, d, after, rfl, hbefore, hd⟩ := hparts
    refine ⟨before.map names.readable, names.readable d, after.map names.readable, by simp, ?_,
      (hasFault_readable_iff _ _ _).mpr hd⟩
    intro _ hreadable e' hfault
    obtain ⟨b, hb, rfl⟩ := List.mem_map.mp hreadable
    exact hbefore b hb e' ((hasFault_readable_iff _ _ _).mp hfault)

/-! ## The verdict -/

/-- What becomes of the lines of a file. -/
inductive Verdict (lines : List Line) : Except Error Mappings → Prop
  /-- The first line that offends is blamed. -/
  | badLine {above below : List Line} {line : Line} {e : Error}
      (hlines : lines = above ++ line :: below) (habove : Sound above)
      (hline : Offends above line e) (hnumber : e.NamesLine (above.length + 1)) :
      Verdict lines (.error e)
  /-- Without such a line, the first method with a bad descriptor is blamed. -/
  | badDescriptor {before after : List Declaration} {d : Declaration}
      {e : Declaration.BadDescriptor} (hsound : Sound lines)
      (hspells : Spells none lines (before ++ d :: after))
      (hbefore : ∀ b ∈ before, ∀ e', ¬ b.HasFault e') (hd : d.HasFault e) :
      Verdict lines (.error (.badDescriptor e))
  /-- Without either, the file is read. -/
  | accepted {ds : List Declaration} {m : Mappings} (hsound : Sound lines)
      (hspells : Spells none lines ds) (hds : ∀ d ∈ ds, ∀ e, ¬ d.HasFault e) :
      Verdict lines (.ok m)

/-- A file with a line that offends fails alike under any further lines. -/
theorem ofLines_append {names : MemberNames} {lines : List Line} (h : ¬ Sound lines)
    (more : List Line) : ofLines names (lines ++ more) = ofLines names lines := by
  cases hrun : lines.foldlM (readLine names) [] with
  | ok declared => exact absurd ((sound_iff names lines).mpr ⟨declared, hrun⟩) h
  | error e =>
      have hlines : ofLines names lines = .error e := by
        rw [ofLines, declarations, hrun]
        rfl
      have hmore : ofLines names (lines ++ more) = .error e := by
        rw [ofLines, declarations, List.foldlM_append, hrun]
        rfl
      rw [hlines, hmore]

/-- Lines that spell something are read, or a descriptor is blamed. -/
theorem verdict_of_spells (names : MemberNames) {lines : List Line} {ds : List Declaration}
    (hsound : Sound lines) (hspells : Spells none lines ds) :
    Verdict lines (ofLines names lines) := by
  rw [hspells.ofLines_eq names]
  cases hresult : Mappings.ofDeclarations (ds.map names.readable) with
  | ok m =>
      refine .accepted hsound hspells fun d hd e hfault => ?_
      exact Mappings.not_hasFault_of_ofDeclarations hresult (List.mem_map_of_mem hd) e
        ((hasFault_readable_iff names d e).mpr hfault)
  | error e =>
      obtain ⟨before, d, after, rfl, hbefore, hd⟩ :=
        (ofDeclarations_readable_eq_error_iff names ds e).mp hresult
      exact .badDescriptor hsound hspells hbefore hd

/-- **The first offender is blamed**: a TSRG file fails at its first line that offends, by the
number of the line, else at its first method with a bad descriptor, by the key of the method, and
else it is read. If a line offends, further lines do not change the error. -/
theorem read_verdict (names : MemberNames) (file : Bytes) :
    Verdict (Line.ofBytes file) (read names file) ∧
      (¬ Sound (Line.ofBytes file) →
        (∀ file', Line.ofBytes file <+: Line.ofBytes file' → read names file' = read names file) ∧
        ∀ start rest, file = start ++ [Line.lineFeed] →
          read names (file ++ rest) = read names file) := by
  refine ⟨?verdict, fun hbad => ?further⟩
  case verdict =>
    cases hrun : (Line.ofBytes file).foldlM (readLine names) [] with
    | ok declared =>
        obtain ⟨ds, hspells, -⟩ := (foldlM_readLine_eq_ok_iff names _ [] declared).mp hrun
        exact verdict_of_spells names ((sound_iff names _).mpr ⟨declared, hrun⟩) hspells
    | error e =>
        obtain ⟨above, line, below, declared, hlines, habove, hline⟩ := exists_offends hrun
        have hread : read names file = .error e := by
          rw [read, ofLines, declarations, hrun]
          rfl
        rw [hread]
        exact .badLine hlines ((sound_iff names above).mpr ⟨declared, habove⟩) hline
          (Line.number_of_ofBytes hlines ▸ hline.namesLine)
  case further =>
    have happended : ∀ file', Line.ofBytes file <+: Line.ofBytes file' →
        read names file' = read names file := by
      intro file' hfile
      obtain ⟨more, hmore⟩ := hfile
      rw [read, read, ← hmore]
      exact ofLines_append hbad more
    refine ⟨happended, ?_⟩
    rintro start rest rfl
    refine happended _ ?_
    rw [List.append_assoc, List.singleton_append]
    exact Line.prefix_ofBytes_append start rest

/-- A bad descriptor loses against a bad line below it. -/
example : read {} (Utf8.encode "a b\n\tm (Lc)V n\n\tf  g\n")
    = .error (.badLine 3 "\tf  g" (.memberWords ["f", "", "g"])) := by decide

end Namebridge.Tsrg
