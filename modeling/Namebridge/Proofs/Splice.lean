import Mathlib.Data.List.Chain
import Namebridge.Lookup.Splice

/-!
# Renaming is splicing

`apply` runs over the occurrences with two places in mind: up to where the text is accounted for by
what is written, and up to where the occurrences reach. `splice` has one place only: it writes the
text before each occurrence and then the occurrence, renamed or not. `run_eq` relates the two, and
`apply_eq_splice` says when renaming succeeds and what it gives.
-/

namespace Namebridge

namespace Splice

/-! ## Parts of a text -/

theorem slice?_append (before part after : String) :
    slice? (before ++ part ++ after) before.utf8ByteSize (before ++ part).utf8ByteSize
      = some part := by
  have hfirst : String.Pos.Raw.IsValid (before ++ part ++ after) ⟨before.utf8ByteSize⟩ :=
    String.Pos.Raw.isValid_iff_exists_append.mpr
      ⟨before, part ++ after, by rw [String.append_assoc], rfl⟩
  have hlast : String.Pos.Raw.IsValid (before ++ part ++ after) ⟨(before ++ part).utf8ByteSize⟩ :=
    String.Pos.Raw.isValid_iff_exists_append.mpr ⟨before ++ part, after, rfl, rfl⟩
  have hle : before.utf8ByteSize ≤ (before ++ part).utf8ByteSize := by
    rw [String.utf8ByteSize_append]
    omega
  rw [slice?, dif_pos ⟨hle, hfirst, hlast⟩]
  congr 1
  apply String.toByteArray_inj.mp
  rw [String.toByteArray_extract]
  show (before ++ part ++ after).toByteArray.extract before.utf8ByteSize
    (before ++ part).toByteArray.size = part.toByteArray
  rw [String.toByteArray_append, ByteArray.extract_append_size_left, String.toByteArray_append]
  exact ByteArray.extract_append_eq_right rfl ByteArray.size_append

theorem exists_of_slice? {text part : String} {first last : Nat}
    (h : slice? text first last = some part) :
    ∃ before after, text = before ++ part ++ after ∧ before.utf8ByteSize = first ∧
      (before ++ part).utf8ByteSize = last := by
  rw [slice?] at h
  split at h
  · rename_i hspan
    obtain ⟨hle, hfirst, hlast⟩ := hspan
    cases h
    obtain ⟨before, rest, htext, hbefore⟩ := String.Pos.Raw.isValid_iff_exists_append.mp hfirst
    obtain ⟨upTo, after, htext', hupTo⟩ := String.Pos.Raw.isValid_iff_exists_append.mp hlast
    have hfirst' : before.utf8ByteSize = first := congrArg String.Pos.Raw.byteIdx hbefore.symm
    have hlast' : upTo.utf8ByteSize = last := congrArg String.Pos.Raw.byteIdx hupTo.symm
    -- the bytes up to `last` are those up to `first` and those of the part
    have hwhole : before ++ String.extract (text.pos ⟨first⟩ hfirst) (text.pos ⟨last⟩ hlast)
        = upTo := by
      have hbytes : before.toByteArray = text.toByteArray.extract 0 first := by
        rw [htext, String.toByteArray_append, ByteArray.extract_append_eq_left hfirst'.symm]
      have hbytes' : upTo.toByteArray = text.toByteArray.extract 0 last := by
        rw [htext', String.toByteArray_append, ByteArray.extract_append_eq_left hlast'.symm]
      apply String.toByteArray_inj.mp
      rw [String.toByteArray_append, String.toByteArray_extract, hbytes, hbytes']
      exact (ByteArray.extract_eq_extract_append_extract first (Nat.zero_le first) hle).symm
    exact ⟨before, after, by rw [hwhole, ← htext'], hfirst', by rw [hwhole, hlast']⟩
  · cases h

/-- A part of a text is what stands behind the bytes before it and ends with its own. -/
theorem slice?_eq_some_iff (text : String) (first last : Nat) (part : String) :
    slice? text first last = some part ↔
      ∃ before after, text = before ++ part ++ after ∧ before.utf8ByteSize = first ∧
        (before ++ part).utf8ByteSize = last := by
  refine ⟨exists_of_slice?, ?_⟩
  intro h
  obtain ⟨before, after, rfl, rfl, rfl⟩ := h
  exact slice?_append before part after

example : slice? "aéb" 1 3 = some "é" ∧ slice? "aéb" 1 2 = none ∧ slice? "aéb" 3 1 = none := by
  decide

/-- A text has one beginning of each length. -/
theorem eq_of_append_eq {a b a' b' : String} (h : a ++ b = a' ++ b')
    (hsize : a.utf8ByteSize = a'.utf8ByteSize) : a = a' ∧ b = b' := by
  have hbytes : a.toByteArray ++ b.toByteArray = a'.toByteArray ++ b'.toByteArray := by
    rw [← String.toByteArray_append, ← String.toByteArray_append, h]
  obtain rfl : a = a' := String.toByteArray_inj.mp (ByteArray.append_inj_left hbytes hsize)
  exact ⟨rfl, String.toByteArray_inj.mp ((ByteArray.append_right_inj _).mp hbytes)⟩

/-- Parts that follow each other make one part. -/
theorem slice?_trans {text p q : String} {first middle last : Nat}
    (hp : slice? text first middle = some p) (hq : slice? text middle last = some q) :
    slice? text first last = some (p ++ q) := by
  obtain ⟨before, after, htext, hfirst, hmiddle⟩ := exists_of_slice? hp
  obtain ⟨before', after', htext', hmiddle', hlast⟩ := exists_of_slice? hq
  have hcut : before ++ p ++ after = before' ++ (q ++ after') := by
    rw [← htext, htext', String.append_assoc]
  obtain ⟨rfl, rfl⟩ := eq_of_append_eq hcut (hmiddle.trans hmiddle'.symm)
  refine (slice?_eq_some_iff text first last (p ++ q)).mpr ⟨before, after', ?_, hfirst, ?_⟩
  · rw [htext, ← String.append_assoc, ← String.append_assoc]
  · rw [← String.append_assoc, hlast]

/-- The part of a text between two places that are in order and between characters. -/
def part (text : String) (first last : Nat) : String := (slice? text first last).getD ""

theorem slice?_eq_part {text : String} {first last : Nat} (hle : first ≤ last)
    (hfirst : String.Pos.Raw.IsValid text ⟨first⟩) (hlast : String.Pos.Raw.IsValid text ⟨last⟩) :
    slice? text first last = some (part text first last) := by
  rw [part, slice?, dif_pos ⟨hle, hfirst, hlast⟩, Option.getD_some]

theorem part_append {text : String} {first middle last : Nat} (hle : first ≤ middle)
    (hle' : middle ≤ last) (hfirst : String.Pos.Raw.IsValid text ⟨first⟩)
    (hmiddle : String.Pos.Raw.IsValid text ⟨middle⟩)
    (hlast : String.Pos.Raw.IsValid text ⟨last⟩) :
    part text first middle ++ part text middle last = part text first last := by
  have h := slice?_trans (slice?_eq_part hle hfirst hmiddle) (slice?_eq_part hle' hmiddle hlast)
  rw [slice?_eq_part (Nat.le_trans hle hle') hfirst hlast] at h
  exact (Option.some.inj h).symm

theorem part_self (text : String) (place : Nat) : part text place place = "" := by
  cases h : slice? text place place with
  | none => rw [part, h, Option.getD_none]
  | some p =>
      obtain ⟨before, after, -, hfirst, hlast⟩ := exists_of_slice? h
      rw [String.utf8ByteSize_append] at hlast
      rw [part, h, Option.getD_some]
      exact String.utf8ByteSize_eq_zero_iff.mp (by omega)

end Splice

/-! ## Occurrences that can be renamed -/

/-- An occurrence takes up a part of the text. -/
structure Occurrence.Fits (o : Occurrence) (text : String) : Prop where
  ordered : o.first ≤ o.last
  inside : o.last ≤ text.utf8ByteSize
  first_valid : String.Pos.Raw.IsValid text ⟨o.first⟩
  last_valid : String.Pos.Raw.IsValid text ⟨o.last⟩

theorem Occurrence.Fits.slice? {o : Occurrence} {text : String} (h : o.Fits text) :
    Splice.slice? text o.first o.last = some (Splice.part text o.first o.last) :=
  Splice.slice?_eq_part h.ordered h.first_valid h.last_valid

theorem Occurrence.fits_of_slice? {o : Occurrence} {text word : String}
    (h : Splice.slice? text o.first o.last = some word) : o.Fits text := by
  rw [Splice.slice?] at h
  split at h
  · rename_i hspan
    exact ⟨hspan.1, hspan.2.2.le_utf8ByteSize, hspan.2.1, hspan.2.2⟩
  · cases h

instance (o : Occurrence) (text : String) : Decidable (o.Fits text) :=
  decidable_of_iff (Splice.slice? text o.first o.last).isSome ⟨fun h =>
    Occurrence.fits_of_slice? (Option.some_get h).symm, fun h => by rw [h.slice?]; rfl⟩

namespace Splice

/-- What is written in place of an occurrence of a word. -/
def replacement (r : Renamer) (o : Occurrence) (word : String) : String :=
  (r.rename o.binding word).value.getD word

/-- The text from a place on, with each occurrence replaced. -/
def splice (r : Renamer) (text : String) : (place : Nat) → List Occurrence → String
  | place, [] => part text place text.utf8ByteSize
  | place, o :: later =>
      part text place o.first ++ replacement r o (part text o.first o.last)
        ++ splice r text o.last later

/-- The first occurrence that is refused, after others that reach up to a place. -/
def firstFault (text : String) : (reached : Nat) → List Occurrence → Option Fault
  | _, [] => none
  | reached, o :: later =>
      if o.first < reached then some (.overlap o)
      else if o.Fits text then firstFault text o.last later
      else some (.noPlace o)

/-! ## Computations that can be refused -/

theorem value_bind_of_ok {α β : Type} {x : ExceptT Fault Reporting α} {a : α}
    (h : x.run.value = .ok a) (f : α → ExceptT Fault Reporting β) :
    (x >>= f).run.value = (f a).run.value := by
  rw [ExceptT.run_bind, Reporting.value_bind, h]

theorem value_bind_of_error {α β : Type} {x : ExceptT Fault Reporting α} {fault : Fault}
    (h : x.run.value = .error fault) (f : α → ExceptT Fault Reporting β) :
    (x >>= f).run.value = .error fault := by
  rw [ExceptT.run_bind, Reporting.value_bind, h, Reporting.value_pure]

/-! ## One step -/

/-- What is written accounts for the text up to a place that the occurrences have reached. -/
structure Progress.Sound (progress : Progress) (text : String) : Prop where
  ordered : progress.copied ≤ progress.reached
  copied_valid : String.Pos.Raw.IsValid text ⟨progress.copied⟩
  reached_valid : String.Pos.Raw.IsValid text ⟨progress.reached⟩

theorem sound_start (text : String) : Progress.Sound {} text where
  ordered := Nat.le_refl 0
  copied_valid := String.Pos.Raw.isValid_zero
  reached_valid := String.Pos.Raw.isValid_zero

/-- What would be written by now if all text were copied at once. -/
def Progress.eager (progress : Progress) (text : String) : String :=
  progress.written ++ part text progress.copied progress.reached

/-- Text can be copied up to any place behind the occurrences so far. -/
theorem Progress.Sound.copyTo {progress : Progress} {text : String} (h : progress.Sound text)
    {place : Nat} (hle : progress.reached ≤ place)
    (hplace : String.Pos.Raw.IsValid text ⟨place⟩) :
    progress.copyTo text place
      = .ok (progress.eager text ++ part text progress.reached place) := by
  rw [Progress.copyTo, slice?_eq_part (Nat.le_trans h.ordered hle) h.copied_valid hplace,
    ← part_append h.ordered hle h.copied_valid h.reached_valid hplace, Progress.eager]
  simp only [String.append_assoc]

theorem step_overlap (r : Renamer) (text : String) {progress : Progress} {o : Occurrence}
    (h : o.first < progress.reached) :
    (step r text progress o).run.value = .error (.overlap o) := by
  rw [step, if_pos h]
  rfl

theorem step_noPlace (r : Renamer) {text : String} {progress : Progress} {o : Occurrence}
    (h : ¬ o.first < progress.reached) (hfits : ¬ o.Fits text) :
    (step r text progress o).run.value = .error (.noPlace o) := by
  have hslice : slice? text o.first o.last = none := by
    refine Option.eq_none_iff_forall_ne_some.mpr fun word hword => ?_
    exact hfits (Occurrence.fits_of_slice? hword)
  rw [step, if_neg h, hslice]
  rfl

/-- An occurrence that keeps its name is passed, and its text is left to be copied later. -/
theorem step_kept {r : Renamer} {text : String} {progress : Progress} {o : Occurrence}
    (hle : progress.reached ≤ o.first) (hfits : o.Fits text)
    (hname : (r.rename o.binding (part text o.first o.last)).value = none) :
    (step r text progress o).run.value = .ok { progress with reached := o.last } := by
  have hrename : (liftM (r.rename o.binding (part text o.first o.last)) :
      ExceptT Fault Reporting (Option String)).run.value = .ok none := congrArg Except.ok hname
  rw [step, if_neg (Nat.not_lt.mpr hle), hfits.slice?]
  simp only
  rw [value_bind_of_ok hrename]
  rfl

/-- A new name is written behind all text before its occurrence. -/
theorem step_renamed {r : Renamer} {text : String} {progress : Progress} {o : Occurrence}
    (hsound : progress.Sound text) (hle : progress.reached ≤ o.first) (hfits : o.Fits text)
    {newName : String}
    (hname : (r.rename o.binding (part text o.first o.last)).value = some newName) :
    (step r text progress o).run.value
      = .ok ⟨progress.eager text ++ part text progress.reached o.first ++ newName,
          o.last, o.last⟩ := by
  have hrename : (liftM (r.rename o.binding (part text o.first o.last)) :
      ExceptT Fault Reporting (Option String)).run.value = .ok (some newName) :=
    congrArg Except.ok hname
  rw [step, if_neg (Nat.not_lt.mpr hle), hfits.slice?]
  simp only
  rw [value_bind_of_ok hrename]
  simp only [hsound.copyTo hle hfits.first_valid]
  rfl

/-- A step accounts for the text up to the end of its occurrence. -/
theorem step_fits (r : Renamer) {text : String} {progress : Progress}
    (hsound : progress.Sound text) {o : Occurrence} (hle : progress.reached ≤ o.first)
    (hfits : o.Fits text) :
    ∃ next, (step r text progress o).run.value = .ok next ∧ next.Sound text ∧
      next.reached = o.last ∧
      next.eager text = progress.eager text ++ part text progress.reached o.first
        ++ replacement r o (part text o.first o.last) := by
  cases hname : (r.rename o.binding (part text o.first o.last)).value with
  | none =>
      have hreached : progress.reached ≤ o.last := Nat.le_trans hle hfits.ordered
      refine ⟨_, step_kept hle hfits hname, ?_, rfl, ?_⟩
      · exact ⟨Nat.le_trans hsound.ordered hreached, hsound.copied_valid, hfits.last_valid⟩
      · -- the text that is left to be copied grows by the gap and the word
        have hgap := part_append hle hfits.ordered hsound.reached_valid hfits.first_valid
          hfits.last_valid
        have hleft := part_append hsound.ordered hreached hsound.copied_valid
          hsound.reached_valid hfits.last_valid
        rw [replacement, hname, Option.getD_none, Progress.eager, Progress.eager]
        rw [String.append_assoc, hgap, String.append_assoc, hleft]
  | some newName =>
      refine ⟨_, step_renamed hsound hle hfits hname, ?_, rfl, ?_⟩
      · exact ⟨Nat.le_refl _, hfits.last_valid, hfits.last_valid⟩
      · rw [replacement, hname, Option.getD_some, Progress.eager, part_self]
        exact String.append_empty

/-! ## A whole run -/

/-- From any sound state on, a run gives what the plain splice gives, or the first fault. -/
theorem run_eq (r : Renamer) (text : String) (later : List Occurrence) {progress : Progress}
    (hsound : progress.Sound text) :
    (do
      let final ← later.foldlM (step r text) progress
      final.copyTo text text.utf8ByteSize : ExceptT Fault Reporting String).run.value
      = match firstFault text progress.reached later with
        | some fault => .error fault
        | none => .ok (progress.eager text ++ splice r text progress.reached later) := by
  induction later generalizing progress with
  | nil =>
      have hend := hsound.copyTo hsound.reached_valid.le_utf8ByteSize
        String.Pos.Raw.isValid_rawEndPos
      exact hend
  | cons o later ih =>
      rw [List.foldlM_cons, bind_assoc, firstFault]
      by_cases hoverlap : o.first < progress.reached
      · rw [if_pos hoverlap, value_bind_of_error (step_overlap r text hoverlap)]
      · rw [if_neg hoverlap]
        by_cases hfits : o.Fits text
        · obtain ⟨next, hstep, hsound', hreached, heager⟩ :=
            step_fits r hsound (Nat.le_of_not_lt hoverlap) hfits
          rw [if_pos hfits, value_bind_of_ok hstep, ih hsound', hreached, heager, splice]
          simp only [String.append_assoc]
        · rw [if_neg hfits, value_bind_of_error (step_noPlace r hoverlap hfits)]

theorem apply_eq (r : Renamer) (text : String) (occurrences : List Occurrence) :
    (apply r text occurrences).run.value
      = match firstFault text 0 (inOrder occurrences) with
        | some fault => .error fault
        | none => .ok (splice r text 0 (inOrder occurrences)) := by
  have hrun := run_eq r text (inOrder occurrences) (sound_start text)
  have hempty : Progress.eager {} text = "" := by
    rw [Progress.eager, part_self]
    exact String.append_empty
  rw [hempty, String.empty_append] at hrun
  exact hrun

/-! ## Which occurrences are refused -/

theorem firstFault_eq_none_iff (text : String) (reached : Nat) (occurrences : List Occurrence) :
    firstFault text reached occurrences = none ↔
      (∀ o ∈ occurrences.head?, reached ≤ o.first) ∧ (∀ o ∈ occurrences, o.Fits text) ∧
        occurrences.IsChain fun a b => a.last ≤ b.first := by
  induction occurrences generalizing reached with
  | nil => simp [firstFault]
  | cons o later ih =>
      rw [firstFault, List.isChain_cons]
      by_cases hoverlap : o.first < reached
      · rw [if_pos hoverlap]
        have hnot : ¬ reached ≤ o.first := Nat.not_le.mpr hoverlap
        simp [hnot]
      · rw [if_neg hoverlap]
        have hle : reached ≤ o.first := Nat.le_of_not_lt hoverlap
        by_cases hfits : o.Fits text
        · rw [if_pos hfits, ih]
          simp [hle, hfits, and_left_comm]
        · rw [if_neg hfits]
          simp [hfits]

theorem firstFault_ne_torn (text : String) (reached : Nat) (occurrences : List Occurrence)
    (first last : Nat) : firstFault text reached occurrences ≠ some (.torn first last) := by
  induction occurrences generalizing reached with
  | nil => simp [firstFault]
  | cons o later ih =>
      rw [firstFault]
      split
      · simp
      · split
        · exact ih o.last
        · simp

/-! ## The order of places -/

/-- A list in the order of places: equal places are in the order in which they are listed. -/
structure StablySorted (sorted occurrences : List Occurrence) : Prop where
  perm : sorted.Perm occurrences
  ordered : sorted.Pairwise fun a b => a.first ≤ b.first
  stable : ∀ place, (sorted.filter fun o => o.first = place)
    = occurrences.filter fun o => o.first = place

theorem stablySorted_inOrder (occurrences : List Occurrence) :
    StablySorted (inOrder occurrences) occurrences := by
  have htrans : ∀ a b c : Occurrence, decide (a.first ≤ b.first) = true →
      decide (b.first ≤ c.first) = true → decide (a.first ≤ c.first) = true := by
    intro a b c hab hbc
    simp only [decide_eq_true_eq] at hab hbc ⊢
    omega
  have htotal : ∀ a b : Occurrence,
      (decide (a.first ≤ b.first) || decide (b.first ≤ a.first)) = true := by
    intro a b
    simp only [Bool.or_eq_true, decide_eq_true_eq]
    omega
  have hperm : (inOrder occurrences).Perm occurrences := List.mergeSort_perm occurrences _
  refine ⟨hperm, ?_, fun place => ?_⟩
  · exact (List.pairwise_mergeSort htrans htotal occurrences).imp fun h => by simpa using h
  · -- occurrences of one place are sorted as they stand, so that sorting keeps them in order
    have hsorted : (occurrences.filter fun o => o.first = place).Pairwise
        fun a b => decide (a.first ≤ b.first) = true := by
      refine List.pairwise_of_forall_mem_list fun a ha b hb => ?_
      simp only [List.mem_filter, decide_eq_true_eq] at ha hb ⊢
      omega
    have hsub := List.sublist_mergeSort htrans htotal hsorted List.filter_sublist
    have hsub' := hsub.filter fun o => decide (o.first = place)
    rw [List.filter_filter] at hsub'
    simp only [Bool.and_self] at hsub'
    exact (hsub'.eq_of_length (hperm.filter _).length_eq.symm).symm

/-- **Renaming is splicing**: the occurrences are taken in the order of their places. Renaming
succeeds exactly if each of them takes up a part of the text that starts where the one before has
ended, or later, and then it gives the text with each occurrence replaced. No other part of the
text is ever asked for in vain. -/
theorem apply_eq_splice (r : Renamer) (text : String) (occurrences : List Occurrence) :
    StablySorted (inOrder occurrences) occurrences ∧
    ((∃ renamed, (apply r text occurrences).run.value = .ok renamed) ↔
      (∀ o ∈ inOrder occurrences, o.Fits text) ∧
        (inOrder occurrences).IsChain fun a b => a.last ≤ b.first) ∧
    (∀ renamed, (apply r text occurrences).run.value = .ok renamed →
      renamed = splice r text 0 (inOrder occurrences)) ∧
    ∀ first last, (apply r text occurrences).run.value ≠ .error (.torn first last) := by
  have hfault := firstFault_eq_none_iff text 0 (inOrder occurrences)
  have htorn := firstFault_ne_torn text 0 (inOrder occurrences)
  rw [apply_eq]
  refine ⟨stablySorted_inOrder occurrences, ?_, ?_, ?_⟩
  · have hsuccess : firstFault text 0 (inOrder occurrences) = none ↔
        (∀ o ∈ inOrder occurrences, o.Fits text) ∧
          (inOrder occurrences).IsChain fun a b => a.last ≤ b.first := by
      rw [hfault]
      exact and_iff_right fun o _ => Nat.zero_le o.first
    rw [← hsuccess]
    cases firstFault text 0 (inOrder occurrences) with
    | none => simp
    | some fault => simp
  · intro renamed h
    cases hf : firstFault text 0 (inOrder occurrences) with
    | none =>
        rw [hf] at h
        exact (Except.ok.inj h).symm
    | some fault =>
        rw [hf] at h
        cases h
  · intro first last h
    cases hf : firstFault text 0 (inOrder occurrences) with
    | none =>
        rw [hf] at h
        cases h
    | some fault =>
        rw [hf] at h
        exact htorn first last (hf.trans (congrArg some (Except.error.inj h)))

end Splice

end Namebridge
