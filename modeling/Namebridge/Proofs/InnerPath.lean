import Namebridge.Proofs.Cut
import Namebridge.Proofs.FileSystem

/-!
# Paths below a directory

Names that are added to a path, one after the other, lead to a place below the place of the path,
wherever that is (`exists_of_resolve_below`). So different names lead to different places, and a
file written to one of them changes nothing at the others.
-/

namespace Namebridge

namespace Path

variable {p : Path} {name : String} {rel : List String}

/-- Whether names lead to something inside of a directory. -/
def Inner (rel : List String) : Prop := rel ≠ [] ∧ ∀ name ∈ rel, Plain name

theorem inner_singleton (hname : Plain name) : Inner [name] := ⟨by simp, by simpa using hname⟩

theorem inner_pair {other : String} (hname : Plain name) (hother : Plain other) :
    Inner [name, other] := ⟨by simp, by simp [hname, hother]⟩

/-- The path to which names lead from here. -/
def below (p : Path) (rel : List String) : Path := rel.foldl join p

/-- The names that lead to where a path leads, without an empty one at the end. -/
def steps (p : Path) : List String := (Text.fields '/' (p.join "").text).dropLast

theorem text_join_empty (p : Path) : (p.join "").text =
    if p.text = "" ∨ p.text.toList.getLast? = some '/' then p.text else p.text ++ "/" := by
  simp only [join, String.toList_empty, List.head?_nil, reduceCtorEq, if_false,
    Bool.or_eq_true, decide_eq_true_eq, String.append_empty]
  split <;> rfl

theorem text_join (p : Path) (hslash : '/' ∉ name.toList) :
    (p.join name).text = (p.join "").text ++ name := by
  have hhead : name.toList.head? ≠ some '/' := fun h => hslash (List.mem_of_head? h)
  rw [text_join_empty, join, if_neg hhead]
  simp only [Bool.or_eq_true, decide_eq_true_eq]
  split <;> rfl

/-- What is added to a path starts after a slash, or it is all of the path. -/
theorem text_join_empty_cases (p : Path) :
    (p.join "").text = "" ∨ ∃ init, (p.join "").text = init ++ String.singleton '/' := by
  rw [text_join_empty]
  by_cases hempty : p.text = ""
  · exact .inl (by rw [if_pos (.inl hempty), hempty])
  · by_cases hslash : p.text.toList.getLast? = some '/'
    · obtain ⟨init, hinit⟩ := List.getLast?_eq_some_iff.mp hslash
      refine .inr ⟨String.ofList init, ?_⟩
      rw [if_pos (.inr hslash)]
      apply String.ext
      simp [hinit]
    · exact .inr ⟨p.text, by rw [if_neg (not_or.mpr ⟨hempty, hslash⟩)]; rfl⟩

theorem fields_join (p : Path) (hslash : '/' ∉ name.toList) :
    Text.fields '/' (p.join name).text = p.steps ++ [name] := by
  have hfields : Text.fields '/' name = [name] := Text.fields_of_not_mem hslash
  have hnone : Text.fields '/' "" = [""] := by decide
  rw [text_join p hslash, steps]
  rcases text_join_empty_cases p with hempty | ⟨init, hinit⟩
  · rw [hempty, String.empty_append, hfields, hnone]
    rfl
  · have hend := Text.fields_append '/' init ""
    rw [String.append_empty, hnone] at hend
    rw [hinit, Text.fields_append, hfields, hend, List.dropLast_concat]

theorem getLast?_join (p : Path) (hname : Plain name) :
    ∃ c ∈ name.toList, (p.join name).text.toList.getLast? = some c := by
  have hne : name.toList ≠ [] := by
    rw [Ne, String.toList_eq_nil_iff]
    rintro rfl
    exact absurd hname.1.1 (by decide)
  refine ⟨_, List.getLast_mem hne, ?_⟩
  rw [text_join p hname.2, String.toList_append, List.getLast?_append,
    List.getLast?_eq_some_getLast hne, Option.some_or]

theorem text_join_ne_empty (p : Path) (hname : Plain name) : (p.join name).text ≠ "" := by
  intro hempty
  obtain ⟨c, -, hlast⟩ := getLast?_join p hname
  rw [hempty] at hlast
  cases hlast

theorem steps_join (p : Path) (hname : Plain name) : (p.join name).steps = p.steps ++ [name] := by
  obtain ⟨c, hc, hlast⟩ := getLast?_join p hname
  have hslash : ¬ ((p.join name).text = "" ∨ (p.join name).text.toList.getLast? = some '/') := by
    rintro (hempty | hslash)
    · exact text_join_ne_empty p hname hempty
    · rw [hlast] at hslash
      cases hslash
      exact hname.2 hc
  have hnone : Text.fields '/' "" = [""] := by decide
  have hend := Text.fields_append '/' (p.join name).text ""
  rw [String.append_empty, hnone] at hend
  rw [steps, text_join_empty, if_neg hslash]
  show (Text.fields '/' ((p.join name).text ++ String.singleton '/')).dropLast = _
  rw [hend, List.dropLast_concat, fields_join p hname.2]

theorem isAbsolute_join (p : Path) (hname : Plain name) :
    (p.join name).isAbsolute = p.isAbsolute := by
  have hhead : name.toList.head? ≠ some '/' := fun h => hname.2 (List.mem_of_head? h)
  rw [isAbsolute, isAbsolute, text_join p hname.2, text_join_empty]
  cases htext : p.text.toList with
  | nil =>
      have hempty : p.text = "" := String.toList_eq_nil_iff.mp htext
      simp [hempty, hhead]
  | cons c rest => split <;> simp [htext]

theorem below_singleton (p : Path) (name : String) : p.below [name] = p.join name := rfl

theorem below_pair (p : Path) (first second : String) :
    p.below [first, second] = (p.join first).join second := rfl

theorem below_concat (p : Path) (rel : List String) (name : String) :
    p.below (rel ++ [name]) = (p.below rel).join name := by
  rw [below, List.foldl_append]
  rfl

theorem steps_below (p : Path) (hrel : ∀ name ∈ rel, Plain name) :
    (p.below rel).steps = p.steps ++ rel := by
  induction rel generalizing p with
  | nil => simp [below]
  | cons name rest ih =>
      show ((p.join name).below rest).steps = _
      rw [ih _ fun n hn => hrel n (by simp [hn]), steps_join p (hrel name (by simp)),
        List.append_assoc]
      rfl

/-- Names added to a path can be read off again. -/
theorem below_inj {rel' : List String} (hrel : ∀ name ∈ rel, Plain name)
    (hrel' : ∀ name ∈ rel', Plain name) (h : p.below rel = p.below rel') : rel = rel' := by
  have hsteps := steps_below p hrel
  rw [h, steps_below p hrel'] at hsteps
  exact (List.append_cancel_left hsteps).symm

theorem isAbsolute_below (p : Path) (hrel : ∀ name ∈ rel, Plain name) :
    (p.below rel).isAbsolute = p.isAbsolute := by
  induction rel generalizing p with
  | nil => rfl
  | cons name rest ih =>
      show ((p.join name).below rest).isAbsolute = _
      rw [ih _ fun n hn => hrel n (by simp [hn]), isAbsolute_join p (hrel name (by simp))]

theorem fields_below (p : Path) (hrel : Inner rel) :
    Text.fields '/' (p.below rel).text = p.steps ++ rel := by
  obtain ⟨hne, hplain⟩ := hrel
  obtain ⟨init, name, rfl⟩ : ∃ init name, rel = init ++ [name] :=
    ⟨_, _, (List.dropLast_append_getLast hne).symm⟩
  rw [below_concat, fields_join _ (hplain name (by simp)).2,
    steps_below p fun n hn => hplain n (by simp [hn]), List.append_assoc]

end Path

namespace FileSystem

variable {fs fs' : FileSystem} {p : Path} {rel rel' place place' : List String} {s : Standing}
  {content : Bytes}

theorem eq_of_foldlM_follow (hrel : ∀ name ∈ rel, Path.Descends name)
    (h : rel.foldlM fs.follow place = .ok place') : place' = place ++ rel := by
  induction rel generalizing place with
  | nil =>
      cases h
      simp
  | cons name rest ih =>
      rw [List.foldlM_cons, Traversal.bind_eq_ok_iff] at h
      obtain ⟨next, hnext, h⟩ := h
      obtain ⟨-, -, rfl, -⟩ := (follow_eq_ok_iff _ _ _ (hrel name (by simp))).mp hnext
      rw [ih (fun n hn => hrel n (by simp [hn])) h, List.append_assoc]
      rfl

/-- What is inside of a directory has its place inside of the place of the directory. -/
theorem exists_of_resolve_below (hrel : Path.Inner rel) (h : fs.resolve (p.below rel) = .ok place) :
    ∃ parent, p.steps.foldlM fs.follow (fs.startOf p) = .ok parent ∧ place = parent ++ rel := by
  obtain ⟨names, hnames, hplace⟩ := (resolve_eq_ok_iff _ _ _).mp h
  rw [eq_of_namesOf hnames, Path.fields_below p hrel, List.foldlM_append,
    Traversal.bind_eq_ok_iff] at hplace
  obtain ⟨parent, hparent, hplace⟩ := hplace
  rw [startOf, Path.isAbsolute_below p hrel.2] at hparent
  exact ⟨parent, hparent, eq_of_foldlM_follow (fun n hn => (hrel.2 n hn).1) hplace⟩

/-- Different names inside of a directory lead to different places. -/
theorem ne_of_resolve_below (hrel : Path.Inner rel) (hrel' : Path.Inner rel') (hne : rel ≠ rel')
    (h : fs.resolve (p.below rel) = .ok place) (h' : fs.resolve (p.below rel') = .ok place') :
    place ≠ place' := by
  obtain ⟨parent, hparent, rfl⟩ := exists_of_resolve_below hrel h
  obtain ⟨parent', hparent', rfl⟩ := exists_of_resolve_below hrel' h'
  rw [hparent] at hparent'
  cases hparent'
  exact fun heq => hne (List.append_cancel_left heq)

/-- Writing a file inside of a directory changes nothing else inside of it. -/
theorem standingAt?_writeFile_of_ne (hrel : Path.Inner rel) (hrel' : Path.Inner rel')
    (hne : rel' ≠ rel) (h : fs.writeFile (p.below rel) content = .ok fs')
    (hs : fs.standingAt? (p.below rel') = some s) : fs'.standingAt? (p.below rel') = some s := by
  obtain ⟨place, hplace, -, hputs⟩ := puts_of_writeFile h
  obtain ⟨place', hplace', hs⟩ := (standingAt?_eq_some_iff _ _ _).mp hs
  have hafter := resolve_of_grows (grows_writeFile h) hplace'
  refine (standingAt?_eq_some_iff _ _ _).mpr ⟨place', hafter, ?_⟩
  rw [hputs.of_ne (ne_of_resolve_below hrel' hrel hne hafter hplace), hs]

theorem standingAt?_writeFile_join_of_ne {name other : String} (hname : Path.Plain name)
    (hother : Path.Plain other) (hne : other ≠ name)
    (h : fs.writeFile (p.join name) content = .ok fs')
    (hs : fs.standingAt? (p.join other) = some s) : fs'.standingAt? (p.join other) = some s := by
  rw [← Path.below_singleton] at h hs ⊢
  exact standingAt?_writeFile_of_ne (Path.inner_singleton hname) (Path.inner_singleton hother)
    (by simpa using hne) h hs

end FileSystem

end Namebridge
