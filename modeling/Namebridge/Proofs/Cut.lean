import Mathlib.Data.List.TakeWhile
import Namebridge.Text.Cut

/-!
# Texts put together and cut again

A text that is put together from a part without the separator and a part that starts with it, or is
empty, is cut into these two parts. A text that is put together from parts with the separator
between them is cut into these parts, and `fields` gives no other ones (`fields_eq_iff`).
-/

namespace Namebridge.Text

variable {sep : Char} {a b : String}

private theorem all_ne_of_not_mem (h : sep ∉ a.toList) :
    ∀ c ∈ a.toList, decide (c ≠ sep) = true := by
  intro c hc
  exact decide_eq_true fun heq => h (heq ▸ hc)

private theorem not_mem_of_mem_splitOn {s part : List Char} (h : part ∈ s.splitOn sep) :
    sep ∉ part := by
  induction s generalizing part with
  | nil =>
      obtain rfl : part = [] := by simpa using h
      simp
  | cons c rest ih =>
      rw [List.splitOn_cons_eq_if_modifyHead] at h
      by_cases hc : c = sep
      · rw [if_pos (by simpa using hc)] at h
        rcases List.mem_cons.mp h with rfl | h
        · simp
        · exact ih h
      · rw [if_neg (by simpa using hc)] at h
        cases hsplit : rest.splitOn sep with
        | nil => simp at hsplit
        | cons first others =>
            -- `c` goes to the front of the first field, and the others stay as they are
            rw [hsplit, List.modifyHead_cons] at h
            have hc' : ¬ sep = c := fun hc' => hc hc'.symm
            rcases List.mem_cons.mp h with rfl | h
            · have hfirst := ih (show first ∈ rest.splitOn sep by simp [hsplit])
              simpa [hc'] using hfirst
            · exact ih (by simp [hsplit, h])

theorem before_append (ha : sep ∉ a.toList) (hb : ∀ c ∈ b.toList.head?, c = sep) :
    before sep (a ++ b) = a := by
  have hrest : b.toList.takeWhile (· ≠ sep) = [] := by
    cases h : b.toList with
    | nil => rfl
    | cons c rest => simp [hb c (by simp [h])]
  apply String.ext
  rw [before, String.toList_append, String.toList_ofList,
    List.takeWhile_append_of_pos (all_ne_of_not_mem ha), hrest, List.append_nil]

theorem since_append (ha : sep ∉ a.toList) (hb : ∀ c ∈ b.toList.head?, c = sep) :
    since sep (a ++ b) = b := by
  have hrest : b.toList.dropWhile (· ≠ sep) = b.toList := by
    cases h : b.toList with
    | nil => rfl
    | cons c rest => simp [hb c (by simp [h])]
  apply String.ext
  rw [since, String.toList_append, String.toList_ofList,
    List.dropWhile_append_of_pos (all_ne_of_not_mem ha), hrest]

theorem since_append_of_not_mem (ha : sep ∉ a.toList) (b : String) :
    since sep (a ++ b) = since sep b := by
  rw [since, since, String.toList_append, List.dropWhile_append_of_pos (all_ne_of_not_mem ha)]

theorem since_eq_empty_iff (sep : Char) (s : String) : since sep s = "" ↔ sep ∉ s.toList := by
  rw [since, ← String.toList_eq_nil_iff, String.toList_ofList, List.dropWhile_eq_nil_iff]
  constructor
  · intro h hmem
    simpa using h sep hmem
  · intro h c hc
    exact decide_eq_true fun heq => h (heq ▸ hc)

/-- What follows a separator follows the first one. -/
theorem mem_since_append {c : Char} (a : String) (hc : c ∈ b.toList) :
    c ∈ (since sep (a ++ String.singleton sep ++ b)).toList := by
  have hrest : (sep :: b.toList).dropWhile (· ≠ sep) = sep :: b.toList := by simp
  rw [since, String.toList_ofList, String.append_assoc, String.toList_append, String.toList_append,
    String.toList_singleton, List.singleton_append, List.dropWhile_append, hrest]
  split <;> simp [hc]

/-! ## One cut -/

theorem cutFirst?_append (ha : sep ∉ a.toList) (b : String) :
    cutFirst? sep (a ++ String.ofList [sep] ++ b) = some (a, b) := by
  have hrest : (a ++ String.ofList [sep] ++ b).toList.dropWhile (· ≠ sep) = sep :: b.toList := by
    simp only [String.toList_append, String.toList_ofList, List.append_assoc, List.cons_append,
      List.nil_append, List.dropWhile_append_of_pos (all_ne_of_not_mem ha)]
    simp
  have hbefore : before sep (a ++ String.ofList [sep] ++ b) = a := by
    rw [String.append_assoc, before_append ha]
    simp
  rw [cutFirst?, hrest, hbefore]
  show some (a, String.ofList b.toList) = _
  rw [String.ofList_toList]

theorem cutFirst?_eq_some_iff (s : String) :
    cutFirst? sep s = some (a, b) ↔ s = a ++ String.ofList [sep] ++ b ∧ sep ∉ a.toList := by
  refine ⟨eq_of_cutFirst?, ?_⟩
  intro h
  obtain ⟨rfl, ha⟩ := h
  exact cutFirst?_append ha b

/-- What follows the part before a separator is empty or starts with it. -/
theorem head?_since (sep : Char) (s : String) : ∀ c ∈ (since sep s).toList.head?, c = sep := by
  intro c hc
  have hnot := List.head?_dropWhile_not (p := (· ≠ sep)) (l := s.toList)
  rw [since, String.toList_ofList, Option.mem_def] at hc
  rw [hc] at hnot
  simpa using hnot

/-- Nothing is before a separator at the start. -/
theorem before_of_head? (h : ∀ c ∈ b.toList.head?, c = sep) : before sep b = "" := by
  have hempty := before_append (a := "") (by simp) h
  rwa [String.empty_append] at hempty

theorem since_of_head? (h : ∀ c ∈ b.toList.head?, c = sep) : since sep b = b := by
  have hempty := since_append (a := "") (by simp) h
  rwa [String.empty_append] at hempty

theorem before_since (sep : Char) (s : String) : before sep (since sep s) = "" :=
  before_of_head? (head?_since sep s)

theorem since_since (sep : Char) (s : String) : since sep (since sep s) = since sep s :=
  since_of_head? (head?_since sep s)

/-! ## The last cut -/

theorem cutLast?_append (a : String) (hb : sep ∉ b.toList) :
    cutLast? sep (a ++ String.singleton sep ++ b) = some (a, b) := by
  have hall : ∀ c ∈ b.toList.reverse, decide (c ≠ sep) = true := fun c hc =>
    decide_eq_true fun heq => hb (heq ▸ List.mem_reverse.mp hc)
  have hreverse : (a ++ String.singleton sep ++ b).toList.reverse
      = b.toList.reverse ++ sep :: a.toList.reverse := by simp
  rw [cutLast?, afterLast, hreverse, List.dropWhile_append_of_pos hall,
    List.takeWhile_append_of_pos hall]
  simp

/-- A text with a separator has a last one. -/
theorem exists_last {s : String} (h : sep ∈ s.toList) :
    ∃ a b, s = a ++ String.singleton sep ++ b ∧ sep ∉ b.toList := by
  obtain ⟨after, before, hreverse, hafter⟩ :=
    List.eq_append_cons_of_mem (List.mem_reverse.mpr h)
  refine ⟨String.ofList before.reverse, String.ofList after.reverse, String.ext ?_, ?_⟩
  · rw [← List.reverse_reverse s.toList, hreverse]
    simp
  · simpa using hafter

theorem cutLast?_eq_some_iff (s : String) :
    cutLast? sep s = some (a, b) ↔ s = a ++ String.singleton sep ++ b ∧ sep ∉ b.toList := by
  constructor
  · intro h
    by_cases hsep : sep ∈ s.toList
    · obtain ⟨a', b', rfl, hb'⟩ := exists_last hsep
      rw [cutLast?_append a' hb', Option.some.injEq, Prod.mk.injEq] at h
      obtain ⟨rfl, rfl⟩ := h
      exact ⟨rfl, hb'⟩
    · have hnone : s.toList.reverse.dropWhile (· ≠ sep) = [] := by
        rw [List.dropWhile_eq_nil_iff]
        intro c hc
        exact decide_eq_true fun heq => hsep (heq ▸ List.mem_reverse.mp hc)
      rw [cutLast?, hnone] at h
      cases h
  · intro h
    obtain ⟨rfl, hb⟩ := h
    exact cutLast?_append a hb

/-! ## All cuts -/

/-- A text is these parts with the separator between them, and no part has the separator. -/
structure Joins (sep : Char) (parts : List String) (s : String) : Prop where
  ne_nil : parts ≠ []
  not_mem : ∀ part ∈ parts, sep ∉ part.toList
  eq_intercalate : s = (String.singleton sep).intercalate parts

/-- Only the separator is between the parts. -/
theorem not_mem_intercalate {c : Char} (hsep : c ≠ sep) {parts : List String}
    (h : ∀ part ∈ parts, c ∉ part.toList) :
    c ∉ ((String.singleton sep).intercalate parts).toList := by
  induction parts with
  | nil => simp
  | cons part rest ih =>
      have hpart := h part (by simp)
      cases rest with
      | nil => simpa using hpart
      | cons next others =>
          have hrest := ih fun p hp => h p (by simp [hp])
          simp only [String.intercalate_cons_cons, String.toList_append, String.toList_singleton,
            List.mem_append, List.mem_singleton, hpart, hsep, hrest, or_self, not_false_eq_true]

theorem joins_fields (sep : Char) (s : String) : Joins sep (fields sep s) s := by
  refine ⟨?ne_nil, ?not_mem, ?eq_intercalate⟩
  case ne_nil => simp [fields]
  case not_mem =>
    intro part hpart
    obtain ⟨cs, hcs, rfl⟩ := List.mem_map.mp hpart
    rw [String.toList_ofList]
    exact not_mem_of_mem_splitOn hcs
  case eq_intercalate =>
    apply String.ext
    rw [String.toList_intercalate, String.toList_singleton, fields, List.map_map]
    simp [Function.comp_def]

/-- The fields of a text are the parts that it joins. -/
theorem fields_eq_iff (sep : Char) (s : String) (parts : List String) :
    fields sep s = parts ↔ Joins sep parts s := by
  refine ⟨fun h => h ▸ joins_fields sep s, fun h => ?_⟩
  have hlists : ∀ cs ∈ parts.map String.toList, sep ∉ cs := by
    intro cs hcs
    obtain ⟨part, hpart, rfl⟩ := List.mem_map.mp hcs
    exact h.not_mem part hpart
  rw [fields, h.eq_intercalate, String.toList_intercalate, String.toList_singleton,
    List.splitOn_intercalate sep hlists (by simpa using h.ne_nil), List.map_map]
  simp [Function.comp_def]

theorem Joins.unique {s : String} {parts parts' : List String} (h : Joins sep parts s)
    (h' : Joins sep parts' s) : parts = parts' := by
  rw [← fields_eq_iff] at h h'
  exact h.symm.trans h'

theorem fields_of_not_mem {s : String} (h : sep ∉ s.toList) : fields sep s = [s] := by
  rw [fields, List.splitOn_eq_singleton h, List.map_singleton, String.ofList_toList]

theorem fields_append (sep : Char) (a b : String) :
    fields sep (a ++ String.singleton sep ++ b) = fields sep a ++ fields sep b := by
  have hlist : (a ++ String.singleton sep ++ b).toList = a.toList ++ sep :: b.toList := by simp
  rw [fields, hlist, List.splitOn_append_cons_self, List.map_append, ← fields, ← fields]

/-- There is a second part exactly if the separator occurs. -/
theorem exists_fields_eq_cons_cons_iff (sep : Char) (s : String) :
    (∃ first second more, fields sep s = first :: second :: more) ↔ sep ∈ s.toList := by
  constructor
  · rintro ⟨first, second, more, hfields⟩
    have hjoins := (fields_eq_iff sep s _).mp hfields
    rw [hjoins.eq_intercalate, String.intercalate_cons_cons]
    simp
  · intro h
    obtain ⟨before, after, hs⟩ := List.append_of_mem h
    have hparts : s = String.ofList before ++ String.singleton sep ++ String.ofList after := by
      apply String.ext
      simp [hs]
    obtain ⟨first, front, hfront⟩ :=
      List.exists_cons_of_ne_nil (joins_fields sep (String.ofList before)).ne_nil
    obtain ⟨last, back, hback⟩ :=
      List.exists_cons_of_ne_nil (joins_fields sep (String.ofList after)).ne_nil
    rw [hparts, fields_append, hfront, hback]
    cases front with
    | nil => exact ⟨first, last, back, rfl⟩
    | cons second more => exact ⟨first, second, more ++ last :: back, rfl⟩

theorem fields_eq_pair_iff (s first second : String) :
    fields sep s = [first, second] ↔ sep ∉ first.toList ∧ sep ∉ second.toList ∧
      s = first ++ String.singleton sep ++ second := by
  rw [fields_eq_iff]
  constructor
  · intro h
    obtain ⟨-, hnot, heq⟩ := h
    refine ⟨hnot first (by simp), hnot second (by simp), ?_⟩
    simpa using heq
  · intro h
    obtain ⟨hfirst, hsecond, heq⟩ := h
    exact ⟨by simp, by simp [hfirst, hsecond], by simpa using heq⟩

theorem fields_eq_triple_iff (s first second third : String) :
    fields sep s = [first, second, third] ↔ sep ∉ first.toList ∧ sep ∉ second.toList ∧
      sep ∉ third.toList ∧
      s = first ++ String.singleton sep ++ second ++ String.singleton sep ++ third := by
  rw [fields_eq_iff]
  constructor
  · intro h
    obtain ⟨-, hnot, heq⟩ := h
    refine ⟨hnot first (by simp), hnot second (by simp), hnot third (by simp), ?_⟩
    simpa only [String.intercalate_cons_cons, String.intercalate_singleton,
      ← String.append_assoc] using heq
  · intro h
    obtain ⟨hfirst, hsecond, hthird, heq⟩ := h
    refine ⟨by simp, by simp [hfirst, hsecond, hthird], ?_⟩
    simpa only [String.intercalate_cons_cons, String.intercalate_singleton,
      ← String.append_assoc] using heq

/-! ## Words between texts -/

/-- A word whose first letter is nowhere else in it cannot begin anew inside of itself. -/
private theorem eq_nil_of_append_word {first : Char} {later b t b' : List Char}
    (hfirst : first ∉ later) (ht : ¬ first :: later <:+: t)
    (h : first :: later ++ b = t ++ (first :: later ++ b')) : t = [] := by
  rcases List.append_eq_append_iff.mp h with ⟨u, rfl, -⟩ | ⟨u, hword, hrest⟩
  · exact absurd (List.prefix_append _ _).isInfix ht
  · cases t with
    | nil => rfl
    | cons c more =>
        rw [List.cons_append, List.cons.injEq] at hword
        obtain ⟨rfl, rfl⟩ := hword
        cases u with
        | nil => exact absurd (by simp) ht
        | cons d others =>
            rw [List.cons_append, List.cons_append, List.cons.injEq] at hrest
            exact absurd (by simp [hrest.1]) hfirst

/-- A word whose first letter is nowhere else in it ends the part of a text that has no such word. -/
theorem append_word_inj {first : Char} {later : List Char} {a a' b b' word : String}
    (hword : word.toList = first :: later) (hfirst : first ∉ later)
    (ha : ¬ word.toList <:+: a.toList) (ha' : ¬ word.toList <:+: a'.toList)
    (h : a ++ word ++ b = a' ++ word ++ b') : a = a' ∧ b = b' := by
  have hlists := congrArg String.toList h
  simp only [String.toList_append, List.append_assoc] at hlists
  have hsame : a.toList = a'.toList := by
    rw [hword] at ha ha' hlists
    rcases List.append_eq_append_iff.mp hlists with ⟨t, hmore, hrest⟩ | ⟨t, hmore, hrest⟩
    · have ht : ¬ first :: later <:+: t := fun ht =>
        ha' (hmore ▸ ht.trans (List.suffix_append _ _).isInfix)
      rw [hmore, eq_nil_of_append_word hfirst ht hrest, List.append_nil]
    · have ht : ¬ first :: later <:+: t := fun ht =>
        ha (hmore ▸ ht.trans (List.suffix_append _ _).isInfix)
      rw [hmore, eq_nil_of_append_word hfirst ht hrest, List.append_nil]
  obtain rfl : a = a' := String.ext hsame
  rw [String.append_assoc, String.append_assoc, String.append_right_inj,
    String.append_right_inj] at h
  exact ⟨rfl, h⟩

end Namebridge.Text
