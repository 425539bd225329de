/-!
# Cutting a text at a separator

The first and the last place where a separator stands, and all of them. `before` and `since` are the
two halves at the first place: nothing is lost (`before_append_since`), and the first half has no
separator (`not_mem_before`).
-/

namespace Namebridge.Text

/-- The text before the first `sep`, or all of it. -/
def before (sep : Char) (s : String) : String := String.ofList (s.toList.takeWhile (· ≠ sep))

/-- The text from the first `sep` on, which is empty if there is none. -/
def since (sep : Char) (s : String) : String := String.ofList (s.toList.dropWhile (· ≠ sep))

/-- The texts before and after the first `sep`. -/
def cutFirst? (sep : Char) (s : String) : Option (String × String) :=
  match s.toList.dropWhile (· ≠ sep) with
  | [] => none
  | _ :: rest => some (before sep s, String.ofList rest)

/-- The text after the last `sep`, or all of it. -/
def afterLast (sep : Char) (s : String) : String :=
  String.ofList (s.toList.reverse.takeWhile (· ≠ sep)).reverse

/-- The texts before and after the last `sep`. -/
def cutLast? (sep : Char) (s : String) : Option (String × String) :=
  match s.toList.reverse.dropWhile (· ≠ sep) with
  | [] => none
  | _ :: rest => some (String.ofList rest.reverse, afterLast sep s)

/-- The texts between the places where `sep` stands. There is always at least one. -/
def fields (sep : Char) (s : String) : List String :=
  (s.toList.splitOn sep).map String.ofList

/-! ## Laws -/

theorem before_append_since (sep : Char) (s : String) : before sep s ++ since sep s = s := by
  apply String.ext
  simp [before, since, String.toList_append, List.takeWhile_append_dropWhile]

theorem not_mem_before (sep : Char) (s : String) : sep ∉ (before sep s).toList := by
  intro h
  simp only [before, String.toList_ofList] at h
  have := List.all_takeWhile (p := (· ≠ sep)) (l := s.toList)
  simpa using List.all_eq_true.mp this sep h

/-- A cut exists exactly if the separator occurs. -/
theorem cutFirst?_eq_none_iff (sep : Char) (s : String) :
    cutFirst? sep s = none ↔ sep ∉ s.toList := by
  have h : s.toList.dropWhile (· ≠ sep) = [] ↔ sep ∉ s.toList := by
    induction s.toList with
    | nil => simp
    | cons c rest ih =>
        by_cases hc : c = sep
        · simp [hc]
        · have hs : ¬ sep = c := fun hs => hc hs.symm
          simpa [List.dropWhile_cons, hc, hs] using ih
  rw [← h, cutFirst?]
  split <;> simp_all

/-- The two texts of a cut, with the separator between them, are the whole text. -/
theorem eq_of_cutFirst? {sep : Char} {s a b : String} (h : cutFirst? sep s = some (a, b)) :
    s = a ++ String.ofList [sep] ++ b ∧ sep ∉ a.toList := by
  rw [cutFirst?] at h
  split at h
  · cases h
  · rename_i c rest hd
    cases h
    refine ⟨?_, not_mem_before sep s⟩
    have hc : c = sep := by
      have := List.head?_dropWhile_not (p := (· ≠ sep)) (l := s.toList)
      rw [hd] at this
      simpa using this
    apply String.ext
    have := List.takeWhile_append_dropWhile (p := (· ≠ sep)) (l := s.toList)
    rw [hd, hc] at this
    simpa [before, String.toList_append] using this.symm

end Namebridge.Text
