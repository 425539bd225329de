import Mathlib.Data.List.Basic
import Namebridge.Host.Directory

/-!
# Places in a directory

What a program can tell of a directory is what stands at the places in it: a file with its content,
a directory, or nothing. Putting a file or an empty directory at a place changes that at this place
alone, as long as no directory was there before (`standing?_putAt`).
-/

namespace Namebridge

namespace Entry

def standing : Entry → Standing
  | .file content => .file content
  | .folder _ => .folder

theorem map_standing_eq_folder_iff (found : Option Entry) :
    found.map standing = some .folder ↔ ∃ inside, found = some (.folder inside) := by
  rcases found with - | (content | inside) <;> simp [standing]

theorem map_standing_eq_file_iff (found : Option Entry) (content : Bytes) :
    found.map standing = some (.file content) ↔ found = some (.file content) := by
  rcases found with - | (content | inside) <;> simp [standing]

@[simp] theorem standing_bare (s : Standing) : s.bare.standing = s := by
  cases s <;> rfl

end Entry

namespace Directory

variable {d inside : Directory} {entry : Entry} {name : String} {place rest : List String}

/-- What stands at a place of a directory. -/
def standing? (d : Directory) (place : List String) : Option Standing :=
  (d.at? place).map Entry.standing

theorem at?_singleton (d : Directory) (name : String) : d.at? [name] = d.child? name := by
  rw [at?]
  split
  · rename_i h
    exact h.symm
  · rename_i h
    exact h.symm
  · rename_i h
    exact h.symm

theorem at?_cons_of_ne_nil (hrest : rest ≠ []) (hchild : ∀ f, d.child? name ≠ some (.folder f)) :
    d.at? (name :: rest) = none := by
  rw [at?]
  split
  · rfl
  · exact if_neg hrest
  · rename_i f hf
    exact absurd hf (hchild f)

theorem at?_append (h : d.at? place = some (.folder inside)) (rest : List String) :
    d.at? (place ++ rest) = inside.at? rest := by
  induction place generalizing d with
  | nil =>
      rw [at?] at h
      cases h
      rfl
  | cons first later ih =>
      rw [at?] at h
      rw [List.cons_append, at?]
      split at h
      · cases h
      · split at h <;> cases h
      · exact ih h

theorem child?_eq_at? (h : d.at? place = some (.folder inside)) (name : String) :
    inside.child? name = d.at? (place ++ [name]) := by
  rw [at?_append h, at?_singleton]

theorem put_eq_self (h : d.child? name = some entry) : d.put name entry = d := by
  induction d with
  | empty => cases h
  | file n content rest ih =>
      rw [child?] at h
      by_cases hn : n = name
      · rw [if_pos hn] at h
        cases h
        simp [put, hn]
      · rw [if_neg hn] at h
        simp [put, hn, ih h]
  | folder n below rest _ ih =>
      rw [child?] at h
      by_cases hn : n = name
      · rw [if_pos hn] at h
        cases h
        simp [put, hn]
      · rw [if_neg hn] at h
        simp [put, hn, ih h]

/-- Putting what is there changes nothing. -/
theorem putAt_eq_self (h : d.at? (place ++ [name]) = some entry) :
    d.putAt name entry place = d := by
  induction place generalizing d with
  | nil =>
      rw [List.nil_append, at?_singleton] at h
      exact put_eq_self h
  | cons first later ih =>
      rw [List.cons_append, at?] at h
      rw [putAt]
      split at h
      · cases h
      · simp at h
      · rename_i below hbelow
        rw [hbelow]
        show d.put first (.folder (below.putAt name entry later)) = d
        rw [ih h, put_eq_self hbelow]

/-- What is on the way to a place is a directory. -/
theorem exists_folder_of_at?_append (h : d.at? (place ++ rest) = some entry) (hrest : rest ≠ []) :
    ∃ inside, d.at? place = some (.folder inside) := by
  induction place generalizing d with
  | nil => exact ⟨d, rfl⟩
  | cons first later ih =>
      rw [List.cons_append, at?] at h
      rw [at?]
      split at h
      · cases h
      · simp [hrest] at h
      · exact ih h

theorem exists_folder_dropLast (h : d.at? place = some (.folder inside)) :
    ∃ above, d.at? place.dropLast = some (.folder above) := by
  rcases List.eq_nil_or_concat place with rfl | ⟨init, last, rfl⟩
  · exact ⟨inside, h⟩
  · rw [List.concat_eq_append] at h ⊢
    rw [List.dropLast_concat]
    exact exists_folder_of_at?_append h (by simp)

theorem standing?_cons_of_folder (h : d.child? name = some (.folder inside))
    (rest : List String) : d.standing? (name :: rest) = inside.standing? rest := by
  rw [standing?, at?, h]
  rfl

theorem standing?_cons_of_file {content : Bytes} (h : d.child? name = some (.file content))
    (rest : List String) :
    d.standing? (name :: rest) = if rest = [] then some (.file content) else none := by
  rw [standing?, Directory.at?, h]
  by_cases hrest : rest = []
  · simp [hrest, Entry.standing]
  · simp [hrest]

theorem standing?_append (h : d.at? place = some (.folder inside)) (rest : List String) :
    d.standing? (place ++ rest) = inside.standing? rest := by
  rw [standing?, at?_append h, standing?]

theorem standing?_cons_congr {d' : Directory} (h : d'.child? name = d.child? name)
    (rest : List String) : d'.standing? (name :: rest) = d.standing? (name :: rest) := by
  rw [standing?, standing?, at?, at?, h]

/-- Nothing is inside of a bare entry. -/
theorem at?_cons_of_bare {s : Standing} (hchild : d.child? name = some s.bare) (hrest : rest ≠ []) :
    d.at? (name :: rest) = none := by
  rw [at?, hchild]
  cases s with
  | file content => exact if_neg hrest
  | folder =>
      obtain ⟨first, later, rfl⟩ := List.exists_cons_of_ne_nil hrest
      rfl

theorem standing?_put (hold : ∀ f, d.child? name ≠ some (.folder f)) (s : Standing)
    (other : List String) : (d.put name s.bare).standing? other
      = if other = [name] then some s else d.standing? other := by
  cases other with
  | nil => rfl
  | cons first later =>
      have hchild := child?_put d name first s.bare
      by_cases hfirst : name = first
      · subst hfirst
        rw [if_pos rfl] at hchild
        by_cases hlater : later = []
        · subst hlater
          rw [if_pos rfl, standing?, at?_singleton, hchild, Option.map_some, Entry.standing_bare]
        · rw [if_neg (by simpa using hlater), standing?, standing?,
            at?_cons_of_bare hchild hlater, at?_cons_of_ne_nil hlater hold]
      · rw [if_neg hfirst] at hchild
        have hne : first :: later ≠ [name] := fun heq => hfirst (List.cons.inj heq).1.symm
        rw [if_neg hne, standing?_cons_congr hchild]

/-- Putting something at a place of its own changes what stands there, and nothing else. -/
theorem standing?_putAt (hplace : d.at? place = some (.folder inside))
    (hold : ∀ f, inside.child? name ≠ some (.folder f)) (s : Standing)
    (other : List String) : (d.putAt name s.bare place).standing? other
      = if other = place ++ [name] then some s else d.standing? other := by
  induction place generalizing d other with
  | nil =>
      rw [at?] at hplace
      cases hplace
      exact standing?_put hold s other
  | cons first later ih =>
      rw [at?] at hplace
      split at hplace
      · cases hplace
      · split at hplace <;> cases hplace
      · rename_i below hbelow
        have hput : d.putAt name s.bare (first :: later)
            = d.put first (.folder (below.putAt name s.bare later)) := by
          rw [putAt, hbelow]
        rw [hput]
        cases other with
        | nil => rfl
        | cons head tail =>
            have hchild := child?_put d first head (.folder (below.putAt name s.bare later))
            by_cases hhead : first = head
            · subst hhead
              rw [if_pos rfl] at hchild
              rw [standing?_cons_of_folder hchild, standing?_cons_of_folder hbelow, ih hplace]
              simp
            · rw [if_neg hhead] at hchild
              have hne : head :: tail ≠ (first :: later) ++ [name] :=
                fun heq => hhead (List.cons.inj heq).1.symm
              rw [standing?_cons_congr hchild, if_neg hne]

end Directory

end Namebridge
