import Mathlib.Data.List.Nodup
import Namebridge.Host.Walk
import Namebridge.Proofs.MadeDirectories

/-!
# What a walk visits

A walk that can be relied on visits a directory and all that stands below it, however deep, each of
it once, and says of each whether it is a file or a directory (`VisitsEach`). In which order it does
so is open. The walk along the entries of each directory is one of these (`visitsEach_walk`): no two
entries of a directory have one name, and each name leads one step down.
-/

namespace Namebridge

/-- What a walk says of something that stands somewhere. -/
def Standing.kind : Standing → Kind
  | file _ => .file
  | folder => .folder

/-! ## What a directory has in it -/

namespace Directory

variable {d inside : Directory} {name : String} {place : List String} {entry : Entry}

/-- What stands in a tree stands there under plain names. -/
theorem IsTree.at? (h : d.IsTree) (hat : d.at? place = some entry) :
    (∀ name ∈ place, Path.Plain name) ∧ entry.IsTree := by
  induction place generalizing d with
  | nil =>
      cases hat
      exact ⟨by simp, h⟩
  | cons first later ih =>
      rw [Directory.at?] at hat
      split at hat
      · cases hat
      · rename_i content hchild
        split at hat
        · rename_i hlater
          cases hat
          obtain ⟨hplain, -⟩ := h.child? hchild
          exact ⟨by simp [hlater, hplain], trivial⟩
        · cases hat
      · rename_i inside hchild
        obtain ⟨hplain, hinside⟩ := h.child? hchild
        obtain ⟨hplainLater, hentry⟩ := ih hinside hat
        exact ⟨by simpa [hplain] using hplainLater, hentry⟩

/-- All that is below a directory, by the names that lead to it. -/
def contents : Directory → List (List String × Standing)
  | empty => []
  | file name content rest => ([name], .file content) :: rest.contents
  | folder name inside rest =>
      ([name], .folder) :: (inside.contents.map (fun entry => (name :: entry.1, entry.2))
        ++ rest.contents)

theorem visits_eq (base : Path) (d : Directory) :
    d.visits base = d.contents.map fun entry => ⟨base.below entry.1, entry.2.kind⟩ := by
  induction d generalizing base with
  | empty => rfl
  | file name content rest ih =>
      rw [visits, contents, ih]
      rfl
  | folder name inside rest ihInside ihRest =>
      rw [visits, contents, ihInside, ihRest, List.map_cons, List.map_append, List.map_map]
      rfl

/-- The way to what is below a directory starts with a name in it. -/
theorem exists_cons_of_mem_contents {s : Standing} (h : (place, s) ∈ d.contents) :
    ∃ name later, place = name :: later ∧ name ∈ d.names := by
  induction d generalizing place with
  | empty => cases h
  | file n content rest ih =>
      rcases List.mem_cons.mp h with h | h
      · cases h
        exact ⟨n, [], rfl, by simp [names]⟩
      · obtain ⟨name, later, rfl, hname⟩ := ih h
        exact ⟨name, later, rfl, by simp [names, hname]⟩
  | folder n inside rest _ ih =>
      rcases List.mem_cons.mp h with h | h
      · cases h
        exact ⟨n, [], rfl, by simp [names]⟩
      · rcases List.mem_append.mp h with h | h
        · obtain ⟨_, -, heq⟩ := List.mem_map.mp h
          cases heq
          exact ⟨n, _, rfl, by simp [names]⟩
        · obtain ⟨name, later, rfl, hname⟩ := ih h
          exact ⟨name, later, rfl, by simp [names, hname]⟩

theorem not_mem_contents (h : name ∉ d.names) (later : List String) (s : Standing) :
    (name :: later, s) ∉ d.contents := by
  intro hmem
  obtain ⟨_, _, hplace, hname⟩ := exists_cons_of_mem_contents hmem
  cases hplace
  exact h hname

theorem nil_not_mem_contents (d : Directory) (s : Standing) : ([], s) ∉ d.contents := by
  intro hmem
  obtain ⟨_, _, hplace, -⟩ := exists_cons_of_mem_contents hmem
  cases hplace

/-- What is below a directory is what is found there, and the directory itself is not. -/
theorem mem_contents_iff (h : d.WellFormed) (place : List String) (s : Standing) :
    (place, s) ∈ d.contents ↔ place ≠ [] ∧ d.standing? place = some s := by
  induction d generalizing place with
  | empty =>
      refine iff_of_false List.not_mem_nil ?_
      rintro ⟨hne, hs⟩
      obtain ⟨first, later, rfl⟩ := List.exists_cons_of_ne_nil hne
      cases hs
  | file n content rest ih =>
      obtain ⟨hnew, hrest⟩ := h
      cases place with
      | nil => simp [nil_not_mem_contents]
      | cons first later =>
          by_cases hfirst : n = first
          · subst hfirst
            have hchild : (file n content rest).child? n = some (.file content) := if_pos rfl
            rw [standing?_cons_of_file hchild, contents, List.mem_cons]
            by_cases hlater : later = [] <;> simp [hlater, not_mem_contents hnew, eq_comm]
          · have hchild : (file n content rest).child? first = rest.child? first := if_neg hfirst
            have hne : ¬ first = n := fun heq => hfirst heq.symm
            rw [standing?_cons_congr hchild]
            refine Iff.trans ?_ (ih hrest (first :: later))
            simp [contents, hne]
  | folder n inside rest ihInside ihRest =>
      obtain ⟨hnew, hinside, hrest⟩ := h
      cases place with
      | nil => simp [nil_not_mem_contents]
      | cons first later =>
          by_cases hfirst : n = first
          · subst hfirst
            have hchild : (folder n inside rest).child? n = some (.folder inside) := if_pos rfl
            rw [standing?_cons_of_folder hchild]
            have hmem : (n :: later, s) ∈ (folder n inside rest).contents ↔
                later = [] ∧ s = .folder ∨ (later, s) ∈ inside.contents := by
              simp [contents, not_mem_contents hnew]
            rw [hmem, ihInside hinside later]
            -- the directory itself is found in it under no name at all
            by_cases hlater : later = [] <;>
              simp [hlater, standing?, Directory.at?, Entry.standing, eq_comm]
          · have hchild : (folder n inside rest).child? first = rest.child? first := if_neg hfirst
            have hne : ¬ first = n := fun heq => hfirst heq.symm
            rw [standing?_cons_congr hchild]
            refine Iff.trans ?_ (ihRest hrest (first :: later))
            simp [contents, hfirst, hne]

/-- Nothing is listed twice. -/
theorem nodup_contents (h : d.WellFormed) : d.contents.Nodup := by
  induction d with
  | empty => exact List.nodup_nil
  | file n content rest ih =>
      obtain ⟨hnew, hrest⟩ := h
      exact List.nodup_cons.mpr ⟨not_mem_contents hnew [] _, ih hrest⟩
  | folder n inside rest ihInside ihRest =>
      obtain ⟨hnew, hinside, hrest⟩ := h
      have hcons : Function.Injective fun entry : List String × Standing =>
          (n :: entry.1, entry.2) := by
        rintro ⟨_, _⟩ ⟨_, _⟩ heq
        cases heq
        rfl
      refine List.nodup_cons.mpr ⟨?_, List.nodup_append.mpr
        ⟨List.Nodup.map hcons (ihInside hinside), ihRest hrest, ?_⟩⟩
      · intro hmem
        rcases List.mem_append.mp hmem with hmem | hmem
        · obtain ⟨⟨place, s⟩, hplace, heq⟩ := List.mem_map.mp hmem
          cases heq
          exact nil_not_mem_contents inside _ hplace
        · exact not_mem_contents hnew [] _ hmem
      · rintro _ hplace _ hother rfl
        obtain ⟨_, -, rfl⟩ := List.mem_map.mp hplace
        exact not_mem_contents hnew _ _ hother

end Directory

/-! ## Below a path -/

namespace FileSystem

variable {fs : FileSystem} {p : Path} {rel : List String} {s : Standing}

/-- What stands where names lead from the place to which a path leads. -/
def standingBelow? (fs : FileSystem) (p : Path) (rel : List String) : Option Standing :=
  match fs.resolve p with
  | .ok place => fs.standing? (place ++ rel)
  | .error _ => none

theorem standingBelow?_nil (fs : FileSystem) (p : Path) :
    fs.standingBelow? p [] = fs.standingAt? p := by
  simp only [standingBelow?, List.append_nil]
  rfl

theorem plain_of_standingBelow? (hs : fs.standingBelow? p rel = some s) :
    ∀ name ∈ rel, Path.Plain name := by
  rw [standingBelow?] at hs
  split at hs
  · rename_i place _
    obtain ⟨entry, hentry, -⟩ := Option.map_eq_some_iff.mp hs
    intro name hname
    exact (fs.isTree.at? hentry).1 name (List.mem_append_right place hname)
  · cases hs

/-- A walk visits a directory and all that stands below it, each of it once, and nothing else. -/
def VisitsEach (fs : FileSystem) (p : Path) (visits : List (Except OsError Visited)) : Prop :=
  ∃ found : List (List String × Standing), found.Nodup ∧
    (∀ rel s, (rel, s) ∈ found ↔ fs.standingBelow? p rel = some s) ∧
    visits = found.map fun entry => .ok ⟨p.below entry.1, entry.2.kind⟩

/-- The walk along all entries visits each of them. -/
theorem visitsEach_walk (hp : fs.standingAt? p = some .folder) : VisitsEach fs p (fs.walk p) := by
  obtain ⟨place, hplace, hfolder⟩ := (standingAt?_eq_some_iff fs p _).mp hp
  obtain ⟨inside, hinside⟩ := (standing?_eq_folder_iff fs place).mp hfolder
  have hentry : fs.entry p = .ok (.folder inside) :=
    (entry_eq_ok_iff fs p _).mpr ⟨place, hplace, hinside⟩
  have hwellFormed : inside.WellFormed := (fs.isTree.at? hinside).2.wellFormed
  refine ⟨([], .folder) :: inside.contents, List.nodup_cons.mpr
    ⟨inside.nil_not_mem_contents _, Directory.nodup_contents hwellFormed⟩, fun rel s => ?_, ?_⟩
  · have hbelow : fs.standingBelow? p rel = inside.standing? rel := by
      rw [standingBelow?, hplace]
      exact Directory.standing?_append hinside rel
    rw [List.mem_cons, Directory.mem_contents_iff hwellFormed, hbelow]
    by_cases hrel : rel = []
    · simp [hrel, Directory.standing?, Directory.at?, Entry.standing, eq_comm]
    · simp [hrel]
  · rw [walk, hentry]
    show (⟨p, .folder⟩ :: inside.visits p).map Except.ok = _
    rw [Directory.visits_eq, List.map_cons, List.map_cons, List.map_map]
    rfl

end FileSystem

end Namebridge
