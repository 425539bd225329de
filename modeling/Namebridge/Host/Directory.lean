import Namebridge.Host.Path
import Namebridge.Text.Utf8

/-!
# Directories

A directory as the files and directories in it, in the order in which they were made. Places in a
directory are given by the names that lead to them, without any `.` or `..`.

In a file system no directory has two entries of one name, and each name leads one step down
(`Directory.IsTree`). That stays so whatever is put where (`Directory.IsTree.putAt`).
-/

namespace Namebridge

/-- The entries of a directory, one after the other. -/
inductive Directory where
  | empty
  | file (name : String) (content : Bytes) (rest : Directory)
  | folder (name : String) (inside : Directory) (rest : Directory)
deriving DecidableEq, Inhabited

/-- What there is at a place. -/
inductive Entry where
  | file (content : Bytes)
  | folder (inside : Directory)
deriving DecidableEq

/-- What stands at a place, without what is inside of it. -/
inductive Standing where
  | file (content : Bytes)
  | folder
deriving DecidableEq

/-- The entry with nothing inside of it. -/
def Standing.bare : Standing → Entry
  | file content => .file content
  | folder => .folder .empty

namespace Directory

/-- The entry of that name. -/
def child? (name : String) : Directory → Option Entry
  | empty => none
  | file n content rest => if n = name then some (.file content) else rest.child? name
  | folder n inside rest => if n = name then some (.folder inside) else rest.child? name

/-- The entry at a place, which is the directory itself if no name leads to it. -/
def at? (d : Directory) : List String → Option Entry
  | [] => some (.folder d)
  | name :: later =>
      match d.child? name with
      | none => none
      | some (.file content) => if later = [] then some (.file content) else none
      | some (.folder inside) => inside.at? later

/-- Puts an entry under a name, in the place of the one that has the name or else at the end. -/
def put (name : String) (entry : Entry) : Directory → Directory
  | empty =>
      match entry with
      | .file content => file name content empty
      | .folder inside => folder name inside empty
  | file n content rest =>
      if n = name then
        match entry with
        | .file content => file name content rest
        | .folder inside => folder name inside rest
      else file n content (rest.put name entry)
  | folder n inside rest =>
      if n = name then
        match entry with
        | .file content => file name content rest
        | .folder inside => folder name inside rest
      else folder n inside (rest.put name entry)

/-- Puts an entry at a place in a directory that is there. Nothing is put where none is. -/
def putAt (d : Directory) (name : String) (entry : Entry) : (place : List String) → Directory
  | [] => d.put name entry
  | first :: later =>
      match d.child? first with
      | some (.folder inside) => d.put first (.folder (inside.putAt name entry later))
      | _ => d

/-- The names in a directory. -/
def names : Directory → List String
  | empty => []
  | file name _ rest => name :: rest.names
  | folder name _ rest => name :: rest.names

/-- No directory has two entries of one name. -/
def WellFormed : Directory → Prop
  | empty => True
  | file name _ rest => name ∉ rest.names ∧ rest.WellFormed
  | folder name inside rest => name ∉ rest.names ∧ inside.WellFormed ∧ rest.WellFormed

/-! ## Laws -/

theorem child?_put (d : Directory) (name other : String) (entry : Entry) :
    (d.put name entry).child? other = if name = other then some entry else d.child? other := by
  induction d with
  | empty => cases entry <;> simp [put, child?]
  | file n content rest ih =>
      by_cases h : n = name
      · cases entry <;> by_cases h' : name = other <;> simp_all [put, child?]
      · by_cases h' : n = other
        · subst h'
          have h'' : ¬ name = n := fun h'' => h h''.symm
          simp [put, child?, h, h'']
        · simp [put, child?, h, h', ih]
  | folder n inside rest _ ih =>
      by_cases h : n = name
      · cases entry <;> by_cases h' : name = other <;> simp_all [put, child?]
      · by_cases h' : n = other
        · subst h'
          have h'' : ¬ name = n := fun h'' => h h''.symm
          simp [put, child?, h, h'']
        · simp [put, child?, h, h', ih]

/-! ## Trees -/

/-- All names in a directory, and in those below it, lead one step down. -/
def PlainNames : Directory → Prop
  | empty => True
  | file name _ rest => Path.Plain name ∧ rest.PlainNames
  | folder name inside rest => Path.Plain name ∧ inside.PlainNames ∧ rest.PlainNames

/-- A directory as it can stand in a file system. -/
structure IsTree (d : Directory) : Prop where
  wellFormed : d.WellFormed
  plainNames : d.PlainNames

end Directory

/-- An entry as it can stand in a file system. -/
def Entry.IsTree : Entry → Prop
  | .file _ => True
  | .folder inside => inside.IsTree

namespace Directory

variable {d inside rest : Directory} {name : String} {entry : Entry} {content : Bytes}

theorem isTree_empty : empty.IsTree := ⟨trivial, trivial⟩

theorem isTree_file_iff (name : String) (content : Bytes) (rest : Directory) :
    (file name content rest).IsTree ↔ Path.Plain name ∧ name ∉ rest.names ∧ rest.IsTree := by
  constructor
  · rintro ⟨⟨hnew, hrest⟩, hplain, hplainRest⟩
    exact ⟨hplain, hnew, hrest, hplainRest⟩
  · rintro ⟨hplain, hnew, hrest, hplainRest⟩
    exact ⟨⟨hnew, hrest⟩, hplain, hplainRest⟩

theorem isTree_folder_iff (name : String) (inside rest : Directory) :
    (folder name inside rest).IsTree ↔
      Path.Plain name ∧ name ∉ rest.names ∧ inside.IsTree ∧ rest.IsTree := by
  constructor
  · rintro ⟨⟨hnew, hinside, hrest⟩, hplain, hplainInside, hplainRest⟩
    exact ⟨hplain, hnew, ⟨hinside, hplainInside⟩, hrest, hplainRest⟩
  · rintro ⟨hplain, hnew, hinside, hrest⟩
    exact ⟨⟨hnew, hinside.1, hrest.1⟩, hplain, hinside.2, hrest.2⟩

instance decidableIsTree : (d : Directory) → Decidable d.IsTree
  | empty => .isTrue isTree_empty
  | file name content rest =>
      have := decidableIsTree rest
      decidable_of_iff _ (isTree_file_iff name content rest).symm
  | folder name inside rest =>
      have := decidableIsTree inside
      have := decidableIsTree rest
      decidable_of_iff _ (isTree_folder_iff name inside rest).symm

theorem IsTree.child? (h : d.IsTree) (hchild : d.child? name = some entry) :
    Path.Plain name ∧ entry.IsTree := by
  induction d with
  | empty => cases hchild
  | file n content rest ih =>
      obtain ⟨hplain, -, hrest⟩ := (isTree_file_iff n content rest).mp h
      rw [Directory.child?] at hchild
      split at hchild
      · rename_i hn
        cases hchild
        exact ⟨hn ▸ hplain, trivial⟩
      · exact ih hrest hchild
  | folder n inside rest _ ih =>
      obtain ⟨hplain, -, hinside, hrest⟩ := (isTree_folder_iff n inside rest).mp h
      rw [Directory.child?] at hchild
      split at hchild
      · rename_i hn
        cases hchild
        exact ⟨hn ▸ hplain, hinside⟩
      · exact ih hrest hchild

theorem mem_names_put (d : Directory) (name other : String) (entry : Entry) :
    other ∈ (d.put name entry).names ↔ other = name ∨ other ∈ d.names := by
  induction d with
  | empty => cases entry <;> simp [put, names]
  | file n content rest ih =>
      by_cases hn : n = name
      · cases entry <;> simp [put, names, hn]
      · simp [put, names, hn, ih, or_left_comm]
  | folder n inside rest _ ih =>
      by_cases hn : n = name
      · cases entry <;> simp [put, names, hn]
      · simp [put, names, hn, ih, or_left_comm]

theorem IsTree.put (h : d.IsTree) (hname : Path.Plain name) (hentry : entry.IsTree) :
    (d.put name entry).IsTree := by
  induction d with
  | empty =>
      cases entry with
      | file content => exact (isTree_file_iff _ _ _).mpr ⟨hname, by simp [names], isTree_empty⟩
      | folder inside =>
          exact (isTree_folder_iff _ _ _).mpr ⟨hname, by simp [names], hentry, isTree_empty⟩
  | file n content rest ih =>
      obtain ⟨hplain, hnew, hrest⟩ := (isTree_file_iff n content rest).mp h
      by_cases hn : n = name
      · subst hn
        cases entry with
        | file new => simpa [Directory.put, isTree_file_iff] using ⟨hname, hnew, hrest⟩
        | folder new => simpa [Directory.put, isTree_folder_iff] using ⟨hname, hnew, hentry, hrest⟩
      · have hput : (file n content rest).put name entry = file n content (rest.put name entry) := by
          simp [Directory.put, hn]
        rw [hput, isTree_file_iff, mem_names_put]
        exact ⟨hplain, not_or.mpr ⟨hn, hnew⟩, ih hrest⟩
  | folder n inside rest _ ih =>
      obtain ⟨hplain, hnew, hinside, hrest⟩ := (isTree_folder_iff n inside rest).mp h
      by_cases hn : n = name
      · subst hn
        cases entry with
        | file new => simpa [Directory.put, isTree_file_iff] using ⟨hname, hnew, hrest⟩
        | folder new => simpa [Directory.put, isTree_folder_iff] using ⟨hname, hnew, hentry, hrest⟩
      · have hput : (folder n inside rest).put name entry
            = folder n inside (rest.put name entry) := by
          simp [Directory.put, hn]
        rw [hput, isTree_folder_iff, mem_names_put]
        exact ⟨hplain, not_or.mpr ⟨hn, hnew⟩, hinside, ih hrest⟩

theorem IsTree.putAt (h : d.IsTree) (hname : Path.Plain name) (hentry : entry.IsTree)
    (place : List String) : (d.putAt name entry place).IsTree := by
  induction place generalizing d with
  | nil => exact h.put hname hentry
  | cons first later ih =>
      rw [Directory.putAt]
      split
      · rename_i inside hchild
        obtain ⟨hplain, hinside⟩ := h.child? hchild
        exact h.put hplain (ih hinside)
      · exact h

theorem isTree_bare (s : Standing) : s.bare.IsTree := by
  cases s with
  | file content => trivial
  | folder => exact isTree_empty

end Directory

end Namebridge
