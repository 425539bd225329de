import Namebridge.Host.FileSystem
import Namebridge.Proofs.Cut
import Namebridge.Proofs.Directory
import Namebridge.Proofs.Traversal

/-!
# What stands where a path leads

What a program can tell of a file system is what stands where a path leads: a file with its content,
a directory, or nothing. Each operation changes that at a single place, if at all (`Puts`), and
nothing disappears (`Grows`), so that a path which leads somewhere leads there ever after. Making a
directory that is there, or giving a file the content that it has, changes nothing.
-/

namespace Namebridge

/-- What reading gives. -/
def Standing.contents : Standing → Except OsError Bytes
  | .file content => .ok content
  | .folder => .error .isADirectory

namespace FileSystem

variable {fs fs' fs'' : FileSystem} {p : Path} {s : Standing} {place next : List String}
  {names : List String} {name : String} {content : Bytes}

/-- What stands at a place. -/
def standing? (fs : FileSystem) (place : List String) : Option Standing := fs.root.standing? place

/-- What stands where a path leads. -/
def standingAt? (fs : FileSystem) (p : Path) : Option Standing :=
  match fs.resolve p with
  | .ok place => fs.standing? place
  | .error _ => none

theorem standingAt?_eq_some_iff (fs : FileSystem) (p : Path) (s : Standing) :
    fs.standingAt? p = some s ↔
      ∃ place, fs.resolve p = .ok place ∧ fs.standing? place = some s := by
  rw [standingAt?]
  cases fs.resolve p <;> simp

theorem standing?_eq_folder_iff (fs : FileSystem) (place : List String) :
    fs.standing? place = some .folder ↔ ∃ inside, fs.root.at? place = some (.folder inside) :=
  Entry.map_standing_eq_folder_iff _

theorem entry_eq_ok_iff (fs : FileSystem) (p : Path) (entry : Entry) :
    fs.entry p = .ok entry ↔
      ∃ place, fs.resolve p = .ok place ∧ fs.root.at? place = some entry := by
  rw [FileSystem.entry, Traversal.bind_eq_ok_iff]
  constructor
  · intro hparts
    obtain ⟨place, hplace, h⟩ := hparts
    cases hentry : fs.root.at? place with
    | none =>
        rw [hentry] at h
        cases h
    | some found =>
        rw [hentry] at h
        cases h
        exact ⟨place, hplace, hentry⟩
  · intro hparts
    obtain ⟨place, hplace, hentry⟩ := hparts
    refine ⟨place, hplace, ?_⟩
    rw [hentry]
    rfl

theorem standingAt?_eq_some_iff_entry (fs : FileSystem) (p : Path) (s : Standing) :
    fs.standingAt? p = some s ↔ ∃ entry, fs.entry p = .ok entry ∧ entry.standing = s := by
  simp only [standingAt?_eq_some_iff, entry_eq_ok_iff, standing?, Directory.standing?,
    Option.map_eq_some_iff]
  constructor
  · intro hparts
    obtain ⟨place, hplace, entry, hentry, hs⟩ := hparts
    exact ⟨entry, ⟨place, hplace, hentry⟩, hs⟩
  · intro hparts
    obtain ⟨entry, ⟨place, hplace, hentry⟩, hs⟩ := hparts
    exact ⟨place, hplace, entry, hentry, hs⟩

theorem pathExists_iff (fs : FileSystem) (p : Path) :
    fs.pathExists p = true ↔ ∃ s, fs.standingAt? p = some s := by
  simp only [standingAt?_eq_some_iff_entry, pathExists]
  cases hentry : fs.entry p with
  | error e => simp [Except.toOption]
  | ok entry => simp [Except.toOption]

theorem pathExists_eq_false_iff (fs : FileSystem) (p : Path) :
    fs.pathExists p = false ↔ fs.standingAt? p = none := by
  rw [← Bool.not_eq_true, pathExists_iff, ← Option.isSome_iff_exists, Option.not_isSome_iff_eq_none]

theorem isDirectory_iff (fs : FileSystem) (p : Path) :
    fs.isDirectory p = true ↔ fs.standingAt? p = some .folder := by
  rw [standingAt?_eq_some_iff_entry, isDirectory]
  cases hentry : fs.entry p with
  | error e => simp
  | ok entry => cases entry <;> simp [Entry.standing]

/-- Opening gives what stands there. -/
theorem openFile_eq_ok_iff (fs : FileSystem) (p : Path) (contents : Except OsError Bytes) :
    fs.openFile p = .ok contents ↔ ∃ s, fs.standingAt? p = some s ∧ s.contents = contents := by
  simp only [standingAt?_eq_some_iff_entry, openFile, Traversal.bind_eq_ok_iff]
  constructor
  · intro hparts
    obtain ⟨entry, hentry, h⟩ := hparts
    cases entry with
    | file content =>
        cases h
        exact ⟨_, ⟨_, hentry, rfl⟩, rfl⟩
    | folder inside =>
        cases h
        exact ⟨_, ⟨_, hentry, rfl⟩, rfl⟩
  · intro hparts
    obtain ⟨_, ⟨entry, hentry, rfl⟩, rfl⟩ := hparts
    refine ⟨entry, hentry, ?_⟩
    cases entry <;> rfl

/-! ## Changes -/

/-- All that stands stays as it is. -/
structure Keeps (fs fs' : FileSystem) : Prop where
  start : fs'.start = fs.start
  standing : ∀ place s, fs.standing? place = some s → fs'.standing? place = some s

/-- All directories stay, and where a file stands there is still something. -/
structure Grows (fs fs' : FileSystem) : Prop where
  start : fs'.start = fs.start
  folder : ∀ place, fs.standing? place = some .folder → fs'.standing? place = some .folder
  stays : ∀ place s, fs.standing? place = some s → ∃ s', fs'.standing? place = some s'

/-- Something is put at a place, and nothing else changes. -/
structure Puts (fs fs' : FileSystem) (place : List String) (s : Standing) : Prop where
  start : fs'.start = fs.start
  standing : ∀ other, fs'.standing? other = if other = place then some s else fs.standing? other

theorem Keeps.refl (fs : FileSystem) : Keeps fs fs := ⟨rfl, fun _ _ h => h⟩

theorem Keeps.trans (h : Keeps fs fs') (h' : Keeps fs' fs'') : Keeps fs fs'' :=
  ⟨h'.start.trans h.start, fun place s hs => h'.standing place s (h.standing place s hs)⟩

theorem Keeps.grows (h : Keeps fs fs') : Grows fs fs' :=
  ⟨h.start, fun place => h.standing place .folder, fun place s hs => ⟨s, h.standing place s hs⟩⟩

theorem Grows.trans (h : Grows fs fs') (h' : Grows fs' fs'') : Grows fs fs'' := by
  refine ⟨h'.start.trans h.start, fun place hs => h'.folder place (h.folder place hs), ?_⟩
  intro place s hs
  obtain ⟨s', hs'⟩ := h.stays place s hs
  exact h'.stays place s' hs'

theorem Puts.self (h : Puts fs fs' place s) : fs'.standing? place = some s := by
  rw [h.standing, if_pos rfl]

theorem Puts.of_ne (h : Puts fs fs' place s) {other : List String} (hne : other ≠ place) :
    fs'.standing? other = fs.standing? other := by
  rw [h.standing, if_neg hne]

theorem Puts.keeps (h : Puts fs fs' place s) (hnew : fs.standing? place = none) : Keeps fs fs' := by
  refine ⟨h.start, fun other t ht => ?_⟩
  rw [h.of_ne, ht]
  rintro rfl
  rw [hnew] at ht
  cases ht

theorem Puts.grows (h : Puts fs fs' place s) (hold : fs.standing? place ≠ some .folder) :
    Grows fs fs' := by
  refine ⟨h.start, fun other hother => ?_, fun other t ht => ?_⟩
  · rw [h.of_ne, hother]
    rintro rfl
    exact hold hother
  · by_cases hother : other = place
    · subst hother
      exact ⟨s, h.self⟩
    · exact ⟨t, by rw [h.of_ne hother, ht]⟩

/-! ## Following paths -/

theorem follow_eq_ok_iff (fs : FileSystem) (place next : List String)
    (hname : Path.Descends name) : fs.follow place name = .ok next ↔
      fs.standing? place = some .folder ∧ name.utf8ByteSize ≤ maximumName ∧
        next = place ++ [name] ∧ ∃ s, fs.standing? next = some s := by
  obtain ⟨hblank, hup⟩ := hname
  rw [standing?_eq_folder_iff, follow]
  cases hplace : fs.root.at? place with
  | none => simp
  | some entry =>
      cases entry with
      | file content => simp
      | folder inside =>
          have hbelow : fs.standing? (place ++ [name])
              = (inside.child? name).map Entry.standing := by
            rw [standing?, Directory.standing?, Directory.child?_eq_at? hplace]
          simp only [hblank, Bool.false_eq_true, if_false, if_neg hup]
          constructor
          · intro h
            split at h
            · cases h
            · rename_i hlong
              split at h
              · rename_i child hchild
                cases h
                exact ⟨⟨inside, rfl⟩, not_lt.mp hlong, rfl, child.standing, by simp [hbelow, hchild]⟩
              · cases h
          · intro hparts
            obtain ⟨-, hfits, rfl, s, hs⟩ := hparts
            rw [hbelow, Option.map_eq_some_iff] at hs
            obtain ⟨child, hchild, -⟩ := hs
            rw [if_neg (not_lt.mpr hfits), hchild]

/-- A name that changes nothing, or that leads up, can be followed from any directory. -/
theorem follow_eq_ok_iff_of_not_descends (fs : FileSystem) (place next : List String)
    (hname : ¬ Path.Descends name) : fs.follow place name = .ok next ↔
      fs.standing? place = some .folder ∧
        next = if Path.isBlank name then place else place.dropLast := by
  rw [standing?_eq_folder_iff, follow]
  cases fs.root.at? place with
  | none => simp
  | some entry =>
      cases entry with
      | file content => simp
      | folder inside =>
          have hresult : (if Path.isBlank name then place else place.dropLast) = next
              ↔ next = if Path.isBlank name then place else place.dropLast := eq_comm
          by_cases hblank : Path.isBlank name = true
          · simpa [hblank] using hresult
          · have hup : name = ".." := by
              by_contra hup
              exact hname ⟨by simpa using hblank, hup⟩
            simpa [hblank, ← hup] using hresult

theorem standing?_of_not_descends (hname : ¬ Path.Descends name)
    (h : fs.follow place name = .ok next) : fs.standing? next = some .folder := by
  obtain ⟨hfolder, rfl⟩ := (follow_eq_ok_iff_of_not_descends _ _ _ hname).mp h
  split
  · exact hfolder
  · obtain ⟨inside, hinside⟩ := (standing?_eq_folder_iff _ _).mp hfolder
    exact (standing?_eq_folder_iff _ _).mpr (Directory.exists_folder_dropLast hinside)

theorem follow_of_grows (h : Grows fs fs') (hfollow : fs.follow place name = .ok next) :
    fs'.follow place name = .ok next := by
  by_cases hname : Path.Descends name
  · obtain ⟨hfolder, hfits, hnext, s, hs⟩ := (follow_eq_ok_iff _ _ _ hname).mp hfollow
    exact (follow_eq_ok_iff _ _ _ hname).mpr ⟨h.folder _ hfolder, hfits, hnext, h.stays _ s hs⟩
  · obtain ⟨hfolder, hnext⟩ := (follow_eq_ok_iff_of_not_descends _ _ _ hname).mp hfollow
    exact (follow_eq_ok_iff_of_not_descends _ _ _ hname).mpr ⟨h.folder _ hfolder, hnext⟩

theorem foldlM_follow_of_grows (h : Grows fs fs')
    (hfollow : names.foldlM fs.follow place = .ok next) :
    names.foldlM fs'.follow place = .ok next := by
  induction names generalizing place with
  | nil => exact hfollow
  | cons first rest ih =>
      rw [List.foldlM_cons, Traversal.bind_eq_ok_iff] at hfollow ⊢
      obtain ⟨middle, hfirst, hrest⟩ := hfollow
      exact ⟨middle, follow_of_grows h hfirst, ih hrest⟩

theorem startOf_of_grows (h : Grows fs fs') (p : Path) : fs'.startOf p = fs.startOf p := by
  rw [startOf, startOf, h.start]

/-- A path that leads somewhere leads there ever after. -/
theorem resolve_of_grows (h : Grows fs fs') (hresolve : fs.resolve p = .ok place) :
    fs'.resolve p = .ok place := by
  rw [resolve, Traversal.bind_eq_ok_iff] at hresolve ⊢
  obtain ⟨names, hnames, hfollow⟩ := hresolve
  refine ⟨names, hnames, ?_⟩
  rw [startOf_of_grows h]
  exact foldlM_follow_of_grows h hfollow

theorem Keeps.standingAt? (h : Keeps fs fs') (hs : fs.standingAt? p = some s) :
    fs'.standingAt? p = some s := by
  rw [standingAt?_eq_some_iff] at hs ⊢
  obtain ⟨place, hplace, hs⟩ := hs
  exact ⟨place, resolve_of_grows h.grows hplace, h.standing place s hs⟩

/-! ## Putting something where a path leads -/

section

variable {allow : Option Entry → Except OsError Unit}

theorem putAfter_eq_ok_iff (fs fs' : FileSystem) (p : Path) (names : List String)
    (hname : Path.Plain name) (new : Standing) (allow : Option Entry → Except OsError Unit) :
    fs.putAfter p names hname new allow = .ok fs' ↔ ∃ place inside,
      names.foldlM fs.follow (fs.startOf p) = .ok place ∧
      fs.root.at? place = some (.folder inside) ∧ name.utf8ByteSize ≤ maximumName ∧
      allow (inside.child? name) = .ok () ∧
      fs' = { fs with
        root := fs.root.putAt name new.bare place
        isTree := fs.isTree.putAt hname (Directory.isTree_bare new) place } := by
  rw [putAfter, Traversal.bind_eq_ok_iff]
  constructor
  · intro hparts
    obtain ⟨place, hplace, h⟩ := hparts
    split at h
    · rename_i inside hinside
      split at h
      · cases h
      · rename_i hlong
        obtain ⟨_, hallow, h⟩ := (Traversal.bind_eq_ok_iff _ _ _).mp h
        cases h
        exact ⟨place, inside, hplace, hinside, not_lt.mp hlong, hallow, rfl⟩
    · cases h
    · cases h
  · intro hparts
    obtain ⟨place, inside, hplace, hinside, hfits, hallow, rfl⟩ := hparts
    refine ⟨place, hplace, ?_⟩
    rw [hinside]
    simp only [if_neg (not_lt.mpr hfits), hallow]
    rfl

/-- What is put somewhere stands there afterwards. -/
theorem puts_of_putAfter (hname : Path.Plain name)
    (hallow : ∀ old, allow old = .ok () → ∀ f, old ≠ some (.folder f))
    (h : fs.putAfter p names hname s allow = .ok fs') :
    ∃ place old, (names ++ [name]).foldlM fs'.follow (fs'.startOf p) = .ok place ∧
      allow old = .ok () ∧ fs.standing? place = old.map Entry.standing ∧ Puts fs fs' place s := by
  obtain ⟨parent, inside, hparent, hinside, hfits, hallowed, rfl⟩ :=
    (putAfter_eq_ok_iff _ _ _ _ _ _ _).mp h
  have hold := hallow _ hallowed
  have hbefore : fs.standing? (parent ++ [name]) = (inside.child? name).map Entry.standing := by
    rw [standing?, Directory.standing?, Directory.child?_eq_at? hinside]
  have hputs : Puts fs { fs with
      root := fs.root.putAt name s.bare parent
      isTree := fs.isTree.putAt hname (Directory.isTree_bare s) parent } (parent ++ [name]) s :=
    ⟨rfl, Directory.standing?_putAt hinside hold s⟩
  refine ⟨parent ++ [name], _, ?_, hallowed, hbefore, hputs⟩
  have hgrows := hputs.grows <| by
    rw [hbefore, Ne, Entry.map_standing_eq_folder_iff]
    rintro ⟨f, hf⟩
    exact hold f hf
  rw [Traversal.foldlM_concat_eq_ok_iff]
  refine ⟨parent, foldlM_follow_of_grows hgrows (startOf_of_grows hgrows p ▸ hparent), ?_⟩
  have hfolder := hgrows.folder parent ((standing?_eq_folder_iff _ _).mpr ⟨inside, hinside⟩)
  exact (follow_eq_ok_iff _ _ _ hname.1).mpr ⟨hfolder, hfits, rfl, _, hputs.self⟩

/-- What would be put where a path leads, if it leads anywhere. -/
theorem putAfter_of_follow (new : Standing) (allow : Option Entry → Except OsError Unit)
    (hname : Path.Plain name) (h : (names ++ [name]).foldlM fs.follow (fs.startOf p) = .ok next) :
    ∃ parent inside child, next = parent ++ [name] ∧ fs.root.at? parent = some (.folder inside) ∧
      inside.child? name = some child ∧
      fs.putAfter p names hname new allow = (allow (some child)).map fun _ => { fs with
        root := fs.root.putAt name new.bare parent
        isTree := fs.isTree.putAt hname (Directory.isTree_bare new) parent } := by
  obtain ⟨parent, hparent, h⟩ := (Traversal.foldlM_concat_eq_ok_iff _ _ _ _ _).mp h
  obtain ⟨hfolder, hfits, rfl, s, hs⟩ := (follow_eq_ok_iff _ _ _ hname.1).mp h
  obtain ⟨inside, hinside⟩ := (standing?_eq_folder_iff _ _).mp hfolder
  obtain ⟨child, hchild, -⟩ := Option.map_eq_some_iff.mp hs
  rw [← Directory.child?_eq_at? hinside] at hchild
  refine ⟨parent, inside, child, rfl, hinside, hchild, ?_⟩
  simp only [putAfter, hparent, bind, Except.bind, hinside, if_neg (not_lt.mpr hfits), hchild]
  cases allow (some child) <;> rfl

end

/-! ## Writing a file -/

theorem resolve_eq_ok_iff (fs : FileSystem) (p : Path) (place : List String) :
    fs.resolve p = .ok place ↔
      ∃ names, namesOf p = .ok names ∧ names.foldlM fs.follow (fs.startOf p) = .ok place :=
  Traversal.bind_eq_ok_iff _ _ _

theorem eq_of_namesOf (h : namesOf p = .ok names) : names = Text.fields '/' p.text := by
  rw [namesOf] at h
  split at h
  · cases h
  · split at h
    · cases h
    · split at h <;> cases h
      rfl

theorem ne_nil_of_namesOf (h : namesOf p = .ok names) : names ≠ [] := by
  rw [eq_of_namesOf h]
  exact (Text.joins_fields '/' p.text).ne_nil

/-- A name in a path is plain if it leads to something. -/
theorem plain_of_descends (h : namesOf p = .ok names) (hmem : name ∈ names)
    (hname : Path.Descends name) : Path.Plain name :=
  ⟨hname, (Text.joins_fields '/' p.text).not_mem name (eq_of_namesOf h ▸ hmem)⟩

theorem fileOver_eq_ok {old : Option Entry} (h : fileOver old = .ok ()) (f : Directory) :
    old ≠ some (.folder f) := by
  rintro rfl
  cases h

theorem writeFile_of_names (fs : FileSystem) (content : Bytes)
    (hnames : namesOf p = .ok (names ++ [name])) (hname : Path.Plain name) :
    fs.writeFile p content = fs.putAfter p names hname (.file content) fileOver := by
  rw [writeFile, hnames]
  simp only [bind, Except.bind, List.getLast?_concat, List.dropLast_concat, dif_pos hname]

theorem exists_names_of_writeFile (h : fs.writeFile p content = .ok fs') :
    ∃ names name, namesOf p = .ok (names ++ [name]) ∧ Path.Plain name := by
  rw [writeFile, Traversal.bind_eq_ok_iff] at h
  obtain ⟨names, hnames, h⟩ := h
  split at h
  · cases h
  · rename_i name hlast
    split at h
    · rename_i hname
      obtain ⟨init, rfl⟩ := List.getLast?_eq_some_iff.mp hlast
      exact ⟨init, name, hnames, hname⟩
    · obtain ⟨_, -, h⟩ := (Traversal.bind_eq_ok_iff _ _ _).mp h
      cases h

/-- What a successful write changes. -/
theorem puts_of_writeFile (h : fs.writeFile p content = .ok fs') :
    ∃ place, fs'.resolve p = .ok place ∧ fs.standing? place ≠ some .folder ∧
      Puts fs fs' place (.file content) := by
  obtain ⟨names, name, hnames, hname⟩ := exists_names_of_writeFile h
  rw [writeFile_of_names fs content hnames hname] at h
  obtain ⟨place, old, hplace, hover, hbefore, hputs⟩ :=
    puts_of_putAfter hname (fun _ => fileOver_eq_ok) h
  refine ⟨place, (resolve_eq_ok_iff _ _ _).mpr ⟨_, hnames, hplace⟩, ?_, hputs⟩
  rw [hbefore, Ne, Entry.map_standing_eq_folder_iff]
  rintro ⟨f, hf⟩
  exact fileOver_eq_ok hover f hf

theorem standingAt?_writeFile (h : fs.writeFile p content = .ok fs') :
    fs'.standingAt? p = some (.file content) := by
  obtain ⟨place, hplace, -, hputs⟩ := puts_of_writeFile h
  exact (standingAt?_eq_some_iff _ _ _).mpr ⟨place, hplace, hputs.self⟩

/-- Giving a file the content that it has changes nothing. -/
theorem writeFile_eq_self (h : fs.standingAt? p = some (.file content)) :
    fs.writeFile p content = .ok fs := by
  obtain ⟨place, hresolve, hstanding⟩ := (standingAt?_eq_some_iff _ _ _).mp h
  obtain ⟨names, hnames, hplace⟩ := (resolve_eq_ok_iff _ _ _).mp hresolve
  obtain ⟨init, name, rfl⟩ : ∃ init name, names = init ++ [name] :=
    ⟨_, _, (List.dropLast_append_getLast (ne_nil_of_namesOf hnames)).symm⟩
  have hname : Path.Plain name := by
    refine plain_of_descends hnames (by simp) ?_
    by_contra hname
    obtain ⟨parent, -, hlast⟩ := (Traversal.foldlM_concat_eq_ok_iff _ _ _ _ _).mp hplace
    rw [standing?_of_not_descends hname hlast] at hstanding
    cases hstanding
  have hentry := (Entry.map_standing_eq_file_iff _ _).mp hstanding
  obtain ⟨parent, inside, child, rfl, hinside, hchild, hput⟩ :=
    putAfter_of_follow (.file content) fileOver hname hplace
  obtain rfl : child = .file content := by
    rw [Directory.child?_eq_at? hinside, hentry] at hchild
    cases hchild
    rfl
  rw [writeFile_of_names fs content hnames hname, hput]
  have hsame : fs.root.putAt name (Standing.file content).bare parent = fs.root :=
    Directory.putAt_eq_self hentry
  simp [fileOver, Except.map, hsame]

/-! ## Making a directory -/

/-- The names of a path without empty ones at the end. -/
def trimmed (names : List String) : List String := (names.reverse.dropWhile (· = "")).reverse

theorem exists_trimmed_append (names : List String) :
    ∃ blanks, names = trimmed names ++ blanks ∧ ∀ b ∈ blanks, b = "" := by
  refine ⟨(names.reverse.takeWhile (· = "")).reverse, ?_, ?_⟩
  · rw [trimmed, ← List.reverse_append, List.takeWhile_append_dropWhile, List.reverse_reverse]
  · intro b hb
    have hall := List.all_takeWhile (p := fun b : String => decide (b = "")) (l := names.reverse)
    simpa using List.all_eq_true.mp hall b (List.mem_reverse.mp hb)

theorem foldlM_follow_blanks {blanks : List String} (hplace : fs.standing? place = some .folder)
    (h : ∀ b ∈ blanks, b = "") : blanks.foldlM fs.follow place = .ok place := by
  induction blanks with
  | nil => rfl
  | cons b rest ih =>
      obtain rfl : b = "" := h b (by simp)
      obtain ⟨inside, hinside⟩ := (standing?_eq_folder_iff _ _).mp hplace
      have hfollow : fs.follow place "" = .ok place := by
        rw [follow, hinside]
        rfl
      rw [List.foldlM_cons, hfollow]
      exact ih fun b hb => h b (by simp [hb])

/-- What making a directory does, by the last name that is not empty. -/
inductive Making (fs : FileSystem) (p : Path) (names : List String) : Prop where
  | descending (next : List String) (name : String) (htrimmed : trimmed names = next ++ [name])
      (hname : Path.Plain name)
      (h : fs.createDirectory p = fs.putAfter p next hname .folder folderOver)
  | standing (h : fs.createDirectory p = .error .alreadyExists)
  | following (h : fs.createDirectory p = fs.resolve p >>= fun _ => .error .alreadyExists)

theorem making (fs : FileSystem) (hnames : namesOf p = .ok names) : Making fs p names := by
  have hmake : fs.createDirectory p = fs.createDirectory p := rfl
  conv at hmake =>
    rhs
    rw [createDirectory, hnames]
  simp only [bind, Except.bind] at hmake
  split at hmake
  · exact .standing hmake
  · rename_i name hlast
    split at hmake
    · rename_i hname
      obtain ⟨next, hnext⟩ := List.getLast?_eq_some_iff.mp hlast
      simp only [hnext, List.dropLast_concat] at hmake
      exact .descending next name hnext hname hmake
    · exact .following hmake

/-- What a successful making of a directory changes. -/
theorem puts_of_createDirectory (h : fs.createDirectory p = .ok fs') :
    ∃ place, fs'.resolve p = .ok place ∧ fs.standing? place = none ∧ Puts fs fs' place .folder := by
  obtain ⟨names, hnames, -⟩ := (Traversal.bind_eq_ok_iff _ _ _).mp h
  cases making fs hnames with
  | standing hmake =>
      rw [hmake] at h
      cases h
  | following hmake =>
      rw [hmake, Traversal.bind_eq_ok_iff] at h
      obtain ⟨_, -, h⟩ := h
      cases h
  | descending next name htrimmed hname hmake =>
      have hallow : ∀ old, folderOver old = .ok () → old = none := by
        intro old hold
        cases old <;> cases hold
        rfl
      rw [hmake] at h
      obtain ⟨place, old, hplace, hover, hbefore, hputs⟩ :=
        puts_of_putAfter hname (fun old hold f => by simp [hallow old hold]) h
      obtain rfl := hallow old hover
      refine ⟨place, (resolve_eq_ok_iff _ _ _).mpr ⟨names, hnames, ?_⟩, hbefore, hputs⟩
      obtain ⟨blanks, hblanks, hempty⟩ := exists_trimmed_append names
      rw [hblanks, htrimmed, List.foldlM_append, hplace]
      exact foldlM_follow_blanks hputs.self hempty

theorem keeps_createDirectory (h : fs.createDirectory p = .ok fs') : Keeps fs fs' := by
  obtain ⟨place, -, hnew, hputs⟩ := puts_of_createDirectory h
  exact hputs.keeps hnew

theorem standingAt?_createDirectory (h : fs.createDirectory p = .ok fs') :
    fs'.standingAt? p = some .folder := by
  obtain ⟨place, hplace, -, hputs⟩ := puts_of_createDirectory h
  exact (standingAt?_eq_some_iff _ _ _).mpr ⟨place, hplace, hputs.self⟩

/-- No directory is made where a path leads already. -/
theorem createDirectory_of_resolve (h : fs.resolve p = .ok place) :
    fs.createDirectory p = .error .alreadyExists := by
  obtain ⟨names, hnames, hplace⟩ := (resolve_eq_ok_iff _ _ _).mp h
  cases making fs hnames with
  | standing hmake => exact hmake
  | following hmake =>
      rw [hmake, h]
      rfl
  | descending next name htrimmed hname hmake =>
      obtain ⟨blanks, hblanks, -⟩ := exists_trimmed_append names
      rw [hblanks, htrimmed, List.foldlM_append, Traversal.bind_eq_ok_iff] at hplace
      obtain ⟨_, hplace, -⟩ := hplace
      obtain ⟨parent, inside, child, -, -, -, hput⟩ :=
        putAfter_of_follow .folder folderOver hname hplace
      rw [hmake, hput]
      rfl

/-- What comes of making a directory and all that lead to it. -/
structure Makes (fs : FileSystem) (p : Path) (result : Except OsError Unit × FileSystem) : Prop where
  keeps : Keeps fs result.2
  folder : p.text ≠ "" → result.1 = .ok () → result.2.standingAt? p = some .folder

theorem makes_createDirectory (h : fs.createDirectory p = .ok fs') : Makes fs p (.ok (), fs') :=
  ⟨keeps_createDirectory h, fun _ _ => standingAt?_createDirectory h⟩

theorem makes_isDirectory (fs : FileSystem) (p : Path) (error : OsError) :
    Makes fs p (if fs.isDirectory p then .ok () else .error error, fs) := by
  refine ⟨.refl fs, fun _ hok => ?_⟩
  split at hok
  · rename_i hfolder
    exact (isDirectory_iff fs p).mp hfolder
  · cases hok

theorem makes_error (h : Keeps fs fs') (p : Path) (error : OsError) :
    Makes fs p (.error error, fs') := ⟨h, fun _ hok => nomatch hok⟩

theorem Makes.trans {result : Except OsError Unit × FileSystem} (h : Keeps fs fs')
    (hmakes : Makes fs' p result) : Makes fs p result :=
  ⟨h.trans hmakes.keeps, hmakes.folder⟩

theorem makes_createToDepth (depth : Nat) (fs : FileSystem) (p : Path) :
    Makes fs p (createToDepth depth fs p) := by
  induction depth generalizing fs p with
  | zero =>
      unfold createToDepth
      split
      · rename_i hempty
        exact ⟨.refl fs, fun hp _ => absurd hempty hp⟩
      · split
        · rename_i made hmade
          exact makes_createDirectory hmade
        · split
          · exact makes_isDirectory fs p _
          · exact makes_error (.refl fs) p _
  | succ depth ih =>
      unfold createToDepth
      split
      · rename_i hempty
        exact ⟨.refl fs, fun hp _ => absurd hempty hp⟩
      · split
        · rename_i made hmade
          exact makes_createDirectory hmade
        · split
          · exact makes_isDirectory fs p _
          · cases p.parent? with
            | none => exact makes_error (.refl fs) p _
            | some parent =>
                have habove := (ih fs parent).keeps
                cases hrest : createToDepth depth fs parent with
                | mk result between =>
                    rw [hrest] at habove
                    cases result with
                    | error error =>
                        simp only [hrest]
                        exact makes_error habove p error
                    | ok _ =>
                        simp only [hrest]
                        refine .trans habove ?_
                        show Makes between p _
                        split
                        · rename_i made hmade
                          exact makes_createDirectory hmade
                        · exact makes_isDirectory between p _

/-- Making directories loses nothing. -/
theorem keeps_createDirectories (fs : FileSystem) (p : Path) :
    Keeps fs (fs.createDirectories p).2 := (makes_createToDepth _ _ _).keeps

theorem standingAt?_createDirectories (hp : p.text ≠ "")
    (h : (fs.createDirectories p).1 = .ok ()) :
    (fs.createDirectories p).2.standingAt? p = some .folder :=
  (makes_createToDepth _ _ _).folder hp h

/-- Making a directory that is there changes nothing. -/
theorem createDirectories_eq_self (h : fs.standingAt? p = some .folder) :
    fs.createDirectories p = (.ok (), fs) := by
  obtain ⟨place, hplace, -⟩ := (standingAt?_eq_some_iff _ _ _).mp h
  unfold createDirectories createToDepth
  rw [createDirectory_of_resolve hplace]
  simp [(isDirectory_iff fs p).mpr h]

/-- A path that leads to a directory leads to one ever after. -/
theorem Grows.standingAt?_folder (h : Grows fs fs') (hp : fs.standingAt? p = some .folder) :
    fs'.standingAt? p = some .folder := by
  rw [standingAt?_eq_some_iff] at hp ⊢
  obtain ⟨place, hplace, hfolder⟩ := hp
  exact ⟨place, resolve_of_grows h hplace, h.folder place hfolder⟩

theorem grows_writeFile (h : fs.writeFile p content = .ok fs') : Grows fs fs' := by
  obtain ⟨place, -, hold, hputs⟩ := puts_of_writeFile h
  exact hputs.grows hold

end FileSystem

end Namebridge
