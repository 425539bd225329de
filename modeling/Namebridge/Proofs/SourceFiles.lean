import Namebridge.Proofs.Walk
import Namebridge.Proofs.Running
import Namebridge.Run.Sources

/-!
# Which source files are found

Whether a file is a source file is up to its name alone, wherever the file is: something must stand
before `.java` (`isSource_join_iff`). All such files below a directory are found, each of them once,
and nothing else is (`find_compilationUnits`). If something is missing, the first missing entry of
the classpath is named, and the directory only if there is no such entry.
-/

namespace Namebridge

/-! ## Names of files -/

namespace Path

variable {name : String}

theorem getLast?_trimNames (names : List String) :
    (trimNames names).getLast? = (names.filter Leads).getLast? := by
  rw [trimNames, List.getLast?_reverse, ← List.find?_not_eq_head?_dropWhile,
    ← List.head?_reverse, ← List.filter_reverse, List.head?_filter]
  rfl

/-- The name of a file is the last of the names that lead somewhere. -/
theorem fileName?_eq (p : Path) : p.fileName? = p.route.getLast?.filter (· ≠ "..") := by
  rw [fileName?, names, getLast?_trimNames, ← route_eq]

theorem fileName?_join (p : Path) (hname : Plain name) : (p.join name).fileName? = some name := by
  have hup : name ≠ ".." := hname.1.2
  rw [fileName?_eq, route_join p hname, List.getLast?_concat]
  simp [hup]

/-- An extension is what follows the last dot, if that is not at the start. -/
theorem splitExtension_eq_some_iff (name extension : String) :
    (splitExtension name).2 = some extension ↔
      ∃ stem, stem ≠ "" ∧ name = stem ++ "." ++ extension ∧ '.' ∉ extension.toList := by
  have hcut (stem : String) : Text.cutLast? '.' name = some (stem, extension) ↔
      name = stem ++ "." ++ extension ∧ '.' ∉ extension.toList := Text.cutLast?_eq_some_iff name
  simp only [← hcut, splitExtension]
  split
  · rename_i hnone
    simp [hnone]
  · rename_i hempty
    simp [hempty, eq_comm]
  · rename_i stem after hstem hsome
    have hne : stem ≠ "" := hstem
    simp only [hsome, Option.some.injEq, Prod.mk.injEq]
    constructor
    · rintro rfl
      exact ⟨stem, hne, rfl, rfl⟩
    · rintro ⟨_, -, -, rfl⟩
      rfl

end Path

/-! ## Source files -/

namespace Sources

variable {name : String} {rel : List String} {root entry : Path} {fs : FileSystem}
  {classpath : List Path} {w : World}

/-- Names of source files: something, and `.java` behind it. -/
def IsSourceName (name : String) : Prop := ∃ stem, stem ≠ "" ∧ name = stem ++ ".java"

theorem isSource_join_iff (p : Path) (hname : Path.Plain name) :
    isSource (p.join name) = true ↔ IsSourceName name := by
  have hdot : '.' ∉ "java".toList := by decide
  rw [isSource, beq_iff_eq, Path.extension?, Path.fileName?_join p hname, Option.bind_some,
    Path.splitExtension_eq_some_iff, IsSourceName]
  simp only [hdot, not_false_eq_true, and_true, String.append_assoc]
  rfl

/-- A source file stands where names lead from a directory. -/
structure SourceAt (fs : FileSystem) (root : Path) (rel : List String) : Prop where
  named : ∃ above name, rel = above ++ [name] ∧ IsSourceName name
  stands : ∃ content, fs.standingBelow? root rel = some (.file content)

/-- A list of all source files below a directory, in some order. -/
structure Lists (fs : FileSystem) (root : Path) (files : List Path) : Prop where
  once : ∀ rel, SourceAt fs root rel → files.count (root.below rel) = 1
  nothingElse : ∀ file ∈ files, ∃ rel, SourceAt fs root rel ∧ file = root.below rel
  folder_not_mem : ∀ rel, fs.standingBelow? root rel = some .folder → root.below rel ∉ files

/-- All of these paths lead somewhere. -/
def AllThere (fs : FileSystem) (paths : List Path) : Prop :=
  ∀ path ∈ paths, ∃ s, fs.standingAt? path = some s

/-- A path is the first one that leads nowhere. -/
def FirstMissing (fs : FileSystem) (paths : List Path) (path : Path) : Prop :=
  ∃ before after, paths = before ++ path :: after ∧ AllThere fs before ∧
    fs.standingAt? path = none

/-- How a search for source files ends, with what is reported. -/
inductive Verdict (fs : FileSystem) (root : Path) (classpath : List Path) :
    Except Error (List Path) → List Event → Prop
  | missing {entry : Path} (hentry : FirstMissing fs classpath entry) :
      Verdict fs root classpath (.error (.noClasspathEntry entry)) []
  | noRoot (hall : AllThere fs classpath) (hroot : fs.standingAt? root ≠ some .folder) :
      Verdict fs root classpath (.error (.noRoot root)) []
  | found {files : List Path} (hall : AllThere fs classpath)
      (hroot : fs.standingAt? root = some .folder) (hfiles : Lists fs root files) :
      Verdict fs root classpath (.ok files) [.sourcesFound files.length root.text]

/-! ## The classpath -/

theorem FirstMissing.cons (hentry : ∃ s, fs.standingAt? entry = some s) {path : Path}
    (h : FirstMissing fs classpath path) : FirstMissing fs (entry :: classpath) path := by
  obtain ⟨before, after, rfl, hbefore, hpath⟩ := h
  exact ⟨entry :: before, after, rfl, List.forall_mem_cons.mpr ⟨hentry, hbefore⟩, hpath⟩

theorem outcome_checkClasspath_cons (entry : Path) (rest : List Path) (w : World) :
    outcome (checkClasspath (entry :: rest)) w =
      if w.files.pathExists entry then outcome (checkClasspath rest) w
      else (.error (.noClasspathEntry entry), w) := by
  show outcome ((_ >>= fun there => _) >>= fun _ => checkClasspath rest) w = _
  rw [outcome_bind, outcome_bind, outcome_pathExists]
  cases w.files.pathExists entry <;> rfl

theorem outcome_checkClasspath (classpath : List Path) (w : World) :
    (AllThere w.files classpath ∧ outcome (checkClasspath classpath) w = (.ok (), w)) ∨
      ∃ entry, FirstMissing w.files classpath entry ∧
        outcome (checkClasspath classpath) w = (.error (.noClasspathEntry entry), w) := by
  induction classpath with
  | nil => exact .inl ⟨nofun, rfl⟩
  | cons entry rest ih =>
      cases hentry : w.files.pathExists entry with
      | false =>
          have hmissing := (FileSystem.pathExists_eq_false_iff _ _).mp hentry
          refine .inr ⟨entry, ⟨[], rest, rfl, nofun, hmissing⟩, ?_⟩
          rw [outcome_checkClasspath_cons, hentry]
          rfl
      | true =>
          rw [outcome_checkClasspath_cons, hentry, if_pos rfl]
          have hthere := (FileSystem.pathExists_iff _ _).mp hentry
          rcases ih with ⟨hall, hrun⟩ | ⟨path, hpath, hrun⟩
          · exact .inl ⟨List.forall_mem_cons.mpr ⟨hthere, hall⟩, hrun⟩
          · exact .inr ⟨path, hpath.cons hthere, hrun⟩

/-! ## The files below a directory -/

theorem isSource_below_iff (p : Path) (hrel : ∀ name ∈ rel, Path.Plain name) (hne : rel ≠ []) :
    isSource (p.below rel) = true ↔ ∃ above name, rel = above ++ [name] ∧ IsSourceName name := by
  obtain ⟨above, name, rfl⟩ := (List.eq_nil_or_concat' rel).resolve_left hne
  rw [Path.below_concat, isSource_join_iff _ (hrel name (by simp))]
  constructor
  · intro hname
    exact ⟨above, name, rfl, hname⟩
  · rintro ⟨above', name', heq, hname⟩
    obtain ⟨-, hsame⟩ := List.append_inj' heq rfl
    cases hsame
    exact hname

theorem SourceAt.plain (h : SourceAt fs root rel) : ∀ name ∈ rel, Path.Plain name := by
  obtain ⟨content, hfile⟩ := h.stands
  exact FileSystem.plain_of_standingBelow? hfile

/-- Of what stands below a directory, the source files are kept. -/
theorem isSourceFile_below_iff (hroot : fs.standingAt? root = some .folder) {s : Standing}
    (hs : fs.standingBelow? root rel = some s) :
    isSourceFile ⟨root.below rel, s.kind⟩ = true ↔ SourceAt fs root rel := by
  cases s with
  | folder =>
      refine iff_of_false (by simp [isSourceFile, Standing.kind]) fun hsource => ?_
      obtain ⟨content, hfile⟩ := hsource.stands
      rw [hs] at hfile
      cases hfile
  | file content =>
      have hne : rel ≠ [] := by
        rintro rfl
        rw [FileSystem.standingBelow?_nil, hroot] at hs
        cases hs
      have hname := isSource_below_iff root (FileSystem.plain_of_standingBelow? hs) hne
      constructor
      · intro hkept
        exact ⟨hname.mp (by simpa [isSourceFile, Standing.kind] using hkept), content, hs⟩
      · intro hsource
        simpa [isSourceFile, Standing.kind] using hname.mpr hsource.named

/-- If all is visited, then what is kept lists the source files. -/
theorem lists_of_visitsEach (hroot : fs.standingAt? root = some .folder)
    {visits : List (Except OsError Visited)} (h : FileSystem.VisitsEach fs root visits) :
    ∃ all, (visits.mapM fun visit => visit.mapError (Error.notListed root)) = .ok all ∧
      Lists fs root ((all.filter isSourceFile).map Visited.path) := by
  obtain ⟨found, hnodup, hmem, rfl⟩ := h
  let all : List Visited := found.map fun entry => ⟨root.below entry.1, entry.2.kind⟩
  have hkept (file : Path) : file ∈ (all.filter isSourceFile).map Visited.path ↔
      ∃ rel, SourceAt fs root rel ∧ file = root.below rel := by
    constructor
    · intro hfile
      obtain ⟨visited, hvisited, rfl⟩ := List.mem_map.mp hfile
      obtain ⟨hvisited, hsource⟩ := List.mem_filter.mp hvisited
      obtain ⟨⟨rel, s⟩, hfound, rfl⟩ := List.mem_map.mp hvisited
      exact ⟨rel, (isSourceFile_below_iff hroot ((hmem rel s).mp hfound)).mp hsource, rfl⟩
    · rintro ⟨rel, hsource, rfl⟩
      obtain ⟨content, hfile⟩ := hsource.stands
      have hvisited : (⟨root.below rel, .file⟩ : Visited) ∈ all :=
        List.mem_map_of_mem ((hmem rel _).mpr hfile)
      exact List.mem_map_of_mem (List.mem_filter.mpr
        ⟨hvisited, (isSourceFile_below_iff hroot hfile).mpr hsource⟩)
  have hpaths : (all.map Visited.path).Nodup := by
    rw [List.map_map]
    refine hnodup.map_on fun entry hentry entry' hentry' hsame => ?_
    have hstands := (hmem entry.1 entry.2).mp hentry
    have hstands' := (hmem entry'.1 entry'.2).mp hentry'
    have hrel : entry.1 = entry'.1 :=
      Path.below_inj (FileSystem.plain_of_standingBelow? hstands)
        (FileSystem.plain_of_standingBelow? hstands') hsame
    rw [hrel, hstands', Option.some.injEq] at hstands
    exact Prod.ext hrel hstands.symm
  refine ⟨all, (Traversal.mapM_eq_ok_iff _ _ _).mpr ?_, ?once, ?nothingElse, ?folder⟩
  · rw [List.forall₂_map_left_iff, List.forall₂_map_right_iff, List.forall₂_same]
    exact fun _ _ => rfl
  case once =>
    intro rel hsource
    exact List.count_eq_one_of_mem (hpaths.sublist (List.filter_sublist.map _))
      ((hkept _).mpr ⟨rel, hsource, rfl⟩)
  case nothingElse => exact fun file hfile => (hkept file).mp hfile
  case folder =>
    intro rel hfolder hfile
    obtain ⟨rel', hsource, hsame⟩ := (hkept _).mp hfile
    obtain rfl := Path.below_inj (FileSystem.plain_of_standingBelow? hfolder) hsource.plain hsame
    obtain ⟨content, hstands⟩ := hsource.stands
    rw [hfolder] at hstands
    cases hstands

/-! ## The search -/

theorem outcome_find_of_checked (root : Path)
    (hcheck : outcome (checkClasspath classpath) w = (.ok (), w)) :
    outcome (find root classpath) w =
      if w.files.isDirectory root then
        match (w.walk w.files root).mapM fun visit => visit.mapError (Error.notListed root) with
        | .error error => (.error error, w)
        | .ok all => (.ok ((all.filter isSourceFile).map Visited.path), w.reported
            [.sourcesFound ((all.filter isSourceFile).map Visited.path).length root.text])
      else (.error (.noRoot root), w) := by
  rw [find, outcome_bind, hcheck]
  simp only [outcome_bind, outcome_isDirectory]
  cases w.files.isDirectory root with
  | false => rfl
  | true =>
      rw [if_pos rfl, if_pos rfl, outcome_bind]
      simp only [outcome_walk, outcome_bind, outcome_ofExcept]
      cases (w.walk w.files root).mapM fun visit => visit.mapError (Error.notListed root) <;> rfl

/-- **The compilation units**: a search fails for the first missing entry of the classpath, or else
if there is no such directory, or else, if the walk through the directory visits each entry, it finds
all source files below the directory, each of them once, and nothing else. It changes nothing. -/
theorem find_compilationUnits (w : World) (root : Path) (classpath : List Path)
    (hwalk : w.files.standingAt? root = some .folder →
      FileSystem.VisitsEach w.files root (w.walk w.files root)) :
    ∃ result events, outcome (find root classpath) w = (result, w.reported events) ∧
      Verdict w.files root classpath result events := by
  rcases outcome_checkClasspath classpath w with ⟨hall, hcheck⟩ | ⟨entry, hentry, hcheck⟩
  · have hrun := outcome_find_of_checked root hcheck
    by_cases hdirectory : w.files.isDirectory root = true
    · have hroot := (FileSystem.isDirectory_iff _ _).mp hdirectory
      obtain ⟨all, hvisits, hlists⟩ := lists_of_visitsEach hroot (hwalk hroot)
      rw [if_pos hdirectory, hvisits] at hrun
      exact ⟨_, _, hrun, .found hall hroot hlists⟩
    · have hroot := mt (FileSystem.isDirectory_iff _ _).mpr hdirectory
      rw [if_neg hdirectory] at hrun
      exact ⟨_, [], by rw [hrun, World.reported_nil], .noRoot hall hroot⟩
  · refine ⟨_, [], ?_, .missing hentry⟩
    rw [find, outcome_bind, hcheck, World.reported_nil]

/-- A directory with a file that has only the extension, and with a directory named like a source
file. -/
def nestedWorld : World where
  files :=
    { root := .folder "src"
        (.file ".java" [] (.file "A.java" [] (.folder "b.java"
          (.file "C.java" [] (.file "D.JAVA" [] .empty)) .empty)))
        (.file "lib.jar" [] .empty) }

/-- The walk along all entries visits the directories too, but none of them is found. -/
theorem find_compilationUnits_nested :
    nestedWorld.walk nestedWorld.files ⟨"src"⟩ = [.ok ⟨⟨"src"⟩, .folder⟩,
        .ok ⟨⟨"src/.java"⟩, .file⟩, .ok ⟨⟨"src/A.java"⟩, .file⟩, .ok ⟨⟨"src/b.java"⟩, .folder⟩,
        .ok ⟨⟨"src/b.java/C.java"⟩, .file⟩, .ok ⟨⟨"src/b.java/D.JAVA"⟩, .file⟩] ∧
      ∃ events, outcome (find ⟨"src"⟩ [⟨"lib.jar"⟩]) nestedWorld
          = (.ok [⟨"src/A.java"⟩, ⟨"src/b.java/C.java"⟩], nestedWorld.reported events) ∧
        Verdict nestedWorld.files ⟨"src"⟩ [⟨"lib.jar"⟩]
          (.ok [⟨"src/A.java"⟩, ⟨"src/b.java/C.java"⟩]) events := by
  refine ⟨by decide +kernel, ?_⟩
  obtain ⟨result, events, hrun, hverdict⟩ :=
    find_compilationUnits nestedWorld ⟨"src"⟩ [⟨"lib.jar"⟩] FileSystem.visitsEach_walk
  have hresult : (outcome (find ⟨"src"⟩ [⟨"lib.jar"⟩]) nestedWorld).1
      = .ok [⟨"src/A.java"⟩, ⟨"src/b.java/C.java"⟩] := by decide +kernel
  obtain rfl : result = _ := (congrArg Prod.fst hrun).symm.trans hresult
  exact ⟨events, hrun, hverdict⟩

end Sources

end Namebridge
