import Namebridge.Proofs.MadeDirectories
import Namebridge.Proofs.Rerun

/-!
# What is in the cache

A call for a URL can fail at each of its steps, after some of them have changed the files
(`Fetched`). Still no call leaves a part of a body behind, if what it brings can be written: whatever
the networks answer from call to call, each file that they leave was there before, or it is all of a
body that was answered to one of them with success (`reliable`). So what is in the cache can be taken
without looking at it, and what could not be had can be asked for again.
-/

namespace Namebridge.Cache

variable {directory path : Path} {url name : String} {w w' : World} {error : Error}

/-- A file that was not there is requested, and then it is the whole body that was answered. -/
theorem body_of_runs (h : Runs (fetch directory url : ExceptT Error InWorld Path) w path w')
    (hnew : w.files.pathExists path = false) :
    place? directory url = some path ∧ w'.requests = w.requests ++ [url] ∧
      ∃ content, body url (w.network w.requests url) = .ok content ∧
        w'.files.standingAt? path = some (.file content) := by
  cases fetched_of_runs h with
  | cached _ _ hexists =>
      rw [hnew] at hexists
      cases hexists
  | written _ hplace _ _ content hbody fs hwrite =>
      exact ⟨hplace, rfl, content, hbody, FileSystem.standingAt?_writeFile hwrite⟩

/-! ## What one call changes -/

section

variable {result : Except Error Path}

open FileSystem

/-- Whatever a call comes to, it makes directories first, and then at most one file. -/
theorem Fetched.grows (h : Fetched directory url w (result, w')) : Grows w.files w'.files := by
  have hmade := (keeps_createDirectories w.files directory).grows
  cases h with
  | unnamed => exact (Keeps.refl _).grows
  | cached => exact (Keeps.refl _).grows
  | unplaced => exact hmade
  | unanswered => exact hmade
  | unwritten => exact hmade
  | written path _ _ _ content _ fs hwrite => exact hmade.trans (grows_writeFile hwrite)

/-- A call brought a body, but it could not be written. -/
def Unwritten (result : Except Error Path) : Prop :=
  ∃ size url path error, result = .error (.notWritten size url path error)

/-- A file that stands somewhere after a call was there before, or it is the whole body that was
answered to the call. If a body could not be written, nothing is said of what is left of it. -/
theorem Fetched.file (h : Fetched directory url w (result, w')) (hwritten : ¬ Unwritten result)
    {place : List String} {content : Bytes}
    (hfile : w'.files.standing? place = some (.file content)) :
    w.files.standing? place = some (.file content) ∨
      ∃ path, place? directory url = some path ∧ w.files.pathExists path = false ∧
        body url (w.network w.requests url) = .ok content ∧ w'.files.resolve path = .ok place := by
  have hmade := (makesWay_createDirectories w.files directory).file_iff place content
  cases h with
  | unnamed => exact .inl hfile
  | cached => exact .inl hfile
  | unplaced => exact .inl (hmade.mp hfile)
  | unanswered => exact .inl (hmade.mp hfile)
  | unwritten => exact absurd ⟨_, _, _, _, rfl⟩ hwritten
  | written path hplace hnew _ body hbody fs hwrite =>
      obtain ⟨there, hthere, -, hputs⟩ := puts_of_writeFile hwrite
      rw [World.setFiles, hputs.standing] at hfile
      split at hfile
      · rename_i hplaces
        cases hfile
        exact .inr ⟨path, hplace, hnew, hbody, hplaces ▸ hthere⟩
      · exact .inl (hmade.mp hfile)

end

/-! ## Calls one after the other -/

/-- Whether something else than the files is at fault: the URL, the request, the status or the
body. -/
def Error.FromOutside : Error → Prop
  | noFileName _ => True
  | refused => True
  | badStatus _ _ => True
  | cutShort _ => True
  | noDirectory _ _ => False
  | notWritten _ _ _ _ => False

/-- A call for the file of a URL, and the network that there is at the time. -/
structure Call where
  url : String
  network : Network

/-- How a call ends, and the world that it leaves. -/
def Call.run (directory : Path) (call : Call) (w : World) : Except Error Path × World :=
  outcome (fetch directory call.url) { w with network := call.network }

/-- The world after calls. -/
def after (directory : Path) (calls : List Call) (w : World) : World :=
  calls.foldl (fun w call => (call.run directory w).2) w

/-- Of these calls, one after the other, none brings a body that cannot be written. -/
def AllWritten (directory : Path) (calls : List Call) (w : World) : Prop :=
  ∀ earlier call later, calls = earlier ++ call :: later →
    ¬ Unwritten (call.run directory (after directory earlier w)).1

/-- A call finds nothing at the path of its file, and is answered with success and a whole body. -/
structure Brought (directory : Path) (w : World) (call : Call) (path : Path) (content : Bytes) :
    Prop where
  place : place? directory call.url = some path
  new : w.files.pathExists path = false
  answered : ∃ status, call.network w.requests call.url = .answered status (some content) ∧
    200 ≤ status ∧ status < 300

/-- What can be relied on in a cache directory, from any world on. -/
structure Reliable (directory : Path) (w : World) : Prop where
  /-- A failure from outside leaves all files as they are, without any other ones: at most the cache
  directory is made, with those that lead to it. -/
  failed : ∀ (call : Call) (error : Error) w', call.run directory w = (.error error, w') →
    error.FromOutside → FileSystem.MakesWay directory w.files w'.files
  /-- After such a failure the file is requested again, if there is still nothing at its path. There
  is nothing, as long as no name leads up, or back to the directory. -/
  retried : ∀ (call : Call) (error : Error) w' name, call.run directory w = (.error error, w') →
    error.FromOutside → fileName? call.url = some name →
      (∀ again : Call, fileName? again.url = some name →
        w'.files.pathExists (directory.join name) = false →
          (again.run directory w').2.requests = w'.requests ++ [again.url]) ∧
      (name ≠ "." → name ≠ ".." → ".." ∉ directory.route →
        w'.files.pathExists (directory.join name) = false)
  /-- A file that was not there is a whole body when the call for it succeeds. -/
  downloaded : ∀ (call : Call) path w', call.run directory w = (.ok path, w') →
    w.files.pathExists path = false → ∃ content, Brought directory w call path content ∧
      w'.files.standingAt? path = some (.file content)
  /-- What is there is returned by every later call for a URL with this last part, without a request
  or a change. -/
  cached : ∀ name, name ≠ "" → '/' ∉ name.toList → w.files.pathExists (directory.join name) = true →
    ∀ calls (call : Call), (∃ start, call.url = start ++ "/" ++ name) →
      call.run directory (after directory calls w) = (.ok (directory.join name),
        { after directory calls w with network := call.network }.reported
          [.cacheHit (directory.join name).text call.url])
  /-- What a path of the cache leads to stays what it is. -/
  kept : ∀ calls, KeepsEntries directory w.files (after directory calls w).files
  /-- Each file was there before all calls, or it is the whole body that one of them brought, as long
  as each body that was brought could be written. -/
  whole : ∀ calls, AllWritten directory calls w → ∀ place content,
    (after directory calls w).files.standing? place = some (.file content) →
      w.files.standing? place = some (.file content) ∨
      ∃ earlier call later path, calls = earlier ++ call :: later ∧
        Brought directory (after directory earlier w) call path content ∧
        (after directory calls w).files.resolve path = .ok place

theorem fetched_run (directory : Path) (call : Call) (w : World) :
    Fetched directory call.url { w with network := call.network } (call.run directory w) :=
  fetched directory call.url _

theorem after_cons (directory : Path) (call : Call) (calls : List Call) (w : World) :
    after directory (call :: calls) w = after directory calls (call.run directory w).2 := rfl

theorem grows_after (directory : Path) (calls : List Call) (w : World) :
    FileSystem.Grows w.files (after directory calls w).files := by
  induction calls generalizing w with
  | nil => exact (FileSystem.Keeps.refl _).grows
  | cons call rest ih => exact (fetched_run directory call w).grows.trans (ih _)

theorem keepsEntries_after (directory : Path) (calls : List Call) (w : World) :
    KeepsEntries directory w.files (after directory calls w).files := by
  induction calls generalizing w with
  | nil => exact .refl _ _
  | cons call rest ih => exact (fetched_run directory call w).keepsEntries.trans (ih _)

theorem pathExists_after {calls : List Call} (h : w.files.pathExists path = true) :
    (after directory calls w).files.pathExists path = true := by
  rw [FileSystem.pathExists_iff] at h ⊢
  obtain ⟨s, hs⟩ := h
  obtain ⟨place, hresolve, hplace⟩ := (FileSystem.standingAt?_eq_some_iff _ _ _).mp hs
  have hgrows := grows_after directory calls w
  obtain ⟨s', hs'⟩ := hgrows.stays place s hplace
  exact ⟨s', (FileSystem.standingAt?_eq_some_iff _ _ _).mpr
    ⟨place, FileSystem.resolve_of_grows hgrows hresolve, hs'⟩⟩

theorem whole_after (calls : List Call) (hwritten : AllWritten directory calls w)
    {place : List String} {content : Bytes}
    (hfile : (after directory calls w).files.standing? place = some (.file content)) :
    w.files.standing? place = some (.file content) ∨
      ∃ earlier call later path, calls = earlier ++ call :: later ∧
        Brought directory (after directory earlier w) call path content ∧
        (after directory calls w).files.resolve path = .ok place := by
  induction calls generalizing w with
  | nil => exact .inl hfile
  | cons call rest ih =>
      have hrest : AllWritten directory rest (call.run directory w).2 :=
        fun earlier later rest' hsplit => hwritten (call :: earlier) later rest' (by simp [hsplit])
      rw [after_cons] at hfile ⊢
      rcases ih hrest hfile with hfirst | ⟨earlier, later, rest', path, rfl, hbrought, hresolve⟩
      · rcases (fetched_run directory call w).file (hwritten [] call rest rfl) hfirst with hold |
          ⟨path, hplace, hnew, hbody, hresolve⟩
        · exact .inl hold
        · -- this call brought it, and all later ones left the path where it leads
          have hbrought : Brought directory w call path content :=
            ⟨hplace, hnew, (body_eq_ok_iff _ _ _).mp hbody⟩
          exact .inr ⟨[], call, rest, path, rfl, hbrought,
            FileSystem.resolve_of_grows (grows_after directory rest _) hresolve⟩
      · exact .inr ⟨call :: earlier, later, rest', path, rfl, hbrought, hresolve⟩

/-- Directories that could be made can be made again. -/
theorem createDirectories_again {fs : FileSystem}
    (h : (fs.createDirectories directory).1 = .ok ()) :
    ((fs.createDirectories directory).2.createDirectories directory).1 = .ok () := by
  by_cases hempty : directory.text = ""
  · unfold FileSystem.createDirectories FileSystem.createToDepth
    simp [hempty]
  · rw [FileSystem.createDirectories_eq_self (FileSystem.standingAt?_createDirectories hempty h)]

/-- A call for which there is nothing, and a directory to put it into, sends a request. -/
theorem requests_run {call : Call} (hplace : place? directory call.url = some path)
    (hnew : w.files.pathExists path = false)
    (hmade : (w.files.createDirectories directory).1 = .ok ()) :
    (call.run directory w).2.requests = w.requests ++ [call.url] := by
  have hfetched := fetched_run directory call w
  generalize call.run directory w = ended at hfetched ⊢
  cases hfetched with
  | unnamed hnone =>
      rw [hplace] at hnone
      cases hnone
  | cached other hother hexists =>
      rw [hplace] at hother
      cases hother
      rw [hnew] at hexists
      cases hexists
  | unplaced _ _ _ error herror =>
      rw [hmade] at herror
      cases herror
  | unanswered => rfl
  | unwritten => rfl
  | written => rfl

/-- A call for a file that is there changes nothing. -/
theorem run_of_pathExists {call : Call} (hplace : place? directory call.url = some path)
    (hexists : w.files.pathExists path = true) :
    call.run directory w = (.ok path,
      { w with network := call.network }.reported [.cacheHit path.text call.url]) := by
  rw [Call.run, outcome_fetch hplace, if_pos hexists]

/-- A failure from outside comes before a request, and changes nothing, or after it. -/
theorem failed_cases {call : Call} (h : call.run directory w = (.error error, w'))
    (houtside : error.FromOutside) :
    (place? directory call.url = none ∧ w'.files = w.files) ∨
      ∃ path, place? directory call.url = some path ∧ w.files.pathExists path = false ∧
        (w.files.createDirectories directory).1 = .ok () ∧
        w'.files = (w.files.createDirectories directory).2 := by
  have hfetched := fetched_run directory call w
  rw [h] at hfetched
  cases hfetched with
  | unnamed hplace => exact .inl ⟨hplace, rfl⟩
  | unplaced => exact houtside.elim
  | unanswered path hplace hnew hmade => exact .inr ⟨path, hplace, hnew, hmade, rfl⟩
  | unwritten => exact houtside.elim

/-- **The cache holds whole files only**: a file that was not there before all calls is all that was
answered to one of them, unless one of them failed in writing, and every later call finds it. A call
that gets less than that leaves the files as they are, and the file can be asked for again. -/
theorem reliable (directory : Path) (w : World) : Reliable directory w := by
  refine ⟨?failed, ?retried, ?downloaded, ?cached,
    fun calls => keepsEntries_after directory calls w,
    fun calls hwritten _ _ => whole_after calls hwritten⟩
  case failed =>
    intro call error w' h houtside
    rcases failed_cases h houtside with ⟨-, hsame⟩ | ⟨path, -, -, -, hmade⟩
    · rw [hsame]
      exact .refl directory w.files
    · rw [hmade]
      exact FileSystem.makesWay_createDirectories w.files directory
  case retried =>
    intro call error w' name h houtside hname
    have hplace : place? directory call.url = some (directory.join name) :=
      congrArg (Option.map directory.join) hname
    rcases failed_cases h houtside with ⟨hnone, -⟩ | ⟨path, hpath, hnew, hmade, hfiles⟩
    · rw [hplace] at hnone
      cases hnone
    · rw [hplace] at hpath
      cases hpath
      constructor
      · intro again hagain hnothing
        refine requests_run (congrArg (Option.map directory.join) hagain) hnothing ?_
        rw [hfiles]
        exact createDirectories_again hmade
      · intro hdot hdots hup
        obtain ⟨hempty, hslash, -⟩ := (fileName?_eq_some_iff _ _).mp hname
        have hplain : Path.Plain name :=
          ⟨(Path.descends_iff name).mpr ⟨hempty, hdot, hdots⟩, hslash⟩
        have hway := FileSystem.makesWay_createDirectories w.files directory
        rw [FileSystem.pathExists_eq_false_iff] at hnew ⊢
        rw [hfiles]
        exact hway.standingAt?_join hup hplain hnew
  case downloaded =>
    intro call path w' h hnew
    obtain ⟨hplace, -, content, hbody, hstands⟩ := body_of_runs h hnew
    exact ⟨content, ⟨hplace, hnew, (body_eq_ok_iff _ _ _).mp hbody⟩, hstands⟩
  case cached =>
    intro name hne hslash hexists calls call hurl
    have hplace : place? directory call.url = some (directory.join name) :=
      congrArg (Option.map directory.join)
        ((fileName?_eq_some_iff call.url name).mpr ⟨hne, hslash, hurl⟩)
    exact run_of_pathExists hplace (pathExists_after hexists)

/-- One file, asked for without a network, with the connection lost, when it is not found, and when
it is there. -/
def attempts : List Call :=
  [⟨"http://a/x.jar", .offline⟩, ⟨"http://a/x.jar", fun _ _ => .answered 200 none⟩,
    ⟨"http://a/x.jar", fun _ _ => .answered 404 (some [33])⟩,
    ⟨"http://a/x.jar", fun _ _ => .answered 200 (some [1, 2])⟩]

/-- The last attempt brings the file, and then it is there for another URL that ends alike. -/
theorem reliable_attempts :
    (after ⟨"c/d"⟩ attempts {}).requests.length = 4 ∧
      (after ⟨"c/d"⟩ attempts {}).files.root
        = .folder "c" (.folder "d" (.file "x.jar" [1, 2] .empty) .empty) .empty ∧
      ∃ w', Call.run ⟨"c/d"⟩ ⟨"http://b/x.jar", .offline⟩ (after ⟨"c/d"⟩ attempts {})
          = (.ok ⟨"c/d/x.jar"⟩, w') ∧
        w'.requests = (after ⟨"c/d"⟩ attempts {}).requests := by
  have hexists : (after ⟨"c/d"⟩ attempts {}).files.pathExists ⟨"c/d/x.jar"⟩ = true := by
    decide +kernel
  have hcached := (reliable ⟨"c/d"⟩ (after ⟨"c/d"⟩ attempts {})).cached "x.jar" (by decide)
    (by decide) hexists [] ⟨"http://b/x.jar", .offline⟩ ⟨"http:/" ++ "/b", by decide⟩
  exact ⟨by decide +kernel, by decide +kernel, _, hcached, rfl⟩

end Namebridge.Cache
