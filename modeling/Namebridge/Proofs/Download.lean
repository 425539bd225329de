import Namebridge.Proofs.Running
import Namebridge.Run.Cache

/-!
# One download, step by step

The file of a URL is taken if it is there. Else a directory is made for it, it is requested, and the
body of the answer is written, and each of these steps can be the last one. `Fetched` has a case for
each way to end, with the world that it leaves, and everything that is said of downloads comes from
these cases.
-/

namespace Namebridge.Cache

variable {directory path : Path} {url : String} {w w' : World}

/-- The world after a request: the directory is made for the file that it may bring. -/
def requested (directory : Path) (url : String) (w : World) : World :=
  { w with
    files := (w.files.createDirectories directory).2
    requests := w.requests ++ [url]
    events := w.events ++ [.downloading url] }

/-- How fetching the file of a URL ends, by the step that is its last one. -/
inductive Fetched (directory : Path) (url : String) (w : World) : Except Error Path × World → Prop
  | unnamed (hplace : place? directory url = none) :
      Fetched directory url w (.error (.noFileName url), w)
  | cached (path : Path) (hplace : place? directory url = some path)
      (hexists : w.files.pathExists path = true) :
      Fetched directory url w (.ok path, w.reported [.cacheHit path.text url])
  | unplaced (path : Path) (hplace : place? directory url = some path)
      (hnew : w.files.pathExists path = false) (error : OsError)
      (hmade : (w.files.createDirectories directory).1 = .error error) :
      Fetched directory url w (.error (.noDirectory directory error),
        (w.reported [.downloading url]).setFiles (w.files.createDirectories directory).2)
  | unanswered (path : Path) (hplace : place? directory url = some path)
      (hnew : w.files.pathExists path = false)
      (hmade : (w.files.createDirectories directory).1 = .ok ()) (error : Error)
      (hbody : body url (w.network w.requests url) = .error error) :
      Fetched directory url w (.error error, requested directory url w)
  | unwritten (path : Path) (hplace : place? directory url = some path)
      (hnew : w.files.pathExists path = false)
      (hmade : (w.files.createDirectories directory).1 = .ok ()) (content : Bytes)
      (hbody : body url (w.network w.requests url) = .ok content) (error : OsError)
      (hwrite : (w.files.createDirectories directory).2.writeFile path content = .error error) :
      Fetched directory url w (.error (.notWritten content.length url path error),
        requested directory url w)
  | written (path : Path) (hplace : place? directory url = some path)
      (hnew : w.files.pathExists path = false)
      (hmade : (w.files.createDirectories directory).1 = .ok ()) (content : Bytes)
      (hbody : body url (w.network w.requests url) = .ok content) (fs : FileSystem)
      (hwrite : (w.files.createDirectories directory).2.writeFile path content = .ok fs) :
      Fetched directory url w (.ok path, (requested directory url w).setFiles fs)

/-- A file that is there is taken, and else it is downloaded to its place. -/
theorem outcome_fetch (hplace : place? directory url = some path) (w : World) :
    outcome (fetch directory url : ExceptT Error InWorld Path) w =
      if w.files.pathExists path then (.ok path, w.reported [.cacheHit path.text url])
      else outcome (download directory url path >>= fun _ => pure path) w := by
  rw [fetch, hplace, outcome_bind, outcome_pathExists]
  cases w.files.pathExists path <;> rfl

/-- Where there is nothing yet, each step that can fail is the last one if it does. -/
theorem fetched_of_new (hplace : place? directory url = some path)
    (hnew : w.files.pathExists path = false) :
    Fetched directory url w
      (outcome (download directory url path >>= fun _ => pure path) w) := by
  rw [outcome_bind, download]
  simp only [outcome_bind, outcome_report, outcome_createDirectories, World.reported,
    World.setFiles]
  cases hmade : (w.files.createDirectories directory).1 with
  | error error => exact .unplaced path hplace hnew error hmade
  | ok _ =>
      simp only [outcome_bind, outcome_request, outcome_ofExcept]
      cases hbody : body url (w.network w.requests url) with
      | error error => exact .unanswered path hplace hnew hmade error hbody
      | ok content =>
          simp only [outcome_writeFile]
          cases hwrite : (w.files.createDirectories directory).2.writeFile path content with
          | error error => exact .unwritten path hplace hnew hmade content hbody error hwrite
          | ok fs => exact .written path hplace hnew hmade content hbody fs hwrite

theorem fetched (directory : Path) (url : String) (w : World) :
    Fetched directory url w (outcome (fetch directory url : ExceptT Error InWorld Path) w) := by
  cases hplace : place? directory url with
  | none =>
      have hrun : outcome (fetch directory url : ExceptT Error InWorld Path) w
          = (.error (.noFileName url), w) := by
        rw [fetch, hplace]
        rfl
      rw [hrun]
      exact .unnamed hplace
  | some path =>
      rw [outcome_fetch hplace]
      split
      · rename_i hexists
        exact .cached path hplace hexists
      · rename_i hnew
        exact fetched_of_new hplace (by simpa using hnew)

/-- An answer has the whole body of a file if it has one and its status says success. -/
theorem body_eq_ok_iff (url : String) (answer : Exchange) (content : Bytes) :
    body url answer = .ok content ↔
      ∃ status, answer = .answered status (some content) ∧ 200 ≤ status ∧ status < 300 := by
  constructor
  · intro h
    cases answer with
    | refused => cases h
    | answered status received =>
        by_cases hsuccess : Status.isSuccess status = true
        · cases received with
          | none => simp [body, hsuccess] at h
          | some whole =>
              obtain rfl : whole = content := by simpa [body, hsuccess] using h
              exact ⟨status, rfl, by simpa [Status.isSuccess] using hsuccess⟩
        · simp [body, hsuccess] at h
  · rintro ⟨status, rfl, hsuccess⟩
    have hstatus : Status.isSuccess status = true := by simpa [Status.isSuccess] using hsuccess
    exact if_pos hstatus

theorem fetched_of_runs
    (h : Runs (fetch directory url : ExceptT Error InWorld Path) w path w') :
    Fetched directory url w (.ok path, w') := by
  have hfetched := fetched directory url w
  rwa [h] at hfetched

/-- A file that is fetched is at the place of its URL. -/
theorem place?_of_fetch
    (h : Runs (fetch directory url : ExceptT Error InWorld Path) w path w') :
    place? directory url = some path := by
  cases fetched_of_runs h with
  | cached _ hplace => exact hplace
  | written _ hplace => exact hplace

end Namebridge.Cache
