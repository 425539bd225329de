import Namebridge.Host
import Namebridge.Proofs.Traversal

/-!
# Successful runs

What it is for each part of a run to succeed: with which result, and what it leaves behind. From the
parts to the whole leads `runs_bind_iff`.

A run that finds all that it needs in the files may do nothing but report (`OnlyReports`). Then it
is the same in every world with these readers and files, whatever the network would answer.
-/

namespace Namebridge

/-- How a run in a world ends, and the world that it leaves. -/
def outcome {ε α : Type} (x : ExceptT ε InWorld α) (w : World) : Except ε α × World := x.run.run w

/-- A run in a world succeeds with a result, and leaves another world. -/
def Runs {ε α : Type} (x : ExceptT ε InWorld α) (w : World) (a : α) (w' : World) : Prop :=
  outcome x w = (.ok a, w')

namespace World

/-- The world after more reports. -/
def reported (w : World) (events : List Event) : World := { w with events := w.events ++ events }

theorem reported_nil (w : World) : w.reported [] = w := by
  rw [reported, List.append_nil]

theorem reported_append (w : World) (events later : List Event) :
    (w.reported events).reported later = w.reported (events ++ later) := by
  simp only [reported, List.append_assoc]

end World

section

variable {ε ε' α β : Type} {w w' : World} {a : α} {b : β}

theorem runs_of_toOption {x : ExceptT ε InWorld α} (h : (outcome x w).1.toOption = some a) :
    Runs x w a (outcome x w).2 := by
  unfold Runs
  cases hx : outcome x w with
  | mk result w₁ =>
      rw [hx] at h
      cases result with
      | error e => cases h
      | ok a' =>
          cases h
          rfl

/-! ## Steps -/

theorem runs_pure_iff (a a' : α) (w w' : World) :
    Runs (pure a : ExceptT ε InWorld α) w a' w' ↔ a = a' ∧ w = w' := by
  show (Except.ok a, w) = (.ok a', w') ↔ _
  simp

theorem not_runs_throw (e : ε) (w : World) (a : α) (w' : World) :
    ¬ Runs (throw e : ExceptT ε InWorld α) w a w' := nofun

theorem outcome_bind (x : ExceptT ε InWorld α) (f : α → ExceptT ε InWorld β) (w : World) :
    outcome (x >>= f) w = match outcome x w with
      | (.ok a, w') => outcome (f a) w'
      | (.error e, w') => (.error e, w') := by
  show (match outcome x w with
    | (result, w') => (ExceptT.bindCont f result).run w' : Except ε β × World) = _
  cases outcome x w with
  | mk result w' => cases result <;> rfl

theorem runs_bind_iff (x : ExceptT ε InWorld α) (f : α → ExceptT ε InWorld β) (w w'' : World)
    (b : β) : Runs (x >>= f) w b w'' ↔ ∃ a w', Runs x w a w' ∧ Runs (f a) w' b w'' := by
  unfold Runs
  rw [outcome_bind]
  cases outcome x w with
  | mk result w₁ => cases result <;> simp

theorem not_runs_throw_bind (e : ε) (f : α → ExceptT ε InWorld β) (w : World) (b : β)
    (w' : World) : ¬ Runs (throw e >>= f) w b w' := by
  intro h
  obtain ⟨a, w₁, h, -⟩ := (runs_bind_iff _ _ _ _ _).mp h
  exact not_runs_throw e w a w₁ h

theorem runs_adapt_iff (f : ε → ε') (x : ExceptT ε InWorld α) (w : World) (a : α) (w' : World) :
    Runs (ExceptT.adapt f x) w a w' ↔ Runs x w a w' := by
  have hadapt : outcome (ExceptT.adapt f x) w
      = ((outcome x w).1.mapError f, (outcome x w).2) := rfl
  unfold Runs
  rw [hadapt]
  cases outcome x w with
  | mk result w₁ => simp [Traversal.mapError_eq_ok_iff]

theorem runs_ofExcept_iff (r : Except ε α) (w : World) (a : α) (w' : World) :
    Runs (MonadExcept.ofExcept r : ExceptT ε InWorld α) w a w' ↔ r = .ok a ∧ w = w' := by
  cases r with
  | error e => exact iff_of_false (not_runs_throw e w a w') (by simp)
  | ok a' => exact (runs_pure_iff a' a w w').trans (by simp)

/-! ## Loops -/

section

variable {step : α → ExceptT ε InWorld Unit} {l : List α} {u : Unit}

theorem runs_forM_nil_iff (step : α → ExceptT ε InWorld Unit) (w : World) (u : Unit) (w' : World) :
    Runs ([].forM step) w u w' ↔ w = w' :=
  (runs_pure_iff () u w w').trans (by simp)

theorem runs_forM_cons_iff (step : α → ExceptT ε InWorld Unit) (a : α) (rest : List α) (w : World)
    (u : Unit) (w' : World) : Runs ((a :: rest).forM step) w u w' ↔
      ∃ w₁, Runs (step a) w () w₁ ∧ Runs (rest.forM step) w₁ u w' := by
  refine (runs_bind_iff (step a) (fun _ => rest.forM step) w w' u).trans ?_
  constructor
  · intro hparts
    obtain ⟨_, w₁, ha, hrest⟩ := hparts
    exact ⟨w₁, ha, hrest⟩
  · intro hparts
    obtain ⟨w₁, ha, hrest⟩ := hparts
    exact ⟨(), w₁, ha, hrest⟩

/-- What each step preserves is preserved by all of them. -/
theorem preserves_of_forM {P : FileSystem → Prop}
    (hstep : ∀ a ∈ l, ∀ w w', P w.files → Runs (step a) w () w' → P w'.files)
    (h : Runs (l.forM step) w u w') (hw : P w.files) : P w'.files := by
  induction l generalizing w with
  | nil => exact (runs_forM_nil_iff step w u w').mp h ▸ hw
  | cons a rest ih =>
      obtain ⟨w₁, ha, hrest⟩ := (runs_forM_cons_iff step a rest w u w').mp h
      exact ih (fun b hb => hstep b (by simp [hb])) hrest (hstep a (by simp) w w₁ hw ha)

/-- What each step brings about, and no other step destroys, is there after all of them. -/
theorem holds_of_forM {P : α → FileSystem → Prop}
    (hself : ∀ a ∈ l, ∀ w w', Runs (step a) w () w' → P a w'.files)
    (hother : ∀ a ∈ l, ∀ b ∈ l, a ≠ b → ∀ w w', P a w.files → Runs (step b) w () w' → P a w'.files)
    (h : Runs (l.forM step) w u w') : ∀ a ∈ l, P a w'.files := by
  induction l generalizing w with
  | nil => simp
  | cons a rest ih =>
      obtain ⟨w₁, ha, hrest⟩ := (runs_forM_cons_iff step a rest w u w').mp h
      intro b hb
      rcases List.mem_cons.mp hb with rfl | hb
      · refine preserves_of_forM (fun c hc w w' hw hstep => ?_) hrest (hself b (by simp) w w₁ ha)
        by_cases hbc : b = c
        · subst hbc
          exact hself b (by simp) w w' hstep
        · exact hother b (by simp) c (by simp [hc]) hbc w w' hw hstep
      · exact ih (fun c hc => hself c (by simp [hc]))
          (fun c hc d hd => hother c (by simp [hc]) d (by simp [hd])) hrest b hb

end

/-! ## Operations of the host -/

theorem outcome_pathExists (p : Path) (w : World) :
    outcome (Host.pathExists p : ExceptT ε InWorld _) w = (.ok (w.files.pathExists p), w) := rfl

theorem outcome_isDirectory (p : Path) (w : World) :
    outcome (Host.isDirectory p : ExceptT ε InWorld _) w = (.ok (w.files.isDirectory p), w) := rfl

theorem outcome_walk (p : Path) (w : World) :
    outcome (Host.walk p : ExceptT ε InWorld _) w = (.ok (w.walk w.files p), w) := rfl

theorem outcome_writeFile (p : Path) (content : Bytes) (w : World) :
    outcome (Host.writeFile p content : ExceptT ε InWorld _) w =
      match w.files.writeFile p content with
      | .ok fs => (.ok (.ok ()), w.setFiles fs)
      | .error error => (.ok (.error error), w) := by
  show (Except.ok <$> (Host.writeFile p content : InWorld _)).run w = _
  simp only [Host.writeFile, StateT.run_map, StateT.run_bind, StateT.run_get, pure_bind]
  cases w.files.writeFile p content <;> rfl

theorem outcome_createDirectories (p : Path) (w : World) :
    outcome (Host.createDirectories p : ExceptT ε InWorld _) w
      = (.ok (w.files.createDirectories p).1, w.setFiles (w.files.createDirectories p).2) := rfl

theorem outcome_request (url : String) (w : World) :
    outcome (Host.request url : ExceptT ε InWorld _) w
      = (.ok (w.network w.requests url), { w with requests := w.requests ++ [url] }) := rfl

theorem outcome_readers (w : World) :
    outcome (Host.readers : ExceptT ε InWorld _) w = (.ok w.readers, w) := rfl

theorem outcome_report (event : Event) (w : World) :
    outcome (Host.report event : ExceptT ε InWorld _) w = (.ok (), w.reported [event]) := rfl

theorem outcome_ofExcept (r : Except ε α) (w : World) :
    outcome (MonadExcept.ofExcept r : ExceptT ε InWorld α) w = (r, w) := by
  cases r <;> rfl

theorem runs_openFile_iff (p : Path) (r : Except OsError (Except OsError Bytes)) (w w' : World) :
    Runs (Host.openFile p : ExceptT ε InWorld _) w r w' ↔ w.files.openFile p = r ∧ w = w' := by
  show (Except.ok (w.files.openFile p), w) = (.ok r, w') ↔ _
  simp

theorem runs_createDirectories_iff (p : Path) (r : Except OsError Unit) (w w' : World) :
    Runs (Host.createDirectories p : ExceptT ε InWorld _) w r w' ↔
      (w.files.createDirectories p).1 = r ∧ w.setFiles (w.files.createDirectories p).2 = w' := by
  rw [Runs, outcome_createDirectories]
  simp

theorem runs_writeFile_iff (p : Path) (content : Bytes) (w w' : World) :
    Runs (Host.writeFile p content : ExceptT ε InWorld _) w (.ok ()) w' ↔
      ∃ fs, w.files.writeFile p content = .ok fs ∧ w.setFiles fs = w' := by
  rw [Runs, outcome_writeFile]
  cases w.files.writeFile p content <;> simp

theorem runs_report_iff (event : Event) (w : World) (u : Unit) (w' : World) :
    Runs (Host.report event : ExceptT ε InWorld _) w u w' ↔ w.reported [event] = w' := by
  rw [Runs, outcome_report]
  simp

theorem runs_readers_iff (r : Readers) (w w' : World) :
    Runs (Host.readers : ExceptT ε InWorld _) w r w' ↔ w.readers = r ∧ w = w' := by
  rw [Runs, outcome_readers]
  simp

theorem runs_forM_report_iff (events : List Event) (w : World) (u : Unit) (w' : World) :
    Runs (events.forM Host.report : ExceptT ε InWorld _) w u w' ↔ w.reported events = w' := by
  induction events generalizing w with
  | nil => rw [runs_forM_nil_iff, World.reported_nil]
  | cons event rest ih =>
      rw [runs_forM_cons_iff]
      simp only [runs_report_iff, ih, exists_eq_left', World.reported_append, List.singleton_append]

theorem runs_announce_iff (r : Reporting α) (w : World) (a : α) (w' : World) :
    Runs (Host.announce r : ExceptT ε InWorld _) w a w' ↔
      r.value = a ∧ w.reported r.events = w' := by
  rw [Host.announce, runs_bind_iff]
  simp only [runs_forM_report_iff, runs_pure_iff, exists_eq_left', exists_const]

/-! ## Runs that change nothing -/

/-- In every world with these readers and files a run succeeds with a result, and does nothing but
report. -/
def OnlyReports (x : ExceptT ε InWorld α) (readers : Readers) (fs : FileSystem) (a : α) : Prop :=
  ∀ w, w.readers = readers → w.files = fs → ∃ events, Runs x w a (w.reported events)

section

variable {readers : Readers} {fs : FileSystem} {x : ExceptT ε InWorld α}

theorem onlyReports_of_runs (h : ∀ w, w.readers = readers → w.files = fs → Runs x w a w) :
    OnlyReports x readers fs a :=
  fun w hreaders hfiles => ⟨[], w.reported_nil.symm ▸ h w hreaders hfiles⟩

theorem OnlyReports.bind {f : α → ExceptT ε InWorld β} (hx : OnlyReports x readers fs a)
    (hf : OnlyReports (f a) readers fs b) : OnlyReports (x >>= f) readers fs b := by
  intro w hreaders hfiles
  obtain ⟨events, hx⟩ := hx w hreaders hfiles
  obtain ⟨later, hf⟩ := hf (w.reported events) hreaders hfiles
  refine ⟨events ++ later, (runs_bind_iff _ _ _ _ _).mpr ⟨a, _, hx, ?_⟩⟩
  rwa [← World.reported_append]

theorem OnlyReports.adapt (hx : OnlyReports x readers fs a) (f : ε → ε') :
    OnlyReports (ExceptT.adapt f x) readers fs a := by
  intro w hreaders hfiles
  obtain ⟨events, hx⟩ := hx w hreaders hfiles
  exact ⟨events, (runs_adapt_iff f x _ _ _).mpr hx⟩

theorem onlyReports_forM {step : α → ExceptT ε InWorld Unit} {l : List α}
    (h : ∀ a ∈ l, OnlyReports (step a) readers fs ()) :
    OnlyReports (l.forM step) readers fs () := by
  induction l with
  | nil => exact onlyReports_of_runs fun w _ _ => (runs_forM_nil_iff step w () w).mpr rfl
  | cons a rest ih =>
      show OnlyReports (step a >>= fun _ => rest.forM step) readers fs ()
      exact (h a (by simp)).bind (ih fun b hb => h b (by simp [hb]))

end

end

end Namebridge
