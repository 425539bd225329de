import Mathlib.Logic.Relation
import Namebridge.Proofs.InnerPath

/-!
# Directories on the way to a path

To make a directory with all that lead to it is to make single directories, each for a path that is
the given one without its last names (`steps_createDirectories`). So files neither appear nor change
(`MakesWay`). If no name of the path leads up, all of these directories are on the way to the given
one, and what could not be found in it before cannot be found in it after that
(`MakesWay.standingAt?_join`).
-/

namespace Namebridge

/-! ## The names that lead somewhere -/

namespace Path

variable {p q r : Path} {name : String} {names other : List String} {lead body : String}

/-- Whether a name between slashes leads somewhere else. -/
def Leads (name : String) : Bool := !isBlank name

/-- The names of a path that lead somewhere else. -/
def route (p : Path) : List String := (Text.fields '/' p.text).filter Leads

theorem leads_iff_descends (hup : name ≠ "..") : Leads name = true ↔ Descends name := by
  simp [Leads, Descends, hup]

theorem fields_slash_append (s : String) :
    Text.fields '/' ("/" ++ s) = "" :: Text.fields '/' s := by
  have hempty : Text.fields '/' "" = [""] := by decide
  have happend := Text.fields_append '/' "" s
  rwa [hempty, String.empty_append] at happend

theorem filter_steps (p : Path) : p.steps.filter Leads = p.route := by
  have hnone : Text.fields '/' "" = [""] := by decide
  have hblank : Leads "" = false := by decide
  rw [steps, text_join_empty, route]
  split
  · rename_i hend
    rcases hend with hempty | hslash
    · rw [hempty, hnone]
      decide
    · -- the empty name behind the last slash leads nowhere
      obtain ⟨init, hinit⟩ := List.getLast?_eq_some_iff.mp hslash
      have htext : p.text = String.ofList init ++ String.singleton '/' ++ "" := by
        apply String.ext
        simp [hinit]
      rw [htext, Text.fields_append, hnone, List.dropLast_concat, List.filter_append,
        List.filter_cons_of_neg (by simp [hblank]), List.filter_nil, List.append_nil]
  · have hjoin := Text.fields_append '/' p.text ""
    rw [String.append_empty, hnone] at hjoin
    show (Text.fields '/' (p.text ++ String.singleton '/')).dropLast.filter Leads = _
    rw [hjoin, List.dropLast_concat]

theorem route_join (p : Path) (hname : Plain name) : (p.join name).route = p.route ++ [name] := by
  have hleads := (leads_iff_descends hname.1.2).mpr hname.1
  rw [route, fields_join p hname.2, List.filter_append, filter_steps,
    List.filter_cons_of_pos hleads, List.filter_nil]

/-! ## Paths without their last names -/

/-- Whether a path is another one without its last names, however many. -/
inductive IsAbove (q : Path) : Path → Prop
  | refl : IsAbove q q
  | parent {p r : Path} (hparent : p.parent? = some r) (h : IsAbove q r) : IsAbove q p

/-- How the text of a path can go on after a slash or a dot at its start, or without these. -/
def Continues (lead body : String) : Prop :=
  lead = "/" ∨ (lead = "." ∧ ∀ c ∈ body.toList.head?, c = '/') ∨
    (lead = "" ∧ ∀ c ∈ body.toList.head?, c ≠ '/')

theorem continues_leadAndBody (p : Path) :
    Continues p.leadAndBody.1 p.leadAndBody.2 ∧ p.text = p.leadAndBody.1 ++ p.leadAndBody.2 := by
  rw [leadAndBody]
  split
  · rename_i rest htext
    exact ⟨.inl rfl, String.ext (by simp [htext])⟩
  · rename_i htext
    exact ⟨.inr (.inl ⟨rfl, by simp⟩), String.ext (by simp [htext])⟩
  · rename_i rest htext
    exact ⟨.inr (.inl ⟨rfl, by simp⟩), String.ext (by simp [htext])⟩
  · rename_i hroot _ _
    refine ⟨.inr (.inr ⟨rfl, fun c hc => ?_⟩), String.ext (by simp)⟩
    rintro rfl
    obtain ⟨rest, hrest⟩ := List.head?_eq_some_iff.mp hc
    exact hroot rest hrest

theorem Continues.isAbsolute_eq (h : Continues lead body) :
    (Path.mk (lead ++ body)).isAbsolute = decide (lead = "/") := by
  rcases h with rfl | ⟨rfl, -⟩ | ⟨rfl, hbody⟩
  · simp [isAbsolute]
  · simp [isAbsolute]
  · cases hlist : body.toList with
    | nil => simp [isAbsolute, hlist]
    | cons c rest =>
        have hc : c ≠ '/' := hbody c (by simp [hlist])
        simp [isAbsolute, hlist, hc]

/-- The start of a path adds no name to the rest. -/
theorem Continues.route_eq (h : Continues lead body) :
    (Path.mk (lead ++ body)).route = (Text.fields '/' body).filter Leads := by
  rcases h with rfl | ⟨rfl, hbody⟩ | ⟨rfl, -⟩
  · rw [route, fields_slash_append, List.filter_cons_of_neg (by decide)]
  · cases hlist : body.toList with
    | nil =>
        obtain rfl : body = "" := String.toList_eq_nil_iff.mp hlist
        decide
    | cons c rest =>
        obtain rfl : c = '/' := hbody c (by simp [hlist])
        have htext : body = "/" ++ String.ofList rest := String.ext (by simp [hlist])
        have hdot : Text.fields '/' "." = ["."] := by decide
        have hfields := Text.fields_append '/' "." (String.ofList rest)
        rw [String.append_assoc, hdot] at hfields
        rw [route, htext]
        show (Text.fields '/' ("." ++ (String.singleton '/' ++ String.ofList rest))).filter _ = _
        rw [hfields, fields_slash_append, List.filter_cons_of_neg (by decide)]
        exact List.filter_cons_of_neg (by decide)
  · rw [route, String.empty_append]

/-- The same start can be followed by less. -/
theorem Continues.of_prefix {less : String} (h : Continues lead body)
    (hless : less.toList <+: body.toList) : Continues lead less := by
  have hhead : ∀ c ∈ less.toList.head?, c ∈ body.toList.head? := by
    intro c hc
    obtain ⟨rest, hrest⟩ := hless
    rw [← hrest, List.head?_append, hc]
    rfl
  rcases h with hroot | ⟨hlead, hbody⟩ | ⟨hlead, hbody⟩
  · exact .inl hroot
  · exact .inr (.inl ⟨hlead, fun c hc => hbody c (hhead c hc)⟩)
  · exact .inr (.inr ⟨hlead, fun c hc => hbody c (hhead c hc)⟩)

theorem prefix_intercalate (sep : String) (h : names <+: other) :
    (sep.intercalate names).toList <+: (sep.intercalate other).toList := by
  induction names generalizing other with
  | nil => simp
  | cons first rest ih =>
      obtain ⟨later, rfl⟩ := h
      cases rest with
      | nil =>
          cases later with
          | nil => exact List.prefix_refl _
          | cons next later =>
              rw [List.singleton_append, String.intercalate_cons_cons, String.intercalate_singleton,
                String.append_assoc, String.toList_append]
              exact List.prefix_append _ _
      | cons second rest =>
          have hrest := ih (List.prefix_append (second :: rest) later)
          rw [List.cons_append, List.cons_append, String.intercalate_cons_cons,
            String.intercalate_cons_cons, String.toList_append (t := sep.intercalate _),
            String.toList_append (t := sep.intercalate (second :: (rest ++ later)))]
          exact (List.prefix_append_right_inj _).mpr hrest

theorem prefix_trimNames (names : List String) : trimNames names <+: names := by
  have hreverse := List.reverse_prefix.mpr (List.dropWhile_suffix (l := names.reverse) isBlank)
  rwa [List.reverse_reverse] at hreverse

/-- The first names of a text are the names of the text that they make. -/
theorem filter_fields_intercalate (h : names <+: Text.fields '/' body) :
    (Text.fields '/' ("/".intercalate names)).filter Leads = names.filter Leads := by
  cases names with
  | nil => decide
  | cons first rest =>
      have hjoins : Text.Joins '/' (first :: rest) ("/".intercalate (first :: rest)) :=
        ⟨by simp, fun name hname => (Text.joins_fields '/' body).not_mem name (h.subset hname), rfl⟩
      rw [(Text.fields_eq_iff _ _ _).mpr hjoins]

theorem route_eq (p : Path) : p.route = (Text.fields '/' p.leadAndBody.2).filter Leads := by
  obtain ⟨hcontinues, htext⟩ := continues_leadAndBody p
  have heq := hcontinues.route_eq
  rwa [← htext] at heq

/-- Without its last name a path starts at the same place and goes the same way, but not so far. -/
theorem route_of_parent? (h : p.parent? = some r) :
    r.isAbsolute = p.isAbsolute ∧ r.route <+: p.route := by
  obtain ⟨hcontinues, htext⟩ := continues_leadAndBody p
  have habsolute : p.isAbsolute = decide (p.leadAndBody.1 = "/") := by
    have heq := hcontinues.isAbsolute_eq
    rwa [← htext] at heq
  rw [parent?] at h
  split at h
  · split at h
    · rename_i hdot
      cases h
      have hnone : (Path.mk "").route = [] := by decide
      rw [habsolute, hdot, hnone]
      exact ⟨by decide, List.nil_prefix⟩
    · cases h
  · cases h
    have hnames : p.names.dropLast <+: p.names := List.dropLast_prefix _
    have hfirst : trimNames p.names.dropLast <+: Text.fields '/' p.leadAndBody.2 :=
      (prefix_trimNames _).trans (hnames.trans (prefix_trimNames _))
    have hslash : String.singleton '/' = "/" := by decide
    have hless := prefix_intercalate (String.singleton '/') hfirst
    rw [← (Text.joins_fields '/' p.leadAndBody.2).eq_intercalate, hslash] at hless
    have hcontinues' := hcontinues.of_prefix hless
    constructor
    · rw [habsolute, ← hcontinues'.isAbsolute_eq]
    · rw [route_eq p, hcontinues'.route_eq, filter_fields_intercalate hfirst]
      exact hfirst.filter Leads

theorem IsAbove.prefix_route (h : IsAbove q p) :
    q.isAbsolute = p.isAbsolute ∧ q.route <+: p.route := by
  induction h with
  | refl => exact ⟨rfl, List.prefix_refl _⟩
  | parent hparent _ ih =>
      obtain ⟨habsolute, hroute⟩ := route_of_parent? hparent
      exact ⟨ih.1.trans habsolute, ih.2.trans hroute⟩

end Path

/-! ## Making directories -/

namespace FileSystem

variable {fs fs' fs'' : FileSystem} {p q : Path} {s : Standing} {place next : List String}
  {names : List String} {name : String} {content : Bytes}

/-- A directory is made for a path above another one. -/
def MakesStep (p : Path) (fs fs' : FileSystem) : Prop :=
  ∃ q, Path.IsAbove q p ∧ fs.createDirectory q = .ok fs'

open Relation

theorem steps_of_parent {r : Path} (hparent : p.parent? = some r)
    (h : ReflTransGen (MakesStep r) fs fs') : ReflTransGen (MakesStep p) fs fs' := by
  refine ReflTransGen.mono ?_ _ _ h
  rintro between between' ⟨q, habove, hmade⟩
  exact ⟨q, .parent hparent habove, hmade⟩

theorem steps_createToDepth (depth : Nat) (fs : FileSystem) (p : Path) :
    ReflTransGen (MakesStep p) fs (createToDepth depth fs p).2 := by
  fun_induction createToDepth depth fs p with
  | case1 => exact .refl
  | case2 _ _ _ _ made hmade => exact .single ⟨_, .refl, hmade⟩
  | case3 => exact .refl
  | case4 _ _ _ _ _ _ _ parent hparent error made hrest ih =>
      rw [hrest] at ih
      exact steps_of_parent hparent ih
  | case5 _ _ _ _ _ _ _ parent hparent between hrest made hmade ih =>
      rw [hrest] at ih
      exact .tail (steps_of_parent hparent ih) ⟨_, .refl, hmade⟩
  | case6 _ _ _ _ _ _ _ parent hparent between hrest error _ ih =>
      rw [hrest] at ih
      exact steps_of_parent hparent ih
  | case7 => exact .refl

/-- Only directories are made, where nothing was before, and each of them on the way to a path. -/
structure MakesWay (p : Path) (fs fs' : FileSystem) : Prop where
  keeps : Keeps fs fs'
  made : ∀ place s, fs'.standing? place = some s → fs.standing? place = some s ∨
    s = .folder ∧ ∃ q, Path.IsAbove q p ∧ fs'.resolve q = .ok place

theorem MakesWay.refl (p : Path) (fs : FileSystem) : MakesWay p fs fs :=
  ⟨.refl fs, fun _ _ hs => .inl hs⟩

theorem MakesWay.step (h : MakesWay p fs fs') (hstep : MakesStep p fs' fs'') :
    MakesWay p fs fs'' := by
  obtain ⟨q, habove, hmade⟩ := hstep
  have hkeeps := keeps_createDirectory hmade
  obtain ⟨place, hplace, -, hputs⟩ := puts_of_createDirectory hmade
  refine ⟨h.keeps.trans hkeeps, fun other s hs => ?_⟩
  rw [hputs.standing] at hs
  split at hs
  · rename_i hother
    cases hs
    exact .inr ⟨rfl, q, habove, hother ▸ hplace⟩
  · rcases h.made other s hs with hold | ⟨hfolder, r, hr, hresolve⟩
    · exact .inl hold
    · exact .inr ⟨hfolder, r, hr, resolve_of_grows hkeeps.grows hresolve⟩

theorem makesWay_createDirectories (fs : FileSystem) (p : Path) :
    MakesWay p fs (fs.createDirectories p).2 := by
  have hsteps := steps_createToDepth p.text.length fs p
  rw [← createDirectories] at hsteps
  generalize (fs.createDirectories p).2 = fs' at hsteps ⊢
  induction hsteps with
  | refl => exact .refl p fs
  | tail _ hstep ih => exact ih.step hstep

/-- Files stay what they are, and there are no others. -/
theorem MakesWay.file_iff (h : MakesWay p fs fs') (place : List String) (content : Bytes) :
    fs'.standing? place = some (.file content) ↔ fs.standing? place = some (.file content) := by
  constructor
  · intro hs
    rcases h.made place _ hs with hold | ⟨hfolder, -⟩
    · exact hold
    · cases hfolder
  · exact h.keeps.standing place _

/-! ## Paths that do not lead up -/

theorem follow_eq_ok_iff_of_stays (fs : FileSystem) (place next : List String)
    (hname : ¬ Path.Descends name) (hup : name ≠ "..") :
    fs.follow place name = .ok next ↔ fs.standing? place = some .folder ∧ next = place := by
  have hblank : Path.isBlank name = true := by
    by_contra hblank
    exact hname ⟨by simpa using hblank, hup⟩
  rw [follow_eq_ok_iff_of_not_descends _ _ _ hname, if_pos hblank]

/-- Names that do not lead up lead to a place below. -/
theorem eq_append_of_foldlM_follow (hup : ".." ∉ names)
    (h : names.foldlM fs.follow place = .ok next) :
    next = place ++ names.filter Path.Leads := by
  induction names generalizing place with
  | nil =>
      cases h
      simp
  | cons first rest ih =>
      rw [List.mem_cons, not_or] at hup
      rw [List.foldlM_cons, Traversal.bind_eq_ok_iff] at h
      obtain ⟨middle, hfirst, hrest⟩ := h
      have hfirst_ne : first ≠ ".." := fun heq => hup.1 heq.symm
      rw [ih hup.2 hrest]
      by_cases hname : Path.Descends first
      · obtain ⟨-, -, rfl, -⟩ := (follow_eq_ok_iff _ _ _ hname).mp hfirst
        rw [List.filter_cons_of_pos ((Path.leads_iff_descends hfirst_ne).mpr hname),
          List.append_assoc, List.singleton_append]
      · obtain ⟨-, rfl⟩ := (follow_eq_ok_iff_of_stays _ _ _ hname hfirst_ne).mp hfirst
        rw [List.filter_cons_of_neg (mt (Path.leads_iff_descends hfirst_ne).mp hname)]

theorem exists_standing?_of_append {rest : List String}
    (h : ∃ s, fs.standing? (place ++ rest) = some s) : ∃ s, fs.standing? place = some s := by
  by_cases hrest : rest = []
  · rwa [hrest, List.append_nil] at h
  · obtain ⟨s, hs⟩ := h
    obtain ⟨entry, hentry, -⟩ := Option.map_eq_some_iff.mp hs
    exact ⟨_, (standing?_eq_folder_iff _ _).mpr
      (Directory.exists_folder_of_at?_append hentry hrest)⟩

/-- A place that was there was found before by the same names, if none of them leads up. -/
theorem foldlM_follow_of_keeps (hkeeps : Keeps fs fs') (hup : ".." ∉ names)
    (h : names.foldlM fs'.follow place = .ok next) (hs : ∃ s, fs.standing? next = some s) :
    names.foldlM fs.follow place = .ok next := by
  induction names generalizing place with
  | nil => exact h
  | cons first rest ih =>
      have hnext := eq_append_of_foldlM_follow hup h
      rw [List.mem_cons, not_or] at hup
      rw [List.foldlM_cons, Traversal.bind_eq_ok_iff] at h ⊢
      obtain ⟨middle, hfirst, hrest⟩ := h
      have hmiddle := eq_append_of_foldlM_follow hup.2 hrest
      refine ⟨middle, ?_, ih hup.2 hrest⟩
      -- what was there before is what is there now
      have hold : fs'.standing? place = some .folder → fs.standing? place = some .folder := by
        intro hfolder
        obtain ⟨s, hplace⟩ := exists_standing?_of_append (hnext ▸ hs)
        rw [hkeeps.standing place s hplace] at hfolder
        rw [hplace, hfolder]
      by_cases hname : Path.Descends first
      · rw [follow_eq_ok_iff _ _ _ hname] at hfirst ⊢
        obtain ⟨hfolder, hfits, hmid, -⟩ := hfirst
        exact ⟨hold hfolder, hfits, hmid, exists_standing?_of_append (hmiddle ▸ hs)⟩
      · have hfirst_ne : first ≠ ".." := fun heq => hup.1 heq.symm
        rw [follow_eq_ok_iff_of_stays _ _ _ hname hfirst_ne] at hfirst ⊢
        exact ⟨hold hfirst.1, hfirst.2⟩

theorem up_not_mem_of_filter (h : ".." ∉ names.filter Path.Leads) : ".." ∉ names :=
  fun hmem => h (List.mem_filter.mpr ⟨hmem, by decide⟩)

theorem eq_append_route_of_resolve (hup : ".." ∉ q.route) (h : fs.resolve q = .ok place) :
    place = fs.startOf q ++ q.route := by
  obtain ⟨names, hnames, hplace⟩ := (resolve_eq_ok_iff _ _ _).mp h
  obtain rfl := eq_of_namesOf hnames
  exact eq_append_of_foldlM_follow (up_not_mem_of_filter hup) hplace

/-- A name that leads nowhere in a directory leads nowhere when the directory is made, with all that
lead to it. -/
theorem MakesWay.standingAt?_join (h : MakesWay p fs fs') (hup : ".." ∉ p.route)
    (hname : Path.Plain name) (hnone : fs.standingAt? (p.join name) = none) :
    fs'.standingAt? (p.join name) = none := by
  rw [Option.eq_none_iff_forall_ne_some]
  intro s hs
  obtain ⟨place, hresolve, hplace⟩ := (standingAt?_eq_some_iff _ _ _).mp hs
  have hroute := Path.route_join p hname
  have hup' : ".." ∉ (p.join name).route := by
    rw [hroute, List.mem_append, List.mem_singleton, not_or]
    exact ⟨hup, fun heq => hname.1.2 heq.symm⟩
  rcases h.made place s hplace with hold | ⟨-, q, habove, hq⟩
  · -- the place was there before, and was found
    obtain ⟨names, hnames, hfollow⟩ := (resolve_eq_ok_iff _ _ _).mp hresolve
    obtain rfl := eq_of_namesOf hnames
    have hbefore := foldlM_follow_of_keeps h.keeps (up_not_mem_of_filter hup') hfollow ⟨s, hold⟩
    rw [startOf_of_grows h.keeps.grows] at hbefore
    have hsome := (standingAt?_eq_some_iff _ _ _).mpr
      ⟨place, (resolve_eq_ok_iff _ _ _).mpr ⟨_, hnames, hbefore⟩, hold⟩
    rw [hnone] at hsome
    cases hsome
  · -- the place was made on the way to the directory, but it is further away
    obtain ⟨habsolute, hless⟩ := habove.prefix_route
    have hstart : fs'.startOf (p.join name) = fs'.startOf q := by
      rw [startOf, startOf, Path.isAbsolute_join p hname, habsolute]
    have hplace' := eq_append_route_of_resolve (fun hmem => hup (hless.subset hmem)) hq
    rw [eq_append_route_of_resolve hup' hresolve, hroute, hstart] at hplace'
    have hlength := congrArg List.length (List.append_cancel_left hplace')
    have hle := hless.length_le
    rw [List.length_append, List.length_singleton] at hlength
    omega

end FileSystem

end Namebridge
