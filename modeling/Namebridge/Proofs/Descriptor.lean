import Namebridge.Name.Descriptor
import Namebridge.Proofs.Cut

/-!
# Renaming the classes of a descriptor

Pieces that are written and read again come out as they were, as long as no class name has a
semicolon (`pieces_render`). So one renaming after another is the renaming by both in one step
(`rename_bind_rename`), and only the class names of a descriptor matter (`rename_congr`). A renaming
fails exactly if the last class name is not ended (`rename_eq_error_iff`). What comes before the
parameters is kept (`rename_eq_ok_iff_since`).
-/

namespace Namebridge.Descriptor

/-! ## Pieces written and read again -/

/-- Whether a piece is read back as what it is. -/
def Piece.Legible : Piece → Prop
  | .mark c => c ≠ 'L'
  | .className name => ';' ∉ name

instance : DecidablePred Piece.Legible
  | .mark c => inferInstanceAs (Decidable (c ≠ 'L'))
  | .className name => inferInstanceAs (Decidable (';' ∉ name))

/-- Reading gives legible pieces, if the part of a class name that is passed has no semicolon. -/
theorem legible_of_scan {opened : Option (List Char)} {cs : List Char} {ps : List Piece}
    (h : scan opened cs = some ps) (hopened : ∀ name ∈ opened, ';' ∉ name) :
    ∀ p ∈ ps, p.Legible := by
  induction cs generalizing opened ps with
  | nil =>
      cases opened with
      | none =>
          cases h
          simp
      | some name => cases h
  | cons c rest ih =>
      cases opened with
      | none =>
          by_cases hc : c = 'L'
          · rw [scan, if_pos hc] at h
            exact ih h (by simp)
          · rw [scan, if_neg hc, Option.map_eq_some_iff] at h
            obtain ⟨qs, hqs, rfl⟩ := h
            intro p hp
            rcases List.mem_cons.mp hp with rfl | hp
            · exact hc
            · exact ih hqs (by simp) p hp
      | some name =>
          have hname : ';' ∉ name := hopened name rfl
          by_cases hc : c = ';'
          · rw [scan, if_pos hc, Option.map_eq_some_iff] at h
            obtain ⟨qs, hqs, rfl⟩ := h
            intro p hp
            rcases List.mem_cons.mp hp with rfl | hp
            · simpa [Piece.Legible] using hname
            · exact ih hqs (by simp) p hp
          · rw [scan, if_neg hc] at h
            have hc' : ¬ ';' = c := fun hc' => hc hc'.symm
            exact ih h (by simpa [hc'] using hname)

theorem scan_className (passed name rest : List Char) (h : ';' ∉ name) :
    scan (some passed) (name ++ ';' :: rest)
      = (scan none rest).map (.className (passed.reverse ++ name) :: ·) := by
  induction name generalizing passed with
  | nil => simp [scan]
  | cons c name ih =>
      simp only [List.mem_cons, not_or] at h
      have hc : ¬ c = ';' := fun hc => h.1 hc.symm
      rw [List.cons_append, scan, if_neg hc, ih (c :: passed) h.2]
      simp

/-- Legible pieces are read back, whatever follows them. -/
theorem scan_render_append {ps : List Piece} (h : ∀ p ∈ ps, p.Legible) (cs : List Char) :
    scan none (render ps ++ cs) = (scan none cs).map (ps ++ ·) := by
  induction ps with
  | nil => simp [render]
  | cons p rest ih =>
      have hrest : scan none (render rest ++ cs) = (scan none cs).map (rest ++ ·) :=
        ih fun q hq => h q (by simp [hq])
      have hp := h p (by simp)
      cases p with
      | mark c =>
          show scan none (c :: (render rest ++ cs)) = _
          rw [scan, if_neg hp, hrest, Option.map_map]
          rfl
      | className name =>
          have hwritten : render (.className name :: rest) ++ cs
              = 'L' :: (name ++ ';' :: (render rest ++ cs)) := by
            simp [render, Piece.chars]
          rw [hwritten, scan, if_pos rfl, scan_className [] name _ hp, hrest, Option.map_map]
          rfl

theorem pieces_render {ps : List Piece} (h : ∀ p ∈ ps, p.Legible) :
    pieces? (render ps) = some ps := by
  have hscan := scan_render_append h []
  simpa [pieces?, scan] using hscan

/-! ## Class names that are not ended -/

theorem scan_of_not_mem (passed : List Char) {name : List Char} (h : ';' ∉ name) :
    scan (some passed) name = none := by
  induction name generalizing passed with
  | nil => rfl
  | cons c rest ih =>
      simp only [List.mem_cons, not_or] at h
      have hc : ¬ c = ';' := fun hc => h.1 hc.symm
      rw [scan, if_neg hc, ih _ h.2]

/-- Characters cannot be read only if they end in a class name. -/
theorem exists_open_of_scan {opened : Option (List Char)} {cs : List Char}
    (h : scan opened cs = none) (hopened : ∀ name ∈ opened, ';' ∉ name) :
    ∃ ps name, (∀ p ∈ ps, Piece.Legible p) ∧ ';' ∉ name ∧
      (match opened with
        | none => cs
        | some passed => 'L' :: passed.reverse ++ cs) = render ps ++ 'L' :: name := by
  induction cs generalizing opened with
  | nil =>
      cases opened with
      | none => simp [scan] at h
      | some passed =>
          have hpassed : ';' ∉ passed := hopened passed rfl
          exact ⟨[], passed.reverse, by simp, by simpa using hpassed, by simp [render]⟩
  | cons c rest ih =>
      cases opened with
      | none =>
          by_cases hc : c = 'L'
          · rw [scan, if_pos hc] at h
            obtain ⟨ps, name, hps, hname, hrest⟩ := ih h (by simp)
            exact ⟨ps, name, hps, hname, by simpa [hc] using hrest⟩
          · rw [scan, if_neg hc, Option.map_eq_none_iff] at h
            obtain ⟨ps, name, hps, hname, hrest⟩ := ih h (by simp)
            refine ⟨.mark c :: ps, name, ?_, hname, by simpa [render, Piece.chars] using hrest⟩
            exact List.forall_mem_cons.mpr ⟨hc, hps⟩
      | some passed =>
          have hpassed : ';' ∉ passed := hopened passed rfl
          by_cases hc : c = ';'
          · rw [scan, if_pos hc, Option.map_eq_none_iff] at h
            obtain ⟨ps, name, hps, hname, hrest⟩ := ih h (by simp)
            refine ⟨.className passed.reverse :: ps, name, ?_, hname, ?_⟩
            · exact List.forall_mem_cons.mpr ⟨by simpa [Piece.Legible] using hpassed, hps⟩
            · simpa [render, Piece.chars, hc] using hrest
          · rw [scan, if_neg hc] at h
            have hc' : ¬ ';' = c := fun hc' => hc hc'.symm
            obtain ⟨ps, name, hps, hname, hrest⟩ := ih h (by simpa [hc'] using hpassed)
            exact ⟨ps, name, hps, hname, by simpa using hrest⟩

/-- After its first parenthesis a descriptor has an `L`, outside of class names, and no semicolon
after that. -/
def LeavesOpen (d : String) : Prop :=
  ∃ ps name, (∀ p ∈ ps, Piece.Legible p) ∧ ';' ∉ name ∧
    (Text.since '(' d).toList = render ps ++ 'L' :: name

theorem pieces?_eq_none_iff (d : String) :
    pieces? (Text.since '(' d).toList = none ↔ LeavesOpen d := by
  constructor
  · intro h
    exact exists_open_of_scan h (by simp)
  · intro h
    obtain ⟨ps, name, hps, hname, hchars⟩ := h
    rw [hchars, pieces?, scan_render_append hps, scan, if_pos rfl, scan_of_not_mem [] hname,
      Option.map_none]

instance (d : String) : Decidable (LeavesOpen d) := decidable_of_iff _ (pieces?_eq_none_iff d)

example : LeavesOpen "(La/B;La/B)V" ∧ ¬ LeavesOpen "toL(La/B;)V" := by decide

/-! ## The names of a descriptor -/

theorem mem_classNames_iff {d : String} {ps : List Piece}
    (h : pieces? (Text.since '(' d).toList = some ps) (c : String) :
    c ∈ classNames d ↔ .className c.toList ∈ ps := by
  rw [classNames, h, Option.getD_some, List.mem_filterMap]
  constructor
  · rintro ⟨p, hp, hname⟩
    cases p with
    | mark c => cases hname
    | className name =>
        cases hname
        rwa [String.toList_ofList]
  · intro hmem
    exact ⟨.className c.toList, hmem, congrArg some String.ofList_toList⟩

theorem classNames_of_no_pieces {d : String} (h : pieces? (Text.since '(' d).toList = none) :
    classNames d = [] := by
  rw [classNames, h]
  rfl

theorem classNames_of_pieces {d : String} {ps : List Piece}
    (h : pieces? (Text.since '(' d).toList = some ps) {name : List Char}
    (hname : .className name ∈ ps) : String.ofList name ∈ classNames d := by
  rw [mem_classNames_iff h, String.toList_ofList]
  exact hname

theorem not_mem_of_mem_classNames {d c : String} (h : c ∈ classNames d) : ';' ∉ c.toList := by
  cases hps : pieces? (Text.since '(' d).toList with
  | none => simp [classNames_of_no_pieces hps] at h
  | some ps => exact legible_of_scan hps (by simp) _ ((mem_classNames_iff hps c).mp h)

theorem rename_of_pieces {d : String} {ps : List Piece}
    (h : pieces? (Text.since '(' d).toList = some ps) (f : String → String) :
    rename f d
      = .ok (Text.before '(' d ++ String.ofList (render (ps.map (Piece.rename f)))) := by
  rw [rename, h]

theorem rename_of_no_pieces {d : String} (h : pieces? (Text.since '(' d).toList = none)
    (f : String → String) : rename f d = .error ⟨d⟩ := by
  rw [rename, h]

theorem rename_eq_error_iff (f : String → String) (d : String) (fault : Fault) :
    rename f d = .error fault ↔ LeavesOpen d ∧ fault = ⟨d⟩ := by
  rw [← pieces?_eq_none_iff]
  cases hps : pieces? (Text.since '(' d).toList with
  | none =>
      rw [rename_of_no_pieces hps]
      simp [eq_comm]
  | some ps =>
      rw [rename_of_pieces hps]
      simp

/-- Only what becomes of the class names of a descriptor matters. -/
theorem rename_congr {f g : String → String} {d : String} (h : ∀ c ∈ classNames d, f c = g c) :
    rename f d = rename g d := by
  cases hps : pieces? (Text.since '(' d).toList with
  | none => rw [rename_of_no_pieces hps, rename_of_no_pieces hps]
  | some ps =>
      have hmap : ps.map (Piece.rename f) = ps.map (Piece.rename g) := by
        refine List.map_congr_left fun p hp => ?_
        cases p with
        | mark c => rfl
        | className name => rw [Piece.rename, Piece.rename, h _ (classNames_of_pieces hps hp)]
      rw [rename_of_pieces hps, rename_of_pieces hps, hmap]

theorem Piece.rename_id (p : Piece) : p.rename id = p := by
  cases p with
  | mark c => rfl
  | className name => simp [Piece.rename]

/-- A renaming that changes no class name of a descriptor gives the descriptor. -/
theorem rename_eq_self {f : String → String} {d : String} (h : ∀ c ∈ classNames d, f c = c)
    (hd : ¬ LeavesOpen d) : rename f d = .ok d := by
  rw [← pieces?_eq_none_iff] at hd
  obtain ⟨ps, hps⟩ := Option.ne_none_iff_exists'.mp hd
  have hmap : ps.map (Piece.rename id) = ps :=
    List.map_id'' Piece.rename_id ps
  rw [rename_congr (g := id) h, rename_of_pieces hps, hmap, render_pieces hps, String.ofList_toList,
    Text.before_append_since]

/-! ## One renaming after another -/

theorem Piece.rename_rename (f g : String → String) (p : Piece) :
    (p.rename f).rename g = p.rename (g ∘ f) := by
  cases p with
  | mark c => rfl
  | className name => simp [Piece.rename]

theorem Piece.Legible.rename {p : Piece} (h : p.Legible) {f : String → String}
    (hf : ∀ name, p = .className name → ';' ∉ (f (String.ofList name)).toList) :
    (p.rename f).Legible := by
  cases p with
  | mark c => exact h
  | className name => exact hf name rfl

/-- What is written after a renaming starts with a parenthesis where the descriptor does. -/
theorem head?_render_rename_eq {cs : List Char} {ps : List Piece} (h : pieces? cs = some ps)
    (hcs : ∀ c ∈ cs.head?, c = '(') (f : String → String) :
    (render (ps.map (Piece.rename f))).head? = cs.head? := by
  cases cs with
  | nil =>
      cases h
      rfl
  | cons c rest =>
      obtain rfl : c = '(' := hcs c rfl
      rw [pieces?, scan, if_neg (by decide), Option.map_eq_some_iff] at h
      obtain ⟨qs, -, rfl⟩ := h
      rfl

theorem head?_render_rename {cs : List Char} {ps : List Piece} (h : pieces? cs = some ps)
    (hcs : ∀ c ∈ cs.head?, c = '(') (f : String → String) :
    ∀ c ∈ (render (ps.map (Piece.rename f))).head?, c = '(' := by
  rwa [head?_render_rename_eq h hcs]

/-- A descriptor that starts with its parameters still does when it is renamed. -/
theorem head?_rename {f : String → String} {d renamed : String}
    (hd : d.toList.head? = some '(') (h : rename f d = .ok renamed) :
    renamed.toList.head? = some '(' := by
  have hopens : ∀ c ∈ d.toList.head?, c = '(' := by simp [hd, eq_comm]
  cases hps : pieces? (Text.since '(' d).toList with
  | none =>
      rw [rename_of_no_pieces hps] at h
      cases h
  | some ps =>
      rw [rename_of_pieces hps, Except.ok.injEq, Text.before_of_head? hopens,
        String.empty_append] at h
      rw [← h, String.toList_ofList, head?_render_rename_eq hps (Text.head?_since '(' d),
        Text.since_of_head? hopens, hd]

/-- What comes before the parameters has no part in a renaming. -/
theorem rename_since {f : String → String} {d renamed : String} (h : rename f d = .ok renamed) :
    rename f (Text.since '(' d) = .ok (Text.since '(' renamed) := by
  cases hps : pieces? (Text.since '(' d).toList with
  | none =>
      rw [rename_of_no_pieces hps] at h
      cases h
  | some ps =>
      have hread : pieces? (Text.since '(' (Text.since '(' d)).toList = some ps := by
        rw [Text.since_since, hps]
      have hhead := head?_render_rename hps (Text.head?_since '(' d) f
      rw [rename_of_pieces hps, Except.ok.injEq] at h
      rw [rename_of_pieces hread, Text.before_since, String.empty_append, ← h,
        Text.since_append (Text.not_mem_before '(' d) (by simpa using hhead)]

/-- A renaming keeps what comes before the parameters. -/
theorem rename_eq_ok_iff_since (f : String → String) (d renamed : String) :
    rename f d = .ok renamed ↔
      ∃ rest, rename f (Text.since '(' d) = .ok rest ∧ renamed = Text.before '(' d ++ rest := by
  have hsince := Text.since_since '(' d
  cases hps : pieces? (Text.since '(' d).toList with
  | none =>
      rw [rename_of_no_pieces hps, rename_of_no_pieces (hsince.symm ▸ hps)]
      simp
  | some ps =>
      rw [rename_of_pieces hps, rename_of_pieces (hsince.symm ▸ hps), Text.before_since,
        String.empty_append]
      simp [eq_comm]

/-- Renaming by `f` and then by `g` is renaming by both, if `f` gives no name with a semicolon. -/
theorem rename_bind_rename {f g : String → String} {d : String}
    (h : ∀ c ∈ classNames d, ';' ∉ (f c).toList) :
    (rename f d >>= rename g) = rename (g ∘ f) d := by
  cases hps : pieces? (Text.since '(' d).toList with
  | none =>
      rw [rename_of_no_pieces hps, rename_of_no_pieces hps]
      rfl
  | some ps =>
      have hlegible : ∀ p ∈ ps.map (Piece.rename f), p.Legible := by
        intro q hq
        obtain ⟨p, hp, rfl⟩ := List.mem_map.mp hq
        refine (legible_of_scan hps (by simp) p hp).rename fun name hname => ?_
        exact h _ (classNames_of_pieces hps (hname ▸ hp))
      have hhead := head?_render_rename hps (Text.head?_since '(' d) f
      have hbefore := Text.not_mem_before '(' d
      have hread : pieces? (Text.since '(' (Text.before '(' d
          ++ String.ofList (render (ps.map (Piece.rename f))))).toList
            = some (ps.map (Piece.rename f)) := by
        rw [Text.since_append hbefore (by simpa using hhead), String.toList_ofList]
        exact pieces_render hlegible
      have hmap : (ps.map (Piece.rename f)).map (Piece.rename g)
          = ps.map (Piece.rename (g ∘ f)) := by
        rw [List.map_map]
        exact List.map_congr_left fun p _ => p.rename_rename f g
      rw [rename_of_pieces hps, rename_of_pieces hps, ← hmap]
      simp only [bind, Except.bind]
      rw [rename_of_pieces hread, Text.before_append hbefore (by simpa using hhead)]

end Namebridge.Descriptor
