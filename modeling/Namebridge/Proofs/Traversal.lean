import Mathlib.Data.List.Forall2

/-!
# Traversals that can fail

A list is read item by item until one of them cannot be read. `mapM_eq_ok_iff` says what it is to
come through, `mapM_eq_error_iff` what it is to fail, and `foldlM_map_eq` that reading and
collecting at once is reading first and collecting afterwards.
-/

namespace Namebridge.Traversal

variable {α β σ ε ε' : Type}

theorem bind_eq_ok_iff (x : Except ε α) (f : α → Except ε β) (b : β) :
    (x >>= f) = .ok b ↔ ∃ a, x = .ok a ∧ f a = .ok b := by
  cases x <;> simp [bind, Except.bind]

theorem map_eq_ok_iff (f : α → β) (x : Except ε α) (b : β) :
    x.map f = .ok b ↔ ∃ a, x = .ok a ∧ f a = b := by
  cases x <;> simp [Except.map]

theorem mapError_eq_ok_iff (f : ε → ε') (x : Except ε α) (a : α) :
    x.mapError f = .ok a ↔ x = .ok a := by
  cases x <;> simp [Except.mapError]

theorem bind_eq_error_iff (x : Except ε α) (f : α → Except ε β) (e : ε) :
    (x >>= f) = .error e ↔ x = .error e ∨ ∃ a, x = .ok a ∧ f a = .error e := by
  cases x <;> simp [bind, Except.bind]

theorem map_eq_error_iff (f : α → β) (x : Except ε α) (e : ε) :
    x.map f = .error e ↔ x = .error e := by
  cases x <;> simp [Except.map]

theorem mapError_eq_error_iff (f : ε → ε') (x : Except ε α) (e' : ε') :
    x.mapError f = .error e' ↔ ∃ e, x = .error e ∧ f e = e' := by
  cases x <;> simp [Except.mapError]

theorem exists_of_mem_left {R : α → β → Prop} {l : List α} {bs : List β}
    (h : List.Forall₂ R l bs) {a : α} (ha : a ∈ l) : ∃ b ∈ bs, R a b := by
  induction h with
  | nil => cases ha
  | @cons a' b rest bs hab _ ih =>
      rcases List.mem_cons.mp ha with rfl | ha
      · exact ⟨b, by simp, hab⟩
      · obtain ⟨b', hb', hab'⟩ := ih ha
        exact ⟨b', by simp [hb'], hab'⟩

theorem exists_of_mem_right {R : α → β → Prop} {l : List α} {bs : List β}
    (h : List.Forall₂ R l bs) {b : β} (hb : b ∈ bs) : ∃ a ∈ l, R a b :=
  exists_of_mem_left h.flip hb

theorem forall₂_append_left_iff {R : α → β → Prop} {l l' : List α} {bs : List β} :
    List.Forall₂ R (l ++ l') bs ↔
      ∃ cs cs', List.Forall₂ R l cs ∧ List.Forall₂ R l' cs' ∧ bs = cs ++ cs' := by
  constructor
  · intro h
    refine ⟨bs.take l.length, bs.drop l.length, ?_, ?_, (List.take_append_drop _ _).symm⟩
    · exact (List.forall₂_take_append bs l l' h.flip).flip
    · exact (List.forall₂_drop_append bs l l' h.flip).flip
  · intro h
    obtain ⟨cs, cs', hcs, hcs', rfl⟩ := h
    exact List.rel_append hcs hcs'

/-- A traversal succeeds with what each item gives. -/
theorem mapM_eq_ok_iff (f : α → Except ε β) (l : List α) (bs : List β) :
    l.mapM f = .ok bs ↔ List.Forall₂ (fun a b => f a = .ok b) l bs := by
  induction l generalizing bs with
  | nil =>
      rw [List.mapM_nil, List.forall₂_nil_left_iff]
      exact ⟨fun h => (Except.ok.inj h).symm, fun h => h ▸ rfl⟩
  | cons a rest ih =>
      rw [List.mapM_cons, bind_eq_ok_iff, List.forall₂_cons_left_iff]
      constructor
      · intro hparts
        obtain ⟨b, hb, hrest⟩ := hparts
        obtain ⟨cs, hcs, hbs⟩ := (bind_eq_ok_iff _ _ _).mp hrest
        exact ⟨b, cs, hb, (ih cs).mp hcs, (Except.ok.inj hbs).symm⟩
      · intro hparts
        obtain ⟨b, cs, hb, hcs, rfl⟩ := hparts
        exact ⟨b, hb, (bind_eq_ok_iff _ _ _).mpr ⟨cs, (ih cs).mpr hcs, rfl⟩⟩

/-- A traversal comes through if each item does. -/
theorem exists_mapM_eq_ok {f : α → Except ε β} {l : List α} (h : ∀ a ∈ l, ∃ b, f a = .ok b) :
    ∃ bs, l.mapM f = .ok bs := by
  induction l with
  | nil => exact ⟨[], rfl⟩
  | cons a rest ih =>
      obtain ⟨b, hb⟩ := h a (by simp)
      obtain ⟨bs, hbs⟩ := ih fun a ha => h a (by simp [ha])
      rw [mapM_eq_ok_iff] at hbs
      exact ⟨b :: bs, (mapM_eq_ok_iff f _ _).mpr (.cons hb hbs)⟩

/-- A traversal comes through exactly if each item does. -/
theorem exists_mapM_iff (f : α → Except ε β) (l : List α) :
    (∃ bs, l.mapM f = .ok bs) ↔ ∀ a ∈ l, ∃ b, f a = .ok b := by
  refine ⟨?_, exists_mapM_eq_ok⟩
  intro h a ha
  obtain ⟨bs, hbs⟩ := h
  obtain ⟨b, -, hb⟩ := exists_of_mem_left ((mapM_eq_ok_iff f l bs).mp hbs) ha
  exact ⟨b, hb⟩

/-- What a traversal gives is what some item gives. -/
theorem mem_iff_of_mapM {f : α → Except ε β} {l : List α} {bs : List β} (h : l.mapM f = .ok bs)
    (b : β) : b ∈ bs ↔ ∃ a ∈ l, f a = .ok b := by
  rw [mapM_eq_ok_iff] at h
  refine ⟨exists_of_mem_right h, ?_⟩
  intro hparts
  obtain ⟨a, ha, hab⟩ := hparts
  obtain ⟨c, hc, hac⟩ := exists_of_mem_left h ha
  rw [hab] at hac
  cases hac
  exact hc

/-- What can be told of an item can be told of what it gives. -/
theorem map_eq_of_mapM {γ : Type} {f : α → Except ε β} {l : List α} {bs : List β}
    (h : l.mapM f = .ok bs) {g : β → γ} {k : α → γ} (hkey : ∀ a b, f a = .ok b → g b = k a) :
    bs.map g = l.map k := by
  rw [mapM_eq_ok_iff] at h
  induction h with
  | nil => rfl
  | cons hab _ ih => rw [List.map_cons, List.map_cons, hkey _ _ hab, ih]

theorem look_foldl_eq (look : σ → α) {put : σ → β → σ} (h : ∀ s b, look (put s b) = look s)
    (s : σ) (bs : List β) : look (bs.foldl put s) = look s := by
  induction bs generalizing s with
  | nil => rfl
  | cons b rest ih => rw [List.foldl_cons, ih, h]

/-- Reading an item and adding it, item by item, is reading all of them and adding them then. -/
theorem foldlM_map_eq (f : α → Except ε β) (add : σ → β → σ) (start : σ) (l : List α) :
    (l.foldlM (fun s a => (f a).map (add s)) start)
      = (l.mapM f).map fun bs => bs.foldl add start := by
  induction l generalizing start with
  | nil => rfl
  | cons a rest ih =>
      rw [List.foldlM_cons, List.mapM_cons]
      cases f a with
      | error e => rfl
      | ok b =>
          show rest.foldlM _ (add start b) = _
          rw [ih]
          cases rest.mapM f <;> rfl

/-- A run over items and one more goes on from where the items led. -/
theorem foldlM_concat_eq_ok_iff (f : σ → α → Except ε σ) (s s' : σ) (l : List α) (a : α) :
    (l ++ [a]).foldlM f s = .ok s' ↔ ∃ middle, l.foldlM f s = .ok middle ∧ f middle a = .ok s' := by
  rw [List.foldlM_append, bind_eq_ok_iff]
  simp only [List.foldlM_cons, List.foldlM_nil, bind_pure]

/-! ## The first failure -/

/-- A run over items fails at the first one that cannot be taken. -/
theorem foldlM_eq_error_iff (f : σ → α → Except ε σ) (s : σ) (l : List α) (e : ε) :
    l.foldlM f s = .error e ↔ ∃ before a after s', l = before ++ a :: after ∧
      before.foldlM f s = .ok s' ∧ f s' a = .error e := by
  constructor
  · intro h
    induction l generalizing s with
    | nil => cases h
    | cons a rest ih =>
        rw [List.foldlM_cons, bind_eq_error_iff] at h
        rcases h with h | ⟨s₁, hs₁, h⟩
        · exact ⟨[], a, rest, s, rfl, rfl, h⟩
        · obtain ⟨before, b, after, s', rfl, hs', hb⟩ := ih s₁ h
          refine ⟨a :: before, b, after, s', rfl, ?_, hb⟩
          rw [List.foldlM_cons, bind_eq_ok_iff]
          exact ⟨s₁, hs₁, hs'⟩
  · intro hparts
    obtain ⟨before, a, after, s', rfl, hs', ha⟩ := hparts
    rw [List.foldlM_append, bind_eq_error_iff]
    refine .inr ⟨s', hs', ?_⟩
    rw [List.foldlM_cons, bind_eq_error_iff]
    exact .inl ha

theorem mapM_eq_error_iff (f : α → Except ε β) (l : List α) (e : ε) :
    l.mapM f = .error e ↔ ∃ before a after, l = before ++ a :: after ∧
      (∀ b ∈ before, ∃ c, f b = .ok c) ∧ f a = .error e := by
  have hfold := foldlM_map_eq f (fun bs b => bs ++ [b]) [] l
  have herror : l.mapM f = .error e
      ↔ l.foldlM (fun bs a => (f a).map (bs ++ [·])) [] = .error e := by
    rw [hfold, map_eq_error_iff]
  rw [herror, foldlM_eq_error_iff]
  simp only [map_eq_error_iff, foldlM_map_eq, map_eq_ok_iff, ← exists_mapM_iff]
  constructor
  · intro hparts
    obtain ⟨before, a, after, bs, hl, ⟨cs, hcs, -⟩, ha⟩ := hparts
    exact ⟨before, a, after, hl, ⟨cs, hcs⟩, ha⟩
  · intro hparts
    obtain ⟨before, a, after, hl, ⟨cs, hcs⟩, ha⟩ := hparts
    exact ⟨before, a, after, _, hl, ⟨cs, hcs, rfl⟩, ha⟩

/-- Where only some items have to be read, the first of these that cannot be read is to blame. -/
theorem mapM_filterMap_eq_error_iff (g : α → Option (Except ε β)) (l : List α) (e : ε) :
    (l.filterMap g).mapM id = .error e ↔ ∃ before a after, l = before ++ a :: after ∧
      (∀ b ∈ before, ∀ e', g b ≠ some (.error e')) ∧ g a = some (.error e) := by
  rw [mapM_eq_error_iff]
  constructor
  · intro hparts
    obtain ⟨readable, x, rest, hl, hreadable, rfl⟩ := hparts
    obtain ⟨first, others, rfl, hfirst, hothers⟩ := List.filterMap_eq_append_iff.mp hl
    obtain ⟨skipped, a, after, rfl, hskipped, ha, -⟩ := List.filterMap_eq_cons_iff.mp hothers
    refine ⟨first ++ skipped, a, after, by simp, ?_, ha⟩
    intro b hb e' he'
    rcases List.mem_append.mp hb with hb | hb
    · obtain ⟨c, hc⟩ := hreadable (.error e') (hfirst ▸ List.mem_filterMap.mpr ⟨b, hb, he'⟩)
      cases hc
    · rw [hskipped b hb] at he'
      cases he'
  · intro hparts
    obtain ⟨before, a, after, rfl, hbefore, ha⟩ := hparts
    refine ⟨before.filterMap g, .error e, after.filterMap g, by simp [ha], ?_, rfl⟩
    intro x hx
    obtain ⟨b, hb, hx⟩ := List.mem_filterMap.mp hx
    cases x with
    | error e' => exact absurd hx (hbefore b hb e')
    | ok c => exact ⟨c, rfl⟩

end Namebridge.Traversal
