import Namebridge.Proofs.Inheritance

/-!
# Methods without an entry

A method is found by its name and descriptor wherever it stands in the hierarchy. Only if no class
of the hierarchy has it so, it is taken for the nearest one of its name, and that is reported, once,
even if the name stays as it is: `RenamesMethod`. All other bindings are renamed without a report.
`rename_recovers` says this of every renamer.
-/

namespace Namebridge.Renamer

variable {r : Renamer} {owner name descriptor identifier : String}

/-! ## Methods -/

/-- A class of the hierarchy has the method with exactly this name and descriptor. -/
def Knows (r : Renamer) (owner name descriptor : String) : Prop :=
  ∃ c newName, r.hierarchy.AtOrAbove owner c ∧ r.HasMethod name descriptor c newName

/-- A class of the hierarchy has a method of this name. -/
def KnowsName (r : Renamer) (owner name : String) : Prop :=
  ∃ descriptor, r.Knows owner name descriptor

/-- The answer for an identifier that is to get this name. -/
def answer (identifier newName : String) : Option String :=
  if newName = identifier then none else some newName

theorem answer_ne_self (identifier newName : String) :
    answer identifier newName ≠ some identifier := by
  rw [answer]
  split
  · simp
  · rename_i hne
    simpa using hne

/-- What comes of renaming a method. -/
inductive MethodRenamed (r : Renamer) (owner name descriptor identifier : String) :
    Reporting (Option String) → Prop
  /-- The nearest class that has exactly this method gives the name. -/
  | exact {newName : String}
      (hnearest : r.hierarchy.Nearest (r.HasMethod name descriptor) owner newName) :
      MethodRenamed r owner name descriptor identifier ⟨answer identifier newName, []⟩
  /-- Without one, the nearest class that has methods of this name gives that of its first one. -/
  | guessed {found : Namesake} (hknows : ¬ r.Knows owner name descriptor)
      (hnearest : r.hierarchy.Nearest (r.HasNamesake name) owner found) :
      MethodRenamed r owner name descriptor identifier
        ⟨answer identifier found.newName,
          [.recovered owner name descriptor found.name found.descriptor found.newName]⟩
  | unknown (hname : ¬ r.KnowsName owner name) :
      MethodRenamed r owner name descriptor identifier ⟨none, []⟩

theorem value_rename (r : Renamer) (binding : Binding) (identifier : String) :
    (r.rename binding identifier).value = (r.newName binding).value.bind (answer identifier) := by
  rw [rename, Reporting.value_bind, Reporting.value_pure]
  cases (r.newName binding).value with
  | none => rfl
  | some newName => by_cases heq : newName = identifier <;> simp [answer, heq]

theorem events_rename (r : Renamer) (binding : Binding) (identifier : String) :
    (r.rename binding identifier).events = (r.newName binding).events := by
  rw [rename, Reporting.events_bind, Reporting.events_pure, List.append_nil]

theorem rename_eq_of_newName {binding : Binding} {newName : Option String} {events : List Event}
    (h : r.newName binding = ⟨newName, events⟩) (identifier : String) :
    r.rename binding identifier = ⟨newName.bind (answer identifier), events⟩ := by
  refine Reporting.ext ?_ ?_
  · rw [value_rename, h]
  · rw [events_rename, h]

theorem newName_of_method? {new : String} (h : r.method? owner name descriptor = some new) :
    r.newName (.method owner name descriptor false) = ⟨some new, []⟩ := by
  rw [newName, methodOrNamesake, h]
  rfl

theorem newName_of_namesake? {found : Namesake} (h : r.method? owner name descriptor = none)
    (hfound : r.namesake? owner name = some found) :
    r.newName (.method owner name descriptor false) = ⟨some found.newName,
      [.recovered owner name descriptor found.name found.descriptor found.newName]⟩ := by
  rw [newName, methodOrNamesake, h, hfound]
  rfl

theorem newName_of_none (h : r.method? owner name descriptor = none)
    (hfound : r.namesake? owner name = none) :
    r.newName (.method owner name descriptor false) = ⟨none, []⟩ := by
  rw [newName, methodOrNamesake, h, hfound]
  rfl

theorem newName_constructor (r : Renamer) (cls name descriptor : String) :
    r.newName (.method cls name descriptor true) = ⟨some (r.constructorName cls), []⟩ := rfl

theorem newName_classNamed (r : Renamer) (cls : String) :
    r.newName (.classNamed cls) = ⟨(r.class? cls).map ClassName.simple, []⟩ := rfl

/-- A namesake is a method of the class. -/
theorem HasNamesake.hasMethod {c : String} {found : Namesake} (h : r.HasNamesake name c found) :
    r.HasMethod name found.descriptor c found.newName := by
  obtain ⟨entry, before, after, hentry, -, hmethods, -⟩ := h
  refine ⟨entry, hentry, ?_⟩
  rw [← OrderedMap.mem_entries_iff, hmethods]
  simp

/-- A class has a method of a name exactly if it has a first one. -/
theorem exists_hasNamesake_iff (r : Renamer) (name c : String) :
    (∃ found, r.HasNamesake name c found) ↔
      ∃ descriptor newName, r.HasMethod name descriptor c newName := by
  constructor
  · intro hfound
    obtain ⟨found, hfound⟩ := hfound
    exact ⟨found.descriptor, found.newName, hfound.hasMethod⟩
  · intro hmethod
    obtain ⟨descriptor, newName, entry, hentry, hget⟩ := hmethod
    have hmem := (entry.methods.mem_entries_iff _ _).mpr hget
    cases hown : r.ownNamesake? name c with
    | some found => exact ⟨found, (r.ownNamesake?_eq_some_iff name c found).mp hown⟩
    | none =>
        rw [ownNamesake?, hentry, Option.bind_some, Option.map_eq_none_iff,
          List.find?_eq_none] at hown
        exact absurd (by simp) (hown _ hmem)

theorem method?_findsFirst (hacyclic : r.hierarchy.Acyclic owner) (name descriptor : String) :
    r.hierarchy.FindsFirst (r.HasMethod name descriptor) owner (r.method? owner name descriptor) :=
  Hierarchy.find?_findsFirst (r.ownMethod?_eq_some_iff name descriptor) hacyclic

theorem namesake?_findsFirst (hacyclic : r.hierarchy.Acyclic owner) (name : String) :
    r.hierarchy.FindsFirst (r.HasNamesake name) owner (r.namesake? owner name) :=
  Hierarchy.find?_findsFirst (r.ownNamesake?_eq_some_iff name) hacyclic

theorem method?_eq_none_iff (hacyclic : r.hierarchy.Acyclic owner) :
    r.method? owner name descriptor = none ↔ ¬ r.Knows owner name descriptor := by
  rw [(method?_findsFirst hacyclic name descriptor).none_iff]
  constructor
  · rintro h ⟨c, newName, hc, hmethod⟩
    exact h c hc newName hmethod
  · intro h c hc newName hmethod
    exact h ⟨c, newName, hc, hmethod⟩

theorem namesake?_eq_none_iff (hacyclic : r.hierarchy.Acyclic owner) :
    r.namesake? owner name = none ↔ ¬ r.KnowsName owner name := by
  rw [(namesake?_findsFirst hacyclic name).none_iff]
  constructor
  · rintro h ⟨descriptor, c, newName, hc, hmethod⟩
    obtain ⟨found, hfound⟩ := (r.exists_hasNamesake_iff name c).mpr ⟨descriptor, newName, hmethod⟩
    exact h c hc found hfound
  · intro h c hc found hfound
    obtain ⟨descriptor, newName, hmethod⟩ := (r.exists_hasNamesake_iff name c).mp ⟨found, hfound⟩
    exact h ⟨descriptor, c, newName, hc, hmethod⟩

theorem methodRenamed_rename (hacyclic : r.hierarchy.Acyclic owner) (identifier : String) :
    MethodRenamed r owner name descriptor identifier
      (r.rename (.method owner name descriptor false) identifier) := by
  cases hmethod : r.method? owner name descriptor with
  | some new =>
      rw [rename_eq_of_newName (newName_of_method? hmethod)]
      exact .exact (((method?_findsFirst hacyclic name descriptor).first_iff new).mp hmethod)
  | none =>
      have hknows := (method?_eq_none_iff hacyclic).mp hmethod
      cases hnamesake : r.namesake? owner name with
      | some found =>
          rw [rename_eq_of_newName (newName_of_namesake? hmethod hnamesake)]
          exact .guessed hknows
            (((namesake?_findsFirst hacyclic name).first_iff found).mp hnamesake)
      | none =>
          rw [rename_eq_of_newName (newName_of_none hmethod hnamesake)]
          exact .unknown ((namesake?_eq_none_iff hacyclic).mp hnamesake)

/-! ## What an outcome tells -/

section Outcome

variable {result : Reporting (Option String)}

theorem KnowsName.of_knows (hknows : r.Knows owner name descriptor) : r.KnowsName owner name :=
  ⟨descriptor, hknows⟩

theorem knows_of_nearest {new : String}
    (hnearest : r.hierarchy.Nearest (r.HasMethod name descriptor) owner new) :
    r.Knows owner name descriptor := by
  obtain ⟨c, hc, hmethod⟩ := hnearest.exists_atOrAbove
  exact ⟨c, new, hc, hmethod⟩

theorem knowsName_of_nearest {found : Namesake}
    (hnearest : r.hierarchy.Nearest (r.HasNamesake name) owner found) :
    r.KnowsName owner name := by
  obtain ⟨c, hc, hfound⟩ := hnearest.exists_atOrAbove
  obtain ⟨descriptor, new, hmethod⟩ := (r.exists_hasNamesake_iff name c).mp ⟨found, hfound⟩
  exact ⟨descriptor, c, new, hc, hmethod⟩

theorem MethodRenamed.warns_iff (h : MethodRenamed r owner name descriptor identifier result) :
    (∃ e ∈ result.events, e.level = .warn) ↔
      ¬ r.Knows owner name descriptor ∧ r.KnowsName owner name := by
  cases h with
  | exact hnearest => simp [knows_of_nearest hnearest]
  | guessed hknows hnearest => simp [hknows, knowsName_of_nearest hnearest, Event.level]
  | unknown hname => simp [hname]

theorem MethodRenamed.warns_once (h : MethodRenamed r owner name descriptor identifier result) :
    result.events.length ≤ 1 := by
  cases h <;> simp

theorem MethodRenamed.exact_wins (h : MethodRenamed r owner name descriptor identifier result)
    (hknows : r.Knows owner name descriptor) :
    ∃ new, r.hierarchy.Nearest (r.HasMethod name descriptor) owner new ∧
      result = ⟨answer identifier new, []⟩ := by
  cases h with
  | exact hnearest => exact ⟨_, hnearest, rfl⟩
  | guessed hunknown _ => exact absurd hknows hunknown
  | unknown hname => exact absurd (KnowsName.of_knows hknows) hname

end Outcome

/-- How a method that is no constructor is renamed. -/
structure RenamesMethod (r : Renamer) (owner name descriptor identifier : String) : Prop where
  outcome : MethodRenamed r owner name descriptor identifier
    (r.rename (.method owner name descriptor false) identifier)
  /-- There is a warning exactly if all methods of this name have other descriptors. -/
  warns_iff :
    (∃ e ∈ (r.rename (.method owner name descriptor false) identifier).events, e.level = .warn) ↔
      ¬ r.Knows owner name descriptor ∧ r.KnowsName owner name
  /-- Nothing is reported twice. -/
  warns_once : (r.rename (.method owner name descriptor false) identifier).events.length ≤ 1
  /-- An exact match gives the name, wherever it stands. -/
  exact_wins : r.Knows owner name descriptor →
    ∃ new, r.hierarchy.Nearest (r.HasMethod name descriptor) owner new ∧
      r.rename (.method owner name descriptor false) identifier = ⟨answer identifier new, []⟩

theorem renamesMethod (r : Renamer) (name descriptor identifier : String)
    (hacyclic : r.hierarchy.Acyclic owner) : RenamesMethod r owner name descriptor identifier :=
  have houtcome := methodRenamed_rename hacyclic identifier
  ⟨houtcome, houtcome.warns_iff, houtcome.warns_once, houtcome.exact_wins⟩

/-! ## All bindings -/

/-- How everything is renamed. -/
structure RenamesAsFound (r : Renamer) : Prop where
  method : ∀ owner name descriptor identifier, r.hierarchy.Acyclic owner →
    RenamesMethod r owner name descriptor identifier
  /-- Only methods that are no constructors can be reported. -/
  silent : ∀ binding identifier,
    (∀ owner name descriptor, binding ≠ .method owner name descriptor false) →
      (r.rename binding identifier).events = []
  /-- Where source code calls a class by its name, constructors are renamed as their class. -/
  constructor : ∀ cls name descriptor,
    r.rename (.method cls name descriptor true) (ClassName.simple cls)
      = r.rename (.classNamed cls) (ClassName.simple cls)
  /-- No identifier is replaced by itself. -/
  changes : ∀ binding identifier, (r.rename binding identifier).value ≠ some identifier

/-- **A guess never wins over an exact match and is never silent**: a method is taken for another
one of its name only if no class of the hierarchy has the method itself, and then exactly one
warning tells of it. Nothing else is reported, constructors are renamed as their classes, and no
identifier is replaced by itself. -/
theorem rename_recovers (r : Renamer) : RenamesAsFound r where
  method _ name descriptor identifier := renamesMethod r name descriptor identifier
  silent binding identifier hplain := by
    rw [events_rename]
    cases binding with
    | classNamed name => rfl
    | field owner name => rfl
    | method owner name descriptor isConstructor =>
        cases isConstructor with
        | true => rfl
        | false => exact absurd rfl (hplain owner name descriptor)
  constructor cls name descriptor := by
    rw [rename_eq_of_newName (newName_constructor r cls name descriptor),
      rename_eq_of_newName (newName_classNamed r cls), constructorName]
    cases r.class? cls with
    | none => simp [answer]
    | some newName => simp
  changes binding identifier := by
    rw [value_rename]
    intro h
    obtain ⟨newName, -, hanswer⟩ := Option.bind_eq_some_iff.mp h
    exact answer_ne_self identifier newName hanswer

/-- The right side of the diamond has the method itself, though its top, which is nearer, has others
of that name. Without an exact match the first method of the top counts, and the warning is there
though the name stays. -/
theorem rename_recovers_diamond :
    diamond.hierarchy.Acyclic "mod/Bottom" ∧
      RenamesMethod diamond "mod/Bottom" "m" "(Z)V" "topLong" ∧
      diamond.rename (.method "mod/Bottom" "m" "()V" false) "m" = ⟨some "rightVoid", []⟩ ∧
      diamond.rename (.method "mod/Bottom" "m" "(Z)V" false) "topLong"
        = ⟨none, [.recovered "mod/Bottom" "m" "(Z)V" "m" "(J)V" "topLong"]⟩ :=
  ⟨acyclic_diamond _, (rename_recovers diamond).method _ _ _ _ (acyclic_diamond _), by decide,
    by decide⟩

end Namebridge.Renamer
