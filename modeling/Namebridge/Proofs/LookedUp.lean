import Namebridge.CommandLine.Program
import Namebridge.Proofs.Namesakes
import Namebridge.Proofs.Recovery
import Namebridge.Proofs.Running

/-!
# Names looked up

What a query finds is told by the tables of the bridged mapping alone (`Query.Finds`), and is never
more than one name. A lookup prints that name, or a word in place of it if there is none. A class or
a field that keeps its name is printed like all others, but a method that keeps its name is printed
as if it had none, because it is renamed and not looked up: `lookup_answers`.
-/

namespace Namebridge.CommandLine

/-! ## What is found -/

/-- A query has an answer in a mapping. -/
inductive Query.Finds (m : Mappings) : Query → String → Prop
  | classNamed {name target : String} (hget : m.classes.get? name = some target) :
      Finds m (.classNamed name) target
  /-- A class that only has members has its own name. -/
  | owner {name : String} (hnone : m.classes.get? name = none)
      (howner : name ∈ ClassIndex.owners m) : Finds m (.classNamed name) name
  | field {owner name target : String} (hfield : m.HasField owner name target) :
      Finds m (.field owner name) target
  | method {owner name descriptor target : String}
      (hmethod : m.HasMethod owner name descriptor target) :
      Finds m (.method owner name descriptor) target
  /-- Without an entry of its own, a method is taken for the first one of its name. -/
  | namesake {owner name descriptor other target : String}
      (hnone : ∀ target, ¬ m.HasMethod owner name descriptor target)
      (hfirst : m.FirstMethod owner name other target) :
      Finds m (.method owner name descriptor) target

/-- A method is asked for, and keeps its name if it gets this one. -/
def Query.Keeps : Query → String → Prop
  | method _ name _, new => new = name
  | _, _ => False

/-- Constructors are asked for. -/
def Query.OfConstructors : Query → Prop
  | method _ name _ => name = "<init>"
  | _ => False

/-- The name that a renamer finds for a query. -/
def Query.found? (r : Renamer) : Query → Option String
  | classNamed name => r.class? name
  | field owner name => r.field? owner name
  | method owner name descriptor =>
      (r.method? owner name descriptor).or ((r.namesake? owner name).map Renamer.Namesake.newName)

section

variable {m : Mappings} {index : ClassIndex}

theorem found?_classNamed_iff (h : ClassIndex.ofMappings m = .ok index) (name target : String) :
    (Query.classNamed name).found? ⟨index, .flat⟩ = some target ↔
      Query.Finds m (.classNamed name) target := by
  have hclass : (Query.classNamed name).found? ⟨index, .flat⟩ = _ :=
    ClassIndex.class?_ofMappings h name
  rw [hclass]
  constructor
  · intro hfound
    cases hget : m.classes.get? name with
    | some new =>
        rw [hget, Option.some_or] at hfound
        exact .classNamed (hget.trans hfound)
    | none =>
        rw [hget, Option.none_or] at hfound
        split at hfound
        · rename_i howner
          cases hfound
          exact .owner hget howner
        · cases hfound
  · intro hfinds
    cases hfinds with
    | classNamed hget => rw [hget, Option.some_or]
    | owner hnone howner => rw [hnone, Option.none_or, if_pos howner]

theorem found?_field_iff (h : ClassIndex.ofMappings m = .ok index) (owner name target : String) :
    (Query.field owner name).found? ⟨index, .flat⟩ = some target ↔
      Query.Finds m (.field owner name) target := by
  rw [Query.found?, Renamer.field?_flat, ClassIndex.field?_eq_some_iff_hasField h]
  constructor
  · exact .field
  · rintro ⟨⟩
    assumption

theorem found?_method_iff (h : ClassIndex.ofMappings m = .ok index)
    (owner name descriptor target : String) :
    (Query.method owner name descriptor).found? ⟨index, .flat⟩ = some target ↔
      Query.Finds m (.method owner name descriptor) target := by
  have hmethod := ClassIndex.method?_eq_some_iff_hasMethod h owner name descriptor
  rw [Query.found?, Renamer.method?_flat]
  cases hown : index.method? owner name descriptor with
  | some new =>
      rw [Option.some_or]
      have hnew := (hmethod new).mp hown
      constructor
      · rintro ⟨⟩
        exact .method hnew
      · intro hfinds
        cases hfinds with
        | method hmethod' => rw [← hown, (hmethod target).mpr hmethod']
        | namesake hnone => exact absurd hnew (hnone new)
  | none =>
      -- no method has exactly this descriptor, so that the first one of its name counts
      have hnone : ∀ target, ¬ m.HasMethod owner name descriptor target := fun target htarget => by
        rw [(hmethod target).mpr htarget] at hown
        cases hown
      rw [Option.none_or, Option.map_eq_some_iff]
      simp only [Renamer.namesake?_flat_iff h]
      constructor
      · rintro ⟨found, ⟨-, hfirst⟩, rfl⟩
        exact .namesake hnone hfirst
      · intro hfinds
        cases hfinds with
        | method hmethod' => exact absurd hmethod' (hnone target)
        | @namesake _ _ _ other _ _ hfirst => exact ⟨⟨name, other, target⟩, ⟨rfl, hfirst⟩, rfl⟩

/-- A renamer finds what the tables say. -/
theorem found?_eq_some_iff (h : ClassIndex.ofMappings m = .ok index) (query : Query)
    (target : String) :
    query.found? ⟨index, .flat⟩ = some target ↔ query.Finds m target := by
  cases query with
  | classNamed name => exact found?_classNamed_iff h name target
  | field owner name => exact found?_field_iff h owner name target
  | method owner name descriptor => exact found?_method_iff h owner name descriptor target

end

/-! ## What is answered -/

/-- A method that is asked for gets the name that is found. -/
theorem value_newName_method (r : Renamer) (owner name descriptor : String) :
    (r.newName (.method owner name descriptor false)).value
      = (Query.method owner name descriptor).found? r := by
  rw [Query.found?]
  cases hmethod : r.method? owner name descriptor with
  | some new => rw [Renamer.newName_of_method? hmethod, Option.some_or]
  | none =>
      cases hnamesake : r.namesake? owner name with
      | some found =>
          rw [Renamer.newName_of_namesake? hmethod hnamesake]
          rfl
      | none =>
          rw [Renamer.newName_of_none hmethod hnamesake]
          rfl

/-- A name that is found is the answer, unless a method keeps it. -/
theorem value_newName_eq_some_iff (r : Renamer) {query : Query} (hquery : ¬ query.OfConstructors)
    (new : String) :
    (query.newName r).value = some new ↔ query.found? r = some new ∧ ¬ query.Keeps new := by
  cases query with
  | classNamed name => exact (and_iff_left not_false).symm
  | field owner name => exact (and_iff_left not_false).symm
  | method owner name descriptor =>
      have hname : decide (name = "<init>") = false := decide_eq_false hquery
      rw [Query.newName, hname, Renamer.rename, Reporting.value_bind, Reporting.value_pure,
        value_newName_method, Option.filter_eq_some_iff]
      simp [Query.Keeps]

/-- What a line tells about a query. -/
structure Answers (m : Mappings) (query : Query) (line : String) : Prop where
  /-- There is at most one name to be found. -/
  unique : ∀ a b, query.Finds m a → query.Finds m b → a = b
  /-- It is the line, whether it is a new one or not, except for a method that keeps it. -/
  found : ∀ name, query.Finds m name → ¬ query.Keeps name → line = name
  /-- The line is the word for no mapping if no name is found, if a method keeps its name, and if
  this word is the name. -/
  unmapped_iff : line = unmapped ↔
    ∀ name, query.Finds m name → query.Keeps name ∨ name = unmapped

theorem answers_of_newName {m : Mappings} {index : ClassIndex}
    (h : ClassIndex.ofMappings m = .ok index) {query : Query} (hquery : ¬ query.OfConstructors) :
    Answers m query (((query.newName ⟨index, .flat⟩).value).getD unmapped) := by
  have hvalue := value_newName_eq_some_iff ⟨index, .flat⟩ hquery
  simp only [found?_eq_some_iff h] at hvalue
  refine ⟨?unique, ?found, ?unmapped_iff⟩
  case unique =>
    intro a b ha hb
    rw [← found?_eq_some_iff h] at ha hb
    exact Option.some.inj (ha.symm.trans hb)
  case found =>
    intro name hfinds hkeeps
    rw [(hvalue name).mpr ⟨hfinds, hkeeps⟩, Option.getD_some]
  case unmapped_iff =>
    constructor
    · intro hline name hfinds
      refine or_iff_not_imp_left.mpr fun hkeeps => ?_
      rw [(hvalue name).mpr ⟨hfinds, hkeeps⟩, Option.getD_some] at hline
      exact hline
    · intro hall
      cases hnew : (query.newName ⟨index, .flat⟩).value with
      | none => rfl
      | some new =>
          obtain ⟨hfinds, hkeeps⟩ := (hvalue new).mp hnew
          exact (hall new hfinds).resolve_left hkeeps

/-! ## What is printed -/

/-- The arguments ask for this query, and the mapping that it is looked up in can be had and can be
grouped by class. -/
inductive LooksUp (arguments : List String) (w : World) : Query → Mappings → Prop
  | mk {job : Job} {query : Query} {config : Config} {b : Bridging} {index : ClassIndex}
      {w₁ w₂ : World} (hjob : w.readers.arguments arguments = .ok job)
      (htask : job.task = .lookup query)
      (hconfig : Runs (Bridging.readConfig job.config) { w with events := [] } config w₁)
      (hbridging : Runs (Bridging.ofConfig config job.cacheDirectory) w₁ b w₂)
      (hindex : ClassIndex.ofMappings b.mappings = .ok index) :
      LooksUp arguments w query b.mappings

/-- Without a cache of its own, a job has the default one. -/
theorem looksUp_of_runs {arguments : List String} {query : Query} {file : Path} {verbosity : Nat}
    {b : Bridging} {index : ClassIndex} {w w' : World}
    (hjob : w.readers.arguments arguments = .ok ⟨.lookup query, file, none, verbosity⟩)
    (hevents : w.events = [])
    (hrun : Runs (Bridging.readConfig file >>= fun config =>
      Bridging.ofConfig config (Config.defaultCache file)) w b w')
    (hindex : ClassIndex.ofMappings b.mappings = .ok index) :
    LooksUp arguments w query b.mappings := by
  have hw : { w with events := [] } = w := by rw [← hevents]
  have hcache : Job.cacheDirectory ⟨.lookup query, file, none, verbosity⟩
      = Config.defaultCache file := by rw [Job.cacheDirectory, Option.getD_none]
  obtain ⟨config, w₁, hconfig, hbridging⟩ := (runs_bind_iff _ _ _ _ _).mp hrun
  rw [← hw] at hconfig
  rw [← hcache] at hbridging
  exact .mk hjob rfl hconfig hbridging hindex

theorem run_ofArguments {arguments : List String} {job : Job} {w : World}
    (hjob : w.readers.arguments arguments = .ok job) :
    (Outcome.ofArguments arguments : InWorld Outcome).run w
      = (Outcome.ofJob job : InWorld Outcome).run w := by
  have hreaders : (Host.readers : InWorld Readers).run w = pure (w.readers, w) := rfl
  rw [Outcome.ofArguments, StateT.run_bind, hreaders, pure_bind, hjob]

theorem run_ofJob {job : Job} {w w' : World} {lines : List String}
    (h : Runs (job.perform : ExceptT Failure InWorld _) w lines w') :
    (Outcome.ofJob job : InWorld Outcome).run w = (.printed lines, w') := by
  have hrun : (ExceptT.run (job.perform : ExceptT Failure InWorld _) : InWorld _).run w
      = (.ok lines, w') := h
  rw [Outcome.ofJob, StateT.run_bind, hrun]
  rfl

/-- What a lookup answers, and what it reports at the end, is up to the index alone. -/
theorem runs_perform {job : Job} {query : Query} {config : Config} {b : Bridging}
    {index : ClassIndex} {w w₁ w₂ : World} (htask : job.task = .lookup query)
    (hconfig : Runs (Bridging.readConfig job.config) w config w₁)
    (hbridging : Runs (Bridging.ofConfig config job.cacheDirectory) w₁ b w₂)
    (hindex : ClassIndex.ofMappings b.mappings = .ok index) :
    Runs (job.perform : ExceptT Failure InWorld _) w
      [((query.newName ⟨index, .flat⟩).value).getD unmapped]
      (w₂.reported (query.newName ⟨index, .flat⟩).events) := by
  have hlookup : Runs (lookup config job.cacheDirectory query) w₁
      (query.newName ⟨index, .flat⟩).value (w₂.reported (query.newName ⟨index, .flat⟩).events) := by
    refine (runs_bind_iff _ _ _ _ _).mpr ⟨b, w₂, hbridging, ?_⟩
    refine (runs_bind_iff _ _ _ _ _).mpr ⟨index, w₂, (runs_ofExcept_iff _ _ _ _).mpr ⟨?_, rfl⟩, ?_⟩
    · exact (Traversal.mapError_eq_ok_iff _ _ _).mpr hindex
    · exact (runs_announce_iff _ _ _ _).mpr ⟨rfl, rfl⟩
  refine (runs_bind_iff _ _ _ _ _).mpr ⟨config, w₁, hconfig, ?_⟩
  rw [htask]
  exact (runs_bind_iff _ _ _ _ _).mpr ⟨_, _, hlookup, (runs_pure_iff _ _ _ _).mpr ⟨rfl, rfl⟩⟩

/-- A lookup succeeds and prints what is answered. -/
theorem printed_of_looksUp {arguments : List String} {w : World} {query : Query} {m : Mappings}
    (h : LooksUp arguments w query m) :
    ∃ index, ClassIndex.ofMappings m = .ok index ∧
      (Transcript.ofArguments arguments w).status = 0 ∧
      (Transcript.ofArguments arguments w).output
        = [((query.newName ⟨index, .flat⟩).value).getD unmapped] := by
  obtain ⟨hjob, htask, hconfig, hbridging, hindex⟩ := h
  have hrun := (run_ofArguments (w := { w with events := [] }) hjob).trans
    (run_ofJob (runs_perform htask hconfig hbridging hindex))
  refine ⟨_, hindex, ?_⟩
  rw [Transcript.ofArguments]
  simp only [hrun]
  exact ⟨rfl, rfl⟩

/-- **Names looked up**: where the mapping can be had and grouped by class, a lookup prints the name
that the tables have for the class, the field or the method, and the word for no mapping exactly if
there is none, except that it also prints this word for a method that keeps its name. -/
theorem lookup_answers {arguments : List String} {w : World} {query : Query} {m : Mappings}
    (h : LooksUp arguments w query m) (hquery : ¬ query.OfConstructors) :
    ∃ line, (Transcript.ofArguments arguments w).status = 0 ∧
      (Transcript.ofArguments arguments w).output = [line] ∧ Answers m query line := by
  obtain ⟨index, hindex, hstatus, houtput⟩ := printed_of_looksUp h
  exact ⟨_, hstatus, houtput, answers_of_newName hindex hquery⟩

/-- A network with mappings in which a class, a field and a method have one name in both schemes. -/
def sameNames : Network := fun earlier _ =>
  match earlier with
  | [] => .answered 200 <| some <| Archive.pack
      [(Bridging.fieldNames, Utf8.encode "i,n\nf,x\n"),
        (Bridging.methodNames, Utf8.encode "i,n\ns,set\n")]
  | [_] => .answered 200 <| some <| Utf8.encode "a A\n\tb f\n\tc ()V s\n"
  | _ => .answered 200 <| some <| Archive.pack
      [(Bridging.tinyEntry, Utf8.encode <|
        "v1\tofficial\tnamed\nCLASS\ta\tA\nFIELD\ta\tI\tb\tx\nMETHOD\ta\t()V\tc\tset\n")]

/-- A world with this network and a configuration that leaves out the patches. -/
def sameNamesWorld : World where
  files := { root := .file "c.json" (Utf8.encode
    "[\"1.14.3\",\"stable\",\"1\",\"1.14.4\",\"9\",\"a\",\"b\",[],[],true,false]") .empty }
  network := sameNames

/-- The mapping that is bridged there. -/
def sameNamesBridged : Mappings where
  classes := .ofPairs [("A", "A")]
  fields := .ofPairs [("A:x", "A:x")]
  methods := .ofPairs [("A:set()V", "A:set()V")]

theorem looksUp_sameNames {arguments : List String} {query : Query}
    (h : readArguments arguments = .ok ⟨.lookup query, ⟨"c.json"⟩, none, 0⟩) :
    LooksUp arguments sameNamesWorld query sameNamesBridged := by
  have hbridged : (outcome (Bridging.readConfig ⟨"c.json"⟩ >>= fun config =>
      Bridging.ofConfig config (Config.defaultCache ⟨"c.json"⟩)) sameNamesWorld).1.toOption.map
        Bridging.mappings = some sameNamesBridged := by decide +kernel
  obtain ⟨b, hb, hmappings⟩ := Option.map_eq_some_iff.mp hbridged
  obtain ⟨index, hindex⟩ := (ClassIndex.exists_ofMappings_iff sameNamesBridged).mpr (by decide)
  rw [← hmappings] at hindex ⊢
  exact looksUp_of_runs h rfl (runs_of_toOption hb) hindex

/-- A field that keeps its name is printed. -/
theorem lookup_answers_sameNames :
    ∃ line, (Transcript.ofArguments ["lookup", "-c", "c.json", "field", "A", "x"]
        sameNamesWorld).output = [line] ∧
      Answers sameNamesBridged (.field "A" "x") line ∧ line = "x" := by
  have hfinds : Query.Finds sameNamesBridged (.field "A" "x") "x" :=
    .field ⟨by decide, "A", by decide, by decide⟩
  have hlooksUp : LooksUp ["lookup", "-c", "c.json", "field", "A", "x"] sameNamesWorld
      (.field "A" "x") sameNamesBridged := looksUp_sameNames rfl
  obtain ⟨line, -, houtput, hanswers⟩ := lookup_answers hlooksUp not_false
  exact ⟨line, houtput, hanswers, hanswers.found "x" hfinds not_false⟩

/-- A method that keeps its name is not printed, although it is found. -/
theorem lookup_drops_sameName :
    LooksUp ["lookup", "-c", "c.json", "method", "A", "set", "()V"] sameNamesWorld
        (.method "A" "set" "()V") sameNamesBridged ∧
      Query.Finds sameNamesBridged (.method "A" "set" "()V") "set" ∧
      (Transcript.ofArguments ["lookup", "-c", "c.json", "method", "A", "set", "()V"]
        sameNamesWorld).output = ["unmapped"] := by
  have hlooksUp : LooksUp ["lookup", "-c", "c.json", "method", "A", "set", "()V"] sameNamesWorld
      (.method "A" "set" "()V") sameNamesBridged := looksUp_sameNames rfl
  have hfinds : Query.Finds sameNamesBridged (.method "A" "set" "()V") "set" :=
    .method ⟨by decide, by decide, by decide, "A", "set()V", by decide, by decide, by decide⟩
  have hquery : ¬ Query.OfConstructors (.method "A" "set" "()V") := by simp [Query.OfConstructors]
  obtain ⟨index, hindex, -, houtput⟩ := printed_of_looksUp hlooksUp
  have hanswers := answers_of_newName hindex hquery
  have hline := hanswers.unmapped_iff.mpr fun name hname => .inl (hanswers.unique _ _ hname hfinds)
  rw [hline] at houtput
  exact ⟨hlooksUp, hfinds, houtput⟩

end Namebridge.CommandLine
