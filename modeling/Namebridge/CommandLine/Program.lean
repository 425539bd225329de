import Namebridge.Lookup.Renamer
import Namebridge.Run.Bridging

/-!
# The program

What the program does with its arguments, and what it prints. `Outcome.ofArguments` works on any
host and reports events to it; `Transcript.ofArguments` is all that a run in a `World` can be seen
to print.
-/

namespace Namebridge.CommandLine

/-- Whether an event is shown. Asking for more twice shows everything. -/
def shows (verbosity : Nat) (event : Event) : Bool :=
  event.level.rank ≤ Level.info.rank + verbosity

/-- The line that shows an event. -/
def eventLine (event : Event) : String :=
  s!"[{event.level.name} {event.origin}] {event.message}"

/-- What is printed in place of a name that does not change. -/
def unmapped : String := "unmapped"

/-- The new name that a query asks for. -/
def Query.newName (r : Renamer) : Query → Reporting (Option String)
  | classNamed name => pure (r.class? name)
  | field owner name => pure (r.field? owner name)
  | method owner name descriptor => r.rename (.method owner name descriptor (name = "<init>")) name

section

variable {m : Type → Type} [Monad m] [Host m]

/-- Where files are cached. -/
def Job.cacheDirectory (job : Job) : Path := job.cache.getD (Config.defaultCache job.config)

/-- Bridges the mappings, writes their listings and makes sure that the sources are there. -/
def compose (config : Config) (cache : Path) : ExceptT Failure m Unit := do
  let bridging ← Bridging.ofConfig config cache
  bridging.writeListings cache
  let files ← Bridging.attempt .sources (Sources.find config.sourceRoot config.classpath)
  let mappings := bridging.mappings
  let index ← Bridging.settle .memberKey (ClassIndex.ofMappings mappings)
  Host.report
    (.bridged mappings.classes.size mappings.fields.size mappings.methods.size
      config.direction.source config.direction.target)
  Host.report
    (.ready files.length config.sourceRoot.text config.targetRoot.text index.size)

/-- Bridges the mappings and looks up a single name. -/
def lookup (config : Config) (cache : Path) (query : Query) :
    ExceptT Failure m (Option String) := do
  let bridging ← Bridging.ofConfig config cache
  let index ← Bridging.settle .memberKey (ClassIndex.ofMappings bridging.mappings)
  Host.announce (query.newName { index })

/-- Does a job, and answers with the lines to print. -/
def Job.perform (job : Job) : ExceptT Failure m (List String) := do
  let config ← Bridging.readConfig job.config
  match job.task with
  | .compose =>
      compose config job.cacheDirectory
      return []
  | .lookup query =>
      let name ← lookup config job.cacheDirectory query
      return [name.getD unmapped]

/-- How the program ended. -/
inductive Outcome where
  | printed (lines : List String)
  | failed (failure : Failure)
  | misused (misuse : Misuse)
deriving DecidableEq

namespace Outcome

/-- The name and version of the program. -/
def versionLine : String := programName ++ " 0.1.0"

/-- How the program is used. -/
def helpLines : List String :=
  ["Finds the names of one naming scheme that belong to those of another one.",
    "",
    "Usage:",
    s!"  {programName} [-v] compose -c FILE [--cache DIRECTORY]",
    s!"  {programName} [-v] lookup -c FILE [--cache DIRECTORY] class NAME",
    s!"  {programName} [-v] lookup -c FILE [--cache DIRECTORY] field CLASS NAME",
    s!"  {programName} [-v] lookup -c FILE [--cache DIRECTORY] method CLASS NAME DESCRIPTOR"]

/-- The exit status of the program. -/
def status : Outcome → Nat
  | printed _ => 0
  | failed _ => 1
  | misused _ => 2

/-- The lines that the program prints as its output. -/
def output : Outcome → List String
  | printed lines => lines
  | _ => []

/-- The lines that the program prints to say what went wrong. -/
def complaints : Outcome → List String
  | printed _ => []
  | failed failure => failure.report
  | misused misuse => ["error: " ++ misuse.message]

/-- The outcome if no job is to be done. -/
def ofHalt : Halt → Outcome
  | .version => printed [versionLine]
  | .help => printed helpLines
  | .misuse misuse => misused misuse

/-- Does a job. -/
def ofJob (job : Job) : m Outcome := do
  match ← job.perform.run with
  | .ok lines => return printed lines
  | .error failure => return failed failure

/-- Does what the arguments ask for. -/
def ofArguments (arguments : List String) : m Outcome := do
  match (← Host.readers).arguments arguments with
  | .ok job => ofJob job
  | .error halt => return ofHalt halt

end Outcome

end

/-- All that can be seen of a run of the program. -/
structure Transcript where
  status : Nat
  output : List String
  /-- The events shown, and what went wrong. -/
  messages : List String
deriving DecidableEq

namespace Transcript

/-- How much of its events a run with these arguments shows. -/
def verbosity (readers : Readers) (arguments : List String) : Nat :=
  match readers.arguments arguments with
  | .ok job => job.verbosity
  | .error _ => 0

/-- Runs the program in a world. -/
def ofArguments (arguments : List String) (w : World) : Transcript :=
  let program : InWorld Outcome := Outcome.ofArguments arguments
  let (outcome, after) := program.run { w with events := [] }
  let shown := after.events.filter (shows (verbosity w.readers arguments))
  { status := outcome.status
    output := outcome.output
    messages := shown.map eventLine ++ outcome.complaints }

end Transcript

end Namebridge.CommandLine
