import Namebridge.Text.Quoted

/-!
# Events

What a run reports on its way. `Event` lists all there is to report. Each kind has a level, which
decides whether a reader wants to see it, an origin, and a wording.

A computation that reports something and does nothing else beside is a `Reporting` value: its result
with the events in the order in which they happened.
-/

namespace Namebridge

/-- How much an event matters. -/
inductive Level where
  | warn
  | info
  | debug
  | trace
deriving DecidableEq, Repr

namespace Level

/-- The name of the level. -/
def name : Level → String
  | warn => "WARN"
  | info => "INFO"
  | debug => "DEBUG"
  | trace => "TRACE"

/-- The levels in order, those that matter most first. -/
def rank : Level → Nat
  | warn => 1
  | info => 2
  | debug => 3
  | trace => 4

end Level

/-- What can happen on the way. -/
inductive Event where
  /-- A table was read from a file in tiny format. -/
  | tinyRead (classes fields methods : Nat)
  /-- A patch gave a class another name than the table did. -/
  | patched (name old new : String)
  /-- A method without an entry of its own was taken for another one of the same name. -/
  | recovered (owner name descriptor foundName foundDescriptor newName : String)
  /-- A listing of a table was written. -/
  | listed (entries : Nat) (path : String)
  /-- A file of the cache was used in place of a download. -/
  | cacheHit (path url : String)
  /-- A file is about to be downloaded. -/
  | downloading (url : String)
  /-- Both given mappings were read. -/
  | bothRead (mcpClasses yarnClasses : Nat)
  /-- Fewer classes than expected have names in both schemes. -/
  | fewClasses (count minimum : Nat)
  /-- The source files were found. -/
  | sourcesFound (count : Nat) (root : String)
  /-- The mapping is complete. -/
  | bridged (classes fields methods : Nat) (source target : String)
  /-- The names in the source files can be changed. -/
  | ready (files : Nat) (source target : String) (classes : Nat)
deriving DecidableEq, Repr

namespace Event

def level : Event → Level
  | tinyRead .. => .trace
  | patched .. | listed .. | cacheHit .. | sourcesFound .. => .debug
  | downloading .. | bothRead .. | bridged .. | ready .. => .info
  | recovered .. | fewClasses .. => .warn

/-- The part of the program that reports the event. -/
def origin : Event → String
  | tinyRead .. => "mappings_chain::tiny"
  | patched .. => "mappings_chain::patch"
  | recovered .. => "mappings_chain::remapper"
  | listed .. => "mappings_chain::debug"
  | cacheHit .. | downloading .. => "devoldefy::download"
  | bothRead .. | fewClasses .. | sourcesFound .. => "devoldefy::pipeline"
  | bridged .. | ready .. => "devoldefy"

def message : Event → String
  | tinyRead classes fields methods =>
      s!"read {classes} classes, {fields} fields, {methods} methods from tiny file"
  | patched name old new =>
      let arrow := s!"{Text.quoted name} -> {Text.quoted old}"
      s!"class patch replaced {arrow} with {Text.quoted new}"
  | recovered owner name descriptor foundName foundDescriptor newName =>
      s!"recovered dubious mapping for {owner}.{name}{descriptor}: "
        ++ s!"using {foundName}{foundDescriptor} -> {newName}"
  | listed entries path => s!"wrote {entries} entries to {Text.quoted path}"
  | cacheHit path url => s!"using cached {Text.quoted path} for {Text.quoted url}"
  | downloading url => s!"downloading {url}"
  | bothRead mcpClasses yarnClasses =>
      s!"read {mcpClasses} mcp classes and {yarnClasses} yarn classes"
  | fewClasses count minimum =>
      s!"only {count} classes were mapped, expected at least {minimum}. Maybe the mappings were "
        ++ "downloaded incompletely, try to delete the cache."
  | sourcesFound count root => s!"found {count} source files in {Text.quoted root}"
  | bridged classes fields methods source target =>
      s!"mapped {classes} classes, {fields} fields and {methods} methods from {source} to {target}"
  | ready files source target classes =>
      s!"{files} source files in {Text.quoted source} are ready to be rewritten into "
        ++ s!"{Text.quoted target}, using {classes} classes with members"

end Event

/-- A result, and what was reported before it was there. -/
@[ext] structure Reporting (α : Type) where
  value : α
  events : List Event := []
deriving DecidableEq

namespace Reporting

instance : Monad Reporting where
  pure a := ⟨a, []⟩
  bind r f :=
    let s := f r.value
    ⟨s.value, r.events ++ s.events⟩

/-- Reports an event. -/
def report (event : Event) : Reporting Unit := ⟨(), [event]⟩

@[simp] theorem value_pure {α : Type} (a : α) : (pure a : Reporting α).value = a := rfl

@[simp] theorem events_pure {α : Type} (a : α) : (pure a : Reporting α).events = [] := rfl

@[simp] theorem value_bind {α β : Type} (r : Reporting α) (f : α → Reporting β) :
    (r >>= f).value = (f r.value).value := rfl

@[simp] theorem events_bind {α β : Type} (r : Reporting α) (f : α → Reporting β) :
    (r >>= f).events = r.events ++ (f r.value).events := rfl

instance : LawfulMonad Reporting := LawfulMonad.mk' _
  (fun _ => by simp [Functor.map])
  (fun _ _ => by simp [Reporting.ext_iff])
  (fun _ _ _ => by simp [Reporting.ext_iff])

end Reporting

end Namebridge
