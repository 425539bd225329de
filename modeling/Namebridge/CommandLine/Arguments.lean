import Namebridge.Host.Path
import Namebridge.Text.Cut
import Namebridge.Text.Quoted

/-!
# Arguments

The program has two commands, and one of them has three kinds of queries below it:

    [-v] compose -c FILE [--cache DIRECTORY]
    [-v] lookup -c FILE [--cache DIRECTORY] class NAME
    [-v] lookup -c FILE [--cache DIRECTORY] field CLASS NAME
    [-v] lookup -c FILE [--cache DIRECTORY] method CLASS NAME DESCRIPTOR

Arguments are read one after the other. What an argument means depends on the scope, which is the
command or query that was named last: the options with files belong to a command and stand before
the query. After `--` all arguments are words, whatever they start with.
-/

namespace Namebridge.CommandLine

/-- What is looked up. -/
inductive Query where
  | classNamed (name : String)
  | field (owner name : String)
  | method (owner name descriptor : String)
deriving DecidableEq, Repr

/-- What the program can be asked to do. -/
inductive Task where
  | compose
  | lookup (query : Query)
deriving DecidableEq, Repr

/-- A task with the files it is done with, and how much of it is to be reported. -/
structure Job where
  task : Task
  config : Path
  cache : Option Path
  verbosity : Nat
deriving DecidableEq, Repr

/-- An option that has a value. -/
inductive FileOption where
  | config
  | cache
deriving DecidableEq, Repr

def FileOption.name : FileOption → String
  | config => "--config"
  | cache => "--cache"

/-- Why arguments are no job. -/
inductive Misuse where
  | unknownOption (argument : String)
  | unexpectedWord (word : String)
  | unexpectedValue (argument : String)
  | noValue (option : FileOption)
  | repeated (option : FileOption)
  | noConfig
  | noCommand
  | noQuery
  | fewWords
deriving DecidableEq, Repr

def Misuse.message : Misuse → String
  | unknownOption argument => s!"there is no option {Text.quoted argument} here"
  | unexpectedWord word => s!"nothing is expected here, but there is {Text.quoted word}"
  | unexpectedValue argument => s!"{Text.quoted argument} gives a value to an option without one"
  | noValue option => s!"{option.name} has no value"
  | repeated option => s!"{option.name} is given more than once"
  | noConfig => s!"{FileOption.config.name} is missing"
  | noCommand => "there is no command"
  | noQuery => "there is no query"
  | fewWords => "the query is not complete"

/-- What ends the reading of arguments before a job is known. -/
inductive Halt where
  | version
  | help
  | misuse (m : Misuse)
deriving DecidableEq, Repr

/-! ## Scopes -/

/-- What was named last. -/
inductive Scope where
  | program
  | compose
  | lookup
  | classQuery
  | fieldQuery
  | methodQuery
deriving DecidableEq, Repr

namespace Scope

/-- The scope that a word leads to. -/
def below? : Scope → String → Option Scope
  | program, "compose" => some compose
  | program, "lookup" => some lookup
  | lookup, "class" => some classQuery
  | lookup, "field" => some fieldQuery
  | lookup, "method" => some methodQuery
  | _, _ => none

/-- Whether words can lead further. -/
def hasBelow : Scope → Bool
  | program | lookup => true
  | _ => false

/-- Whether the options with files can stand here. -/
def hasFiles : Scope → Bool
  | compose | lookup => true
  | _ => false

/-- How many words are expected here. -/
def words : Scope → Nat
  | program | compose | lookup => 0
  | classQuery => 1
  | fieldQuery => 2
  | methodQuery => 3

end Scope

/-! ## Reading -/

/-- How the next argument is to be read. -/
inductive Mode where
  | free
  /-- It is the value of an option. -/
  | valueOf (option : FileOption)
  /-- It is a word, whatever it looks like. -/
  | wordsOnly
  /-- It says what is to be explained. -/
  | helping
deriving DecidableEq, Repr

/-- What the arguments so far say. -/
structure Reading where
  scope : Scope := .program
  mode : Mode := .free
  /-- How often it was asked for more reports, in the last scope where it was. -/
  verbosity : Nat := 0
  /-- How often it was asked for in this scope. -/
  verbosityHere : Nat := 0
  config : Option Path := none
  cache : Option Path := none
  words : List String := []
deriving DecidableEq, Repr

namespace Reading

/-- How much is to be reported. The deepest scope in which something is said about it counts. -/
def verbosityNow (r : Reading) : Nat := if r.verbosityHere = 0 then r.verbosity else r.verbosityHere

/-- Goes to a scope below. -/
def descend (r : Reading) (scope : Scope) : Reading :=
  { r with scope, verbosity := r.verbosityNow, verbosityHere := 0 }

/-- Asks for more reports. -/
def louder (r : Reading) : Reading := { r with verbosityHere := r.verbosityHere + 1 }

/-- Adds a word, if one is expected. -/
def addWord (r : Reading) (word : String) : Except Halt Reading :=
  if r.words.length < r.scope.words then .ok { r with words := r.words ++ [word] }
  else .error (.misuse (.unexpectedWord word))

/-- Gives an option its value, which it must not have yet. -/
def setOption (r : Reading) (option : FileOption) (value : String) : Except Halt Reading :=
  if value = "" then .error (.misuse (.noValue option))
  else match option with
    | .config =>
        if r.config.isSome then .error (.misuse (.repeated .config))
        else .ok { r with config := some ⟨value⟩, mode := .free }
    | .cache =>
        if r.cache.isSome then .error (.misuse (.repeated .cache))
        else .ok { r with cache := some ⟨value⟩, mode := .free }

/-- Reads an option with a value, which is in the same argument or in the next one. -/
def readFileOption (r : Reading) (option : FileOption) : Option String → Except Halt Reading
  | some value => r.setOption option value
  | none => .ok { r with mode := .valueOf option }

/-- Reads an option by its long name. -/
def readLong (r : Reading) (argument name : String) (value : Option String) :
    Except Halt Reading :=
  let switch (result : Except Halt Reading) : Except Halt Reading :=
    if value.isSome then .error (.misuse (.unexpectedValue argument)) else result
  let unknown : Except Halt Reading := .error (.misuse (.unknownOption argument))
  match name with
  | "verbose" => switch (.ok r.louder)
  | "help" => switch (.error .help)
  | "version" => if r.scope = .program then switch (.error .version) else unknown
  | "config" => if r.scope.hasFiles then r.readFileOption .config value else unknown
  | "cache" => if r.scope.hasFiles then r.readFileOption .cache value else unknown
  | _ => unknown

/-- Reads options by their letters. The letters after `c` are its value, with or without `=`. -/
def readLetters (r : Reading) (argument : String) : List Char → Except Halt Reading
  | [] => .ok r
  | 'v' :: later => r.louder.readLetters argument later
  | 'h' :: _ => .error .help
  | letter :: later =>
      if letter = 'V' && r.scope = .program then .error .version
      else if letter = 'c' && r.scope.hasFiles then
        r.readFileOption .config <| match later with
          | [] => none
          | '=' :: value => some (String.ofList value)
          | value => some (String.ofList value)
      else .error (.misuse (.unknownOption argument))

/-- Reads a word that is no option. -/
def readWord (r : Reading) (word : String) : Except Halt Reading :=
  match r.scope.below? word with
  | some scope => .ok (r.descend scope)
  | none =>
      if word = "help" && r.scope.hasBelow then .ok { r with mode := .helping }
      else r.addWord word

/-- Whether an argument is an option, or ends the options. -/
def isOption (argument : String) : Bool :=
  match argument.toList with
  | '-' :: _ :: _ => true
  | _ => false

/-- Reads an argument that can be an option. -/
def readFree (r : Reading) (argument : String) : Except Halt Reading :=
  match argument.toList with
  | ['-', '-'] => .ok { r with mode := .wordsOnly }
  | '-' :: '-' :: text =>
      match Text.cutFirst? '=' (String.ofList text) with
      | some (name, value) => r.readLong argument name (some value)
      | none => r.readLong argument (String.ofList text) none
  | '-' :: letter :: later => r.readLetters argument (letter :: later)
  | _ => r.readWord argument

/-- Reads the next argument. -/
def next (r : Reading) (argument : String) : Except Halt Reading :=
  match r.mode with
  | .free => r.readFree argument
  | .valueOf option =>
      if isOption argument then .error (.misuse (.noValue option))
      else r.setOption option argument
  | .wordsOnly => r.addWord argument
  | .helping =>
      match r.scope.below? argument with
      | some scope => .ok (r.descend scope)
      | none => .error (.misuse (.unexpectedWord argument))

/-- The task that was named. -/
def task (r : Reading) : Except Halt Task :=
  match r.scope, r.words with
  | .program, _ => .error (.misuse .noCommand)
  | .compose, _ => .ok .compose
  | .lookup, _ => .error (.misuse .noQuery)
  | .classQuery, [name] => .ok (.lookup (.classNamed name))
  | .fieldQuery, [owner, name] => .ok (.lookup (.field owner name))
  | .methodQuery, [owner, name, descriptor] => .ok (.lookup (.method owner name descriptor))
  | _, _ => .error (.misuse .fewWords)

/-- The job that the arguments describe, when there are no more. -/
def finish (r : Reading) : Except Halt Job := do
  match r.mode with
  | .helping => throw .help
  | .valueOf option => throw (.misuse (.noValue option))
  | _ =>
      let task ← r.task
      let some config := r.config | throw (.misuse .noConfig)
      return { task, config, cache := r.cache, verbosity := r.verbosityNow }

end Reading

/-- Reads the arguments of the program. -/
def readArguments (arguments : List String) : Except Halt Job := do
  (← arguments.foldlM Reading.next {}).finish

example :
    readArguments ["-v", "lookup", "-c=a", "-vv", "class", "--", "-x"] =
      .ok ⟨.lookup (.classNamed "-x"), ⟨"a"⟩, none, 2⟩ := rfl

example : readArguments ["lookup", "class", "-c", "a"] = .error (.misuse (.unknownOption "-c")) :=
  rfl

end Namebridge.CommandLine
