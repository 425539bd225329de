import Namebridge.Event
import Namebridge.Host.Network
import Namebridge.Host.Readers
import Namebridge.Host.Walk

/-!
# The host of a run

What a run needs from the machine that it runs on: files, a network, readers for what is not in its
own formats, and somebody to report to. All that a run does is written for any `Host`, and all of it
can be run in a `World`, which is a value.
-/

namespace Namebridge

/-- The operations of a machine that runs can use. -/
class Host (m : Type → Type) where
  /-- Opens a file for reading. What is opened can still turn out to be unreadable. -/
  openFile : Path → m (Except OsError (Except OsError Bytes))
  /-- Whether there is something at a path. -/
  pathExists : Path → m Bool
  /-- Whether there is a directory at a path. -/
  isDirectory : Path → m Bool
  /-- Visits a directory and all that is below it. -/
  walk : Path → m (List (Except OsError Visited))
  /-- Makes a directory and all that lead to it. -/
  createDirectories : Path → m (Except OsError Unit)
  /-- Gives a file a content. -/
  writeFile : Path → Bytes → m (Except OsError Unit)
  /-- Requests a URL. -/
  request : String → m Exchange
  /-- The readers that there are. -/
  readers : m Readers
  /-- Reports an event. -/
  report : Event → m Unit

namespace Host

variable {m : Type → Type} [Monad m] [Host m]

/-- Reports the events of a result. -/
def announce {α : Type} (r : Reporting α) : m α := do
  r.events.forM report
  return r.value

/-- What can be done on a host can be done where failures are possible. -/
instance {ε : Type} : Host (ExceptT ε m) where
  openFile p := ExceptT.lift (openFile p)
  pathExists p := ExceptT.lift (pathExists p)
  isDirectory p := ExceptT.lift (isDirectory p)
  walk p := ExceptT.lift (walk p)
  createDirectories p := ExceptT.lift (createDirectories p)
  writeFile p content := ExceptT.lift (writeFile p content)
  request url := ExceptT.lift (request url)
  readers := ExceptT.lift readers
  report event := ExceptT.lift (report event)

end Host

/-- A machine as a value: its files and how they are walked, its network and its readers, the requests
that were made and the events that were reported, the latest last. -/
structure World where
  files : FileSystem := {}
  walk : Walk := FileSystem.walk
  network : Network := .offline
  readers : Readers := .standard
  requests : List String := []
  events : List Event := []

/-- What is done in a world. -/
abbrev InWorld := StateM World

namespace World

/-- Replaces the files of a world. -/
def setFiles (w : World) (files : FileSystem) : World := { w with files }

instance : Host InWorld where
  openFile p := return (← get).files.openFile p
  pathExists p := return (← get).files.pathExists p
  isDirectory p := return (← get).files.isDirectory p
  walk p := do
    let w ← get
    return w.walk w.files p
  createDirectories p := do
    let (result, files) := (← get).files.createDirectories p
    modify (·.setFiles files)
    return result
  writeFile p content := do
    match (← get).files.writeFile p content with
    | .ok files =>
        modify (·.setFiles files)
        return .ok ()
    | .error error => return .error error
  request url := do
    let w ← get
    set { w with requests := w.requests ++ [url] }
    return w.network w.requests url
  readers := return (← get).readers
  report event := modify fun w => { w with events := w.events ++ [event] }

end World

end Namebridge
