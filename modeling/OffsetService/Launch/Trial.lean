import OffsetService.Directory
import OffsetService.Launch
import OffsetService.LogFilter
import OffsetService.Text.Fields
import OffsetService.Text.Utf8

/-!
# Trial launches

A trial is a launch on a folder tree, which is the folder that the program is started in: it serves
nobody, and the signal to stop comes as soon as it is up. A log filter decides which events are
shown, and the log file gets the same lines as they are shown.

Paths lead out of the tree when they begin with a slash, or climb above its root. What is made there
is not part of the trial.
-/

namespace OffsetService

/-! ## Paths from texts -/

namespace Directory

/-- Make the folders on the way along a path, from a folder on. A step up at the root leads out of
the tree. -/
def makeAlong (d : Directory) (here : Path) : List String → Directory × Except FileCause Unit
  | [] => (d, .ok ())
  | name :: rest =>
    if name = ".." then
      if here = [] then (d, .ok ()) else makeAlong d here.dropLast rest
    else
      match createFolders refusal d here [name] with
      | (made, .ok ()) => makeAlong made (here ++ [name]) rest
      | (made, .error cause) => (made, .error cause)

/-- The steps of a path in writing, without those on the spot. -/
def steps (text : String) : List String :=
  ((Fields.split (· = '/') text.toList).map String.ofList).filter fun name => name ≠ "" ∧ name ≠ "."

/-- Make the folder that a text names, and those above it. -/
def makeFolder (d : Directory) (text : String) : Directory × Except FileCause Unit :=
  if text.toList.head? = some '/' then (d, .ok ()) else makeAlong d [] (steps text)

/-- The file at a path, which is created if there is nothing. -/
def openFile (d : Directory) (path : Path) : Directory × Except FileCause Unit :=
  match d.node? path with
  | some .folder => (d, .error .isFolder)
  | some (.file _) => (d, .ok ())
  | none => (d.put path (.file []), .ok ())

/-- Write behind what is in a file. -/
def append (d : Directory) (path : Path) (bytes : Bytes) : Directory :=
  d.put path (.file ((d.file? path).getD [] ++ bytes))

end Directory

/-! ## The trial -/

/-- The state of a trial. -/
structure Trial where
  folder : Directory
  /-- The log file, once it is open. -/
  logFile : Option Path
  /-- The events that were shown. -/
  shown : List Event

namespace Trial

/-- The trial after an event. -/
def report (filter : LogFilter) (event : Event) (t : Trial) : Trial :=
  if filter.shows event then
    let folder := match t.logFile with
      | none => t.folder
      | some path => t.folder.append path (Utf8.encode (event.line ++ "\n"))
    { t with folder, shown := t.shown ++ [event] }
  else t

/-- A change of the folder that may fail. -/
def change (step : Directory → Directory × Except FileCause Unit) :
    StateM Trial (Except FileCause Unit) :=
  fun t =>
    let (folder, outcome) := step t.folder
    (outcome, { t with folder })

/-- The world of a trial, where the system listens in a given way. -/
def world (listen : SocketAddress → Except FileCause String) (filter : LogFilter) :
    World (StateM Trial) where
  report event := modify (report filter event)
  openLog name := do
    let opened ← change (·.openFile [name])
    if opened.isOk then modify fun t => { t with logFile := some [name] }
    return opened
  makeFolder path := change (·.makeFolder path)
  listen s := return listen s.bind
  serve := return .ok ()

/-- A trial launch in a folder: how it ends, and what it leaves. -/
def run (listen : SocketAddress → Except FileCause String) (arguments : List String)
    (environment : List (String × String)) (folder : Directory) : Launch.Exit × Trial :=
  let filter := LogFilter.ofEnvironment environment
  (Launch.run (world listen filter) arguments environment).run ⟨folder, none, []⟩

end Trial

end OffsetService
