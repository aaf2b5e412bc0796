import OffsetService.Settings
import OffsetService.Traced

/-!
# Launching the service

A launch goes from a command line to the exit of the program, in an order that can be seen from
outside: the settings are checked before anything is created, the log file is opened before the
first event, and the folder of the cache is made before the service listens. What a launch does to
its surroundings goes through a `World`, in any monad, so the same launch runs on a machine and as a
trial on a value (`OffsetService.Launch.Trial`).
-/

namespace OffsetService

/-- The surroundings of a launch. -/
structure World (m : Type → Type) where
  /-- Tell of an event. -/
  report : Event → m Unit
  /-- Open the log file, or create it; events go there too from now on. -/
  openLog : (name : String) → m (Except FileCause Unit)
  /-- Make a folder, and those above it. -/
  makeFolder : (path : String) → m (Except FileCause Unit)
  /-- Listen at the address of the settings, and say where the service listens now. -/
  listen : Settings → m (Except FileCause String)
  /-- Serve until the signal to stop. -/
  serve : m (Except FileCause Unit)

namespace Launch

/-- Why a launch fails. -/
inductive Failure where
  | settings (fault : SettingsFault)
  | logFile (cause : FileCause)
  | cacheFolder (path : String) (cause : FileCause)
  | binding (address : SocketAddress) (cause : FileCause)
  | serving (cause : FileCause)
  deriving DecidableEq, Repr

namespace Failure

/-- A failure and its cause. -/
def explained (context cause : String) : List String :=
  ["Error: " ++ context, "", "Caused by:", "    " ++ cause]

/-- The lines that tell of a failure. -/
def lines : Failure → List String
  | .settings fault => explained fault.context fault.defect.message
  | .cacheFolder path cause => explained s!"creating cache directory {path}" cause.message
  | .binding address cause => explained s!"binding {address.text}" cause.message
  | .logFile cause | .serving cause => ["Error: " ++ cause.message]

end Failure

/-- How a launch ends. -/
inductive Exit where
  | help
  | version
  | refused (fault : UsageFault)
  | failed (failure : Failure)
  /-- The service came up, and was told to stop. -/
  | stopped
  deriving DecidableEq, Repr

namespace Exit

/-- The exit code. -/
def code : Exit → UInt8
  | .help | .version | .stopped => 0
  | .failed _ => 1
  | .refused _ => 2

/-- What is printed. -/
def output : Exit → String
  | .help => Settings.help
  | .version => Settings.version ++ "\n"
  | .refused _ | .failed _ | .stopped => ""

/-- The lines of complaint. -/
def complaint : Exit → List String
  | .help | .version | .stopped => []
  | .refused fault => [s!"error: {fault.message}", "", "For help, try '--help'."]
  | .failed failure => failure.lines

end Exit

variable {m : Type → Type} [Monad m]

/-- A step on the world whose failure ends the launch. -/
def attempt {α : Type} (failure : FileCause → Failure) (step : m (Except FileCause α)) :
    ExceptT Failure m α :=
  ExceptT.mk do return (← step).mapError failure

/-- Bring the service up with its settings, and serve until the signal to stop. -/
def serve (world : World m) (s : Settings) : ExceptT Failure m Unit := do
  match s.logFile with
  | none => pure ()
  | some name => attempt .logFile (world.openLog name)
  world.report .starting
  attempt (.cacheFolder s.cacheFolder) (world.makeFolder s.cacheFolder)
  world.report (.configured s.archive s.cacheFolder)
  let address ← attempt (.binding s.bind) (world.listen s)
  world.report (.listening address)
  match ← world.serve with
  | .error cause =>
    world.report (.serverFault cause.message)
    throw (.serving cause)
  | .ok () =>
    world.report .shutdownSignal
    world.report .stopped

/-- A launch with these arguments and variables. -/
def run (world : World m) (arguments : List String) (environment : List (String × String)) :
    m Exit :=
  match CommandLine.read arguments environment with
  | .error .help => pure .help
  | .error .version => pure .version
  | .error (.refused fault) => pure (.refused fault)
  | .ok choices =>
    match Settings.ofChoices choices with
    | .error fault => pure (.failed (.settings fault))
    | .ok settings => do
      match ← (serve world settings).run with
      | .error failure => return .failed failure
      | .ok () => return .stopped

end Launch

end OffsetService
