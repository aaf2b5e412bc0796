import OffsetService.Fault

/-!
# Events and traced computations

What the library does on the way to a result is a list of events, each with its level, the part of
the program that reports it, and its wording. A `Traced` computation is a pure value: its events in
order, and its outcome. Sequencing joins the events and goes on only after success, so the outcome
of a sequence is the sequence of the outcomes (`Traced.outcome_bind`): statements about results
never look at events.
-/

namespace OffsetService

/-- How much an event matters. -/
inductive Level where
  | error
  | warn
  | info
  | debug
  | trace
  deriving DecidableEq, Repr

namespace Level

/-- The level as it is written. -/
def label : Level → String
  | .error => "ERROR"
  | .warn => "WARN"
  | .info => "INFO"
  | .debug => "DEBUG"
  | .trace => "TRACE"

/-- Verbosity: errors are least verbose. -/
def verbosity : Level → Nat
  | .error => 1
  | .warn => 2
  | .info => 3
  | .debug => 4
  | .trace => 5

end Level

/-- The two kinds of named type that queries ask for. -/
inductive TypeKind where
  | struct
  | enum
  deriving DecidableEq, Repr

/-- The keyword of a kind. -/
def TypeKind.label : TypeKind → String
  | .struct => "struct"
  | .enum => "enum"

/-- The three questions that the service answers. -/
inductive Endpoint where
  | symbols
  | types (kind : TypeKind)
  deriving DecidableEq, Repr

/-- The name of an endpoint, which is also its path. -/
def Endpoint.label : Endpoint → String
  | .symbols => "symbol"
  | .types kind => kind.label

/-- Something that happened. -/
inductive Event where
  -- reading an image
  | noDebugDirectory (directories : Nat)
  | emptyDebugDirectory
  | emptyDebugEntry
  | unknownRecordFormat (signature : List UInt8)
  -- answering queries from a database
  | noDefinition (kind : TypeKind) (name : String)
  | continuationCycle (index : UInt32)
  | notFieldList (index : UInt32)
  | defaultLayout (index : UInt32)
  | resolvedSymbols (found wanted : Nat)
  | foundDefinitions (kind : TypeKind) (found wanted : Nat)
  | undecodableType (index : UInt32) (defect : RecordDefect)
  -- asking a service
  | posting (url : String) (size : Nat)
  -- keeping the cache
  | cacheHit (relative : String)
  | cacheFilled (relative : String)
  | downloadFailed (name : String) (fault : Fault)
  | cached (path : String) (size : Nat)
  | downloading (url : String)
  -- serving
  | asked (endpoint : Endpoint) (subject : String) (names : Nat)
  | refused (status : Nat) (message : String)
  | listening (address : String)
  | shutdownSignal
  | starting
  | configured (archive cache : String)
  | serverFault (message : String)
  | stopped
  deriving DecidableEq, Repr

namespace Event

/-- The level of an event. -/
def level : Event → Level
  | .noDebugDirectory _ | .emptyDebugDirectory | .emptyDebugEntry | .unknownRecordFormat _ => .debug
  | .noDefinition .. | .notFieldList _ | .defaultLayout _ => .debug
  | .continuationCycle _ => .warn
  | .resolvedSymbols .. | .foundDefinitions .. | .undecodableType .. => .debug
  | .posting .. => .debug
  | .cacheHit _ | .cacheFilled _ => .debug
  | .downloadFailed .. => .warn
  | .cached .. | .downloading _ | .asked .. => .info
  | .refused .. | .serverFault _ => .error
  | .listening _ | .shutdownSignal | .starting | .configured .. | .stopped => .info

/-- The part of the program that reports an event. -/
def target : Event → String
  | .noDebugDirectory _ | .emptyDebugDirectory | .emptyDebugEntry | .unknownRecordFormat _ =>
    "qpdb::identity"
  | .noDefinition .. | .continuationCycle _ | .notFieldList _ | .defaultLayout _ => "qpdb::resolve"
  | .resolvedSymbols .. | .foundDefinitions .. | .undecodableType .. => "qpdb::pdbfile"
  | .posting .. => "qpdb::client"
  | .cacheHit _ | .cacheFilled _ | .downloadFailed .. | .cached .. => "qpdb_server::store::cache"
  | .downloading _ => "qpdb_server::store::symserver"
  | .asked .. => "qpdb_server::server::routes"
  | .refused .. => "qpdb_server::server::error"
  | .listening _ | .shutdownSignal => "qpdb_server::server"
  | .starting | .configured .. | .serverFault _ | .stopped => "qpdb_server"

/-- The wording of an event. -/
def message : Event → String
  | .noDebugDirectory n => s!"Image has {n} data directories, no debug directory"
  | .emptyDebugDirectory => "Image debug directory is empty"
  | .emptyDebugEntry => "Debug directory entry has no data"
  | .unknownRecordFormat signature =>
    s!"Unrecognized CodeView signature {Hex.byteList signature}"
  | .noDefinition kind name => s!"No complete definition for {kind.label} {name}"
  | .continuationCycle index =>
    s!"Field list continuation cycle at type {Hex.marked index.toNat}"
  | .notFieldList index => s!"Type {Hex.marked index.toNat} is not a field list"
  | .defaultLayout index =>
    s!"Falling back to 32-bit signed layout for type {Hex.marked index.toNat}"
  | .resolvedSymbols found wanted => s!"Resolved {found}/{wanted} symbols"
  | .foundDefinitions kind found wanted =>
    s!"Found {found}/{wanted} complete {kind.label} definitions"
  | .undecodableType index defect =>
    s!"Skipping undecodable type {Hex.marked index.toNat}: {defect.message}"
  | .posting url size => s!"POST {url} ({size} bytes)"
  | .cacheHit relative => s!"Cache hit: {relative}"
  | .cacheFilled relative => s!"Cache filled while waiting: {relative}"
  | .downloadFailed name fault => s!"Download of {name} failed: {fault.message}"
  | .cached path size => s!"Cached {path} ({size} bytes)"
  | .downloading url => s!"Downloading PDB from: {url}"
  | .asked .symbols subject names => s!"symbol: {subject} ({names} names)"
  | .asked (.types kind) subject names => s!"{kind.label}: {subject} ({names} types)"
  | .refused status text => s!"{status} {text}"
  | .listening address => s!"Listening on {address}"
  | .shutdownSignal => "Shutdown signal received"
  | .starting => "qpdb-server starting..."
  | .configured archive cache => s!"Symbol server: {archive}, cache: {cache}"
  | .serverFault text => s!"Server error: {text}"
  | .stopped => "qpdb-server shutting down"

/-- The line of a log that tells of an event. -/
def line (event : Event) : String :=
  s!"{event.level.label} {event.target}: {event.message}"

end Event

/-- A computation that reports events and may fail. -/
structure Traced (α : Type) where
  events : List Event
  outcome : Except Fault α

namespace Traced

variable {α β : Type}

/-- A result without events. -/
def result (a : α) : Traced α := ⟨[], .ok a⟩

/-- A failure without events. -/
def fail (fault : Fault) : Traced α := ⟨[], .error fault⟩

/-- An event without a result. -/
def report (event : Event) : Traced Unit := ⟨[event], .ok ()⟩

/-- An outcome without events. -/
def ofExcept (outcome : Except Fault α) : Traced α := ⟨[], outcome⟩

/-- The same events with another result. -/
def map (f : α → β) (x : Traced α) : Traced β := ⟨x.events, x.outcome.map f⟩

/-- One computation, then, after success, the next. -/
def andThen (x : Traced α) (f : α → Traced β) : Traced β :=
  match x.outcome with
  | .error fault => ⟨x.events, .error fault⟩
  | .ok a =>
    let y := f a
    ⟨x.events ++ y.events, y.outcome⟩

instance : Monad Traced where
  pure := result
  bind := andThen

instance : MonadExcept Fault Traced where
  throw := fail
  tryCatch x handler :=
    match x.outcome with
    | .error fault =>
      let y := handler fault
      ⟨x.events ++ y.events, y.outcome⟩
    | .ok _ => x

@[simp] theorem outcome_pure (a : α) : (pure a : Traced α).outcome = .ok a := rfl

@[simp] theorem outcome_report (event : Event) : (report event).outcome = .ok () := rfl

@[simp] theorem outcome_fail (fault : Fault) : (fail fault : Traced α).outcome = .error fault := rfl

@[simp] theorem outcome_throw (fault : Fault) :
    (throw fault : Traced α).outcome = .error fault := rfl

@[simp] theorem outcome_ofExcept (outcome : Except Fault α) :
    (ofExcept outcome).outcome = outcome := rfl

/-- The outcome of a sequence is the sequence of the outcomes. -/
@[simp] theorem outcome_bind (x : Traced α) (f : α → Traced β) :
    (x >>= f).outcome = x.outcome >>= fun a => (f a).outcome := by
  show (andThen x f).outcome = _
  unfold andThen
  cases h : x.outcome <;> rfl

theorem events_bind_ok {x : Traced α} {a : α} (h : x.outcome = .ok a) (f : α → Traced β) :
    (x >>= f).events = x.events ++ (f a).events := by
  show (andThen x f).events = _
  simp [andThen, h]

theorem events_bind_error {x : Traced α} {fault : Fault} (h : x.outcome = .error fault)
    (f : α → Traced β) : (x >>= f).events = x.events := by
  show (andThen x f).events = _
  simp [andThen, h]

theorem map_id (x : Traced α) : x.map id = x := by
  obtain ⟨events, outcome⟩ := x
  cases outcome <;> rfl

theorem andThen_result (x : Traced α) : andThen x result = x := by
  obtain ⟨events, outcome⟩ := x
  cases outcome <;> simp [andThen, result]

theorem result_andThen (a : α) (f : α → Traced β) : andThen (result a) f = f a := by
  simp [andThen, result]

theorem andThen_assoc {γ : Type} (x : Traced α) (f : α → Traced β) (g : β → Traced γ) :
    andThen (andThen x f) g = andThen x fun a => andThen (f a) g := by
  obtain ⟨events, outcome⟩ := x
  cases outcome with
  | error fault => rfl
  | ok a =>
    simp only [andThen]
    cases h : (f a).outcome <;> simp [List.append_assoc]

instance : LawfulMonad Traced :=
  LawfulMonad.mk' Traced andThen_result result_andThen andThen_assoc

end Traced

end OffsetService
