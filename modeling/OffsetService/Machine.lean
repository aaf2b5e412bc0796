import OffsetService.Gateway
import OffsetService.Launch
import OffsetService.LogFilter
import OffsetService.Remote
import OffsetService.Web.Exchange
import Std.Async.DNS
import Std.Async.Signal
import Std.Http.Server
import Std.Time

/-!
# The machine

The world that the service runs in for real: standard error, files, the network and the signal to
stop. Nothing is decided here. Which requests are sent to the archive follows from
`Remote.fetch`, asked again with one more reply each time. A request is handled by
`Gateway.handleBy`, which is given files to read and write and the locks of the cache, so what a
download does on disk is what `Download.receiveBy` and `Download.settleBy` do. Requests are handled
at the same time.

Connections are in plain HTTP; an archive that wants more is reported as one that cannot be asked.
-/

namespace OffsetService.Machine

open Std.Async

/-- What a machine reports. -/
def causeOf (error : IO.Error) : FileCause := .reported (toString error)

/-- A step that may fail. -/
def attempt {α : Type} (step : IO α) : IO (Except FileCause α) := do
  return (← step.toBaseIO).mapError causeOf

/-! ## Logs -/

/-- Where events are shown: on standard error, and in the log file once it is open. -/
structure Log where
  filter : LogFilter
  file : IO.Ref (Option IO.FS.Handle)

/-- The time, as a line of a log begins with it. -/
def timeStamp : IO String := do
  let now ← Std.Time.Timestamp.now
  let wall := Std.Time.WallTime.ofNanoseconds now.toNanosecondsSinceUnixEpoch
  return (Std.Time.PlainDateTime.ofWallTime wall).format "uuuu-MM-dd'T'HH:mm:ss.SSSSSS'Z'"

/-- Show an event. -/
def Log.report (log : Log) (event : Event) : IO Unit := do
  if log.filter.shows event then
    let indent := String.ofList (List.replicate (6 - event.level.label.length) ' ')
    let line := (← timeStamp) ++ indent ++ event.line
    IO.eprintln line
    if let some file ← log.file.get then
      file.putStrLn line
      file.flush

/-! ## The archive -/

/-- Everything that arrives on a connection. -/
partial def receive (client : TCP.Socket.Client) (before : ByteArray) : Async ByteArray := do
  match ← client.recv? 65536 with
  | none => return before
  | some bytes => receive client (before ++ bytes)

/-- Where the machine connects to. -/
def endOf (address : Std.Net.IPAddr) (port : UInt16) : Std.Net.SocketAddress :=
  match address with
  | .v4 address => .v4 ⟨address, port⟩
  | .v6 address => .v6 ⟨address, port⟩

/-- Send a request, and wait for the reply. -/
def exchange (address : Address) : IO Reply := do
  if address.scheme ≠ "http" then throw (IO.userError "only plain HTTP is spoken")
  let (host, port) := address.hostAndPort
  let arrived ← Async.block do
    match (← DNS.getAddrInfo host (toString port.toNat))[0]? with
    | none => throw (IO.userError "the host is unknown")
    | some found =>
      let client ← TCP.Socket.Client.mk
      client.connect (endOf found port)
      let request := (Remote.request address).bytes address.authority
      client.send ⟨request.toArray⟩
      receive client .empty
  match Reply.ofBytes? arrived.toList with
  | some reply => return reply
  | none => throw (IO.userError "the reply is no reply")

/-- A download, asking the web as often as it takes. -/
def deliver (base : String) (id : Identity) :
    (replies : List (Except String Reply)) → (rounds : Nat) → IO Delivery
  | replies, rounds => do
    let web : Remote.Web := fun n _ => replies[n]?.getD (.error "no reply")
    let (asked, delivery) := Remote.fetch base web id
    match rounds, asked[replies.length]? with
    | rounds + 1, some address =>
      let reply ← (exchange address).toBaseIO
      deliver base id (replies ++ [reply.mapError toString]) rounds
    | _, _ => return delivery

/-! ## The cache -/

/-- The cache on disk: its folder, the archive that fills it, and the locks of the calls under
way. -/
structure Shelf where
  root : String
  archive : String
  locks : Std.Mutex Locks
  /-- Those who wait for a lock. -/
  waiting : Std.Condvar
  /-- The number of calls so far. -/
  calls : IO.Ref Nat

/-- An empty shelf. -/
def Shelf.new (root archive : String) : IO Shelf := do
  return ⟨root, archive, ← Std.Mutex.new .empty, ← Std.Condvar.new, ← IO.mkRef 0⟩

/-- A path below the root as the machine knows it. -/
def Shelf.pathOf (shelf : Shelf) (path : Path) : String :=
  Archive.join shelf.root ("/".intercalate path)

/-- Make a file with the first of some numbers in its name that is new in a folder. -/
def makeNew (folder : String) : (numbers : List Nat) → IO (Except FileCause String)
  | [] => return .error .alreadyThere
  | number :: rest => do
    let name := s!".download-{number}.tmp"
    match ← (IO.FS.Handle.mk (folder ++ "/" ++ name) .writeNew).toBaseIO with
    | .ok _ => return .ok name
    | .error (.alreadyExists ..) => makeNew folder rest
    | .error error => return .error (causeOf error)

/-- What a call with a number can do on this machine. A written file is handed to the system, which
brings it to the disk in its own time. -/
def Shelf.machinery (shelf : Shelf) (caller : Nat) : Machinery IO where
  isFile path := do
    let head ← attempt (IO.FS.withFile (shelf.pathOf path) .read (·.read 1))
    return head.isOk
  file? path := do
    let bytes ← attempt (IO.FS.readBinFile (shelf.pathOf path))
    return bytes.toOption.map (·.toList)
  join key := shelf.locks.atomically do
    let (locks, lock) := (← get).join key
    set locks
    return lock
  acquire lock := shelf.locks.atomicallyOnce shelf.waiting
    (return ((← get).acquire lock caller).isSome)
    (modify fun locks => (locks.acquire lock caller).getD locks)
  release lock := do
    shelf.locks.atomically (modify (·.release lock))
    shelf.waiting.notifyAll
  leave key lock := shelf.locks.atomically (modify (·.leave key lock))
  makeFolders path := attempt (IO.FS.createDirAll (shelf.pathOf path))
  makeTemporary folder := do
    let name ← makeNew (shelf.pathOf folder) (List.range 0x1000)
    return name.map fun name => folder ++ [name]
  fill path id := do
    let delivery ← deliver shelf.archive id [] (Remote.redirectLimit + 1)
    let written ← attempt (IO.FS.writeBinFile (shelf.pathOf path) ⟨delivery.written.toArray⟩)
    return ⟨delivery.events, match written, delivery.fault with
      | .error cause, _ => .error (.file cause)
      | .ok (), some fault => .error fault
      | .ok (), none => .ok delivery.written.length⟩
  secure path := attempt (IO.FS.withFile (shelf.pathOf path) .append (·.flush))
  rename source target := attempt (IO.FS.rename (shelf.pathOf source) (shelf.pathOf target))
  erase path := discard (attempt (IO.FS.removeFile (shelf.pathOf path)))

/-- The response to a request. -/
def respond (log : Log) (shelf : Shelf) (request : HttpRequest) : IO HttpResponse := do
  let caller ← shelf.calls.modifyGet fun calls => (calls, calls + 1)
  let (events, response) ← Gateway.handleBy (shelf.machinery caller) shelf.root request
  events.forM log.report
  return response

/-! ## The service -/

/-- A body up to its end, or until it is longer than any that is read. -/
partial def readBody (body : Std.Http.Body.Stream) (before : ByteArray) : Async ByteArray := do
  if before.size > Gateway.bodyLimit then return before
  match ← body.recv with
  | none => return before
  | some chunk => readBody body (before ++ chunk.data)

/-- Answer a request that came over a connection. -/
def answer (respond : HttpRequest → IO HttpResponse)
    (request : Std.Http.Request Std.Http.Body.Stream) :
    ContextAsync (Std.Http.Response Std.Http.Body.Any) := do
  let header (name : Std.Http.Header.Name) : Option String :=
    (request.line.headers.get? name).map (·.value)
  let body ← readBody request.body .empty
  let task ← IO.asTask (respond {
    method := toString request.line.method
    target := toString request.line.uri
    contentType := header .contentType
    userAgent := header .userAgent
    body := body.toList }) .dedicated
  let response ← Async.ofExcept (← Async.ofTask task)
  let status := (Std.Http.Status.ofCode none response.status.toUInt16).getD .ok
  let builder := Std.Http.Response.withStatus status
  let builder := response.contentType.elim builder (builder.header! "content-type" ·)
  let builder := response.allow.elim builder (builder.header! "allow" ·)
  let sent ← builder.fromBytes ⟨response.body.toArray⟩
  return { line := sent.line, body := .ofBody sent.body, extensions := sent.extensions }

/-- A socket address, as the machine knows it. -/
def toMachine (a : SocketAddress) : Std.Net.SocketAddress :=
  match a.host with
  | .v4 b c d e => .v4 ⟨.ofParts b c d e, a.port⟩
  | .v6 groups => .v6 ⟨⟨groups⟩, a.port⟩

/-- A socket address that the machine tells. -/
def ofMachine : Std.Net.SocketAddress → SocketAddress
  | .v4 a => ⟨.v4 a.addr.octets[0] a.addr.octets[1] a.addr.octets[2] a.addr.octets[3], a.port⟩
  | .v6 a => ⟨.v6 a.addr.segments, a.port⟩

/-- The service while it listens, and the signal that it waits for. -/
structure Station where
  server : Std.Http.Server
  signal : Signal.Waiter

/-- Listen with settings, and answer requests. -/
def listen (log : Log) (station : IO.Ref (Option Station)) (s : Settings) : IO String := do
  let shelf ← Shelf.new s.cacheFolder s.archive
  let handler := Std.Http.Server.Handler.ofFn (answer (respond log shelf))
  let signal ← Signal.Waiter.mk .sigint false
  let server ← Async.block do
    Std.Http.Server.serve (toMachine s.bind) handler { serverName := none }
  station.set (some ⟨server, signal⟩)
  return ((server.localAddr.map ofMachine).getD s.bind).text

/-- Serve until the signal to stop. -/
def serve (station : IO.Ref (Option Station)) : IO Unit := do
  if let some ⟨server, signal⟩ ← station.get then
    discard (← signal.wait).block
    Async.block server.shutdownAndWait

/-- The world of this machine. -/
def world (filter : LogFilter) : IO (World IO) := do
  let log : Log := ⟨filter, ← IO.mkRef none⟩
  let station ← IO.mkRef none
  return {
    report := log.report
    openLog := fun name => attempt do log.file.set (some (← IO.FS.Handle.mk name .append))
    makeFolder := fun path => attempt (IO.FS.createDirAll path)
    listen := fun s => attempt (listen log station s)
    serve := attempt (serve station)
  }

end OffsetService.Machine
