import OffsetService.Cache.Machinery
import OffsetService.Database
import OffsetService.Gateway.MediaType
import OffsetService.Web.Message
import OffsetService.Wire.Decode

/-!
# The gateway

The gateway answers requests over HTTP from a cache. A request is first read as a question
(`question?`), without a look at the cache: a request that asks for no endpoint, that has the wrong
method, media type or size, or whose body is no request in JSON is refused with a status of its own.
A question is then answered from the database of its identity (`answer`), and a fault on the way
becomes a response as well (`Failure.response`): one that the identity is to blame for is the
client's, every other the service's.

The same goes on any machine (`handleBy`), where the call for the database is the program of
`OffsetService.Cache.Machinery`.
-/

namespace OffsetService

namespace Gateway

/-! ## From requests to questions -/

/-- A question that is put to the database of an identity. -/
inductive Question where
  | symbols (request : Request NameSet)
  | types (kind : TypeKind) (request : Request NestedQuery)

namespace Question

/-- The identity whose database is asked. -/
def identity : Question → Identity
  | .symbols request => request.identity
  | .types _ request => request.identity

/-- The endpoint that a question was sent to. -/
def endpoint : Question → Endpoint
  | .symbols _ => .symbols
  | .types kind _ => .types kind

/-- The number of names that a question asks for. -/
def size : Question → Nat
  | .symbols request => request.query.size
  | .types _ request => request.query.size

end Question

/-- Why a request is no question. -/
inductive Rejection where
  | noEndpoint
  | wrongMethod
  | wrongMediaType
  | bodyTooLong
  | malformedBody
  | unfitBody
  deriving DecidableEq, Repr

/-- The response to a request that is no question. -/
def Rejection.response : Rejection → HttpResponse
  | .noEndpoint => ⟨404, none, none, []⟩
  | .wrongMethod => ⟨405, none, some "POST", []⟩
  | .wrongMediaType => .plain 415 "Expected request with \x60Content-Type: application/json\x60"
  | .bodyTooLong => .plain 413 "Failed to buffer the request body: length limit exceeded"
  | .malformedBody => .plain 400 "Failed to parse the request body as JSON"
  | .unfitBody => .plain 422 "Failed to deserialize the JSON body into the target type"

/-- The endpoints. -/
def endpoints : List Endpoint := [.symbols, .types .struct, .types .enum]

/-- The path of a target, without its query. -/
def pathOf (target : String) : List Char :=
  target.toList.takeWhile fun c => c ≠ '?' && c ≠ '#'

/-- The endpoint that a target names. -/
def endpoint? (target : String) : Option Endpoint :=
  endpoints.find? fun endpoint => pathOf target = '/' :: endpoint.label.toList

/-- Whether a content type announces JSON. -/
def announcesJson (contentType : Option String) : Bool :=
  match contentType.bind MediaType.ofText? with
  | some m => m.isJson
  | none => false

/-- The longest body that is read, in bytes. -/
def bodyLimit : Nat := 2097152

/-- Read a body of JSON. Bytes that are no UTF-8 break it off. -/
def readBody {α : Type} (reader : (budget : Nat) → Json.Reader α) (body : Bytes) :
    Except Rejection α :=
  let (head, isValid) := Utf8.validHead body
  match Json.Reader.whole reader head !isValid with
  | .ok a => .ok a
  | .error .malformed => .error .malformedBody
  | .error (.unfit _) => .error .unfitBody

/-- The question that a body asks at an endpoint. -/
def readQuestion (endpoint : Endpoint) (body : Bytes) : Except Rejection Question :=
  match endpoint with
  | .symbols => (readBody Wire.symbolRequest body).map .symbols
  | .types kind => (readBody Wire.nestedRequest body).map (.types kind)

/-- The question of a request, or why it is none. -/
def question? (request : HttpRequest) : Except Rejection Question :=
  match endpoint? request.target with
  | none => .error .noEndpoint
  | some endpoint =>
    if request.method ≠ "POST" then .error .wrongMethod
    else if !announcesJson request.contentType then .error .wrongMediaType
    else if request.body.length > bodyLimit then .error .bodyTooLong
    else readQuestion endpoint request.body

/-! ## From questions to answers -/

/-- An identity in a report: the name, and the unique id followed by the age. -/
def describe (id : Identity) : String :=
  id.name ++ " " ++ Archive.folder id

/-- The answer of a database, as JSON. -/
def ask (db : Database) : Question → Traced String
  | .symbols request => (db.symbols request.query).map fun found =>
    Wire.textOf (Wire.ofSymbols found)
  | .types .struct request => (db.structs request.query).map fun found =>
    Wire.textOf (Wire.ofStructs found)
  | .types .enum request => (db.enums request.query).map fun found =>
    Wire.textOf (Wire.ofEnums found)

/-- The answer to a question, after the call for its database, from the file that is there then. -/
def answerFrom (question : Question) (ensured : Traced String) (file : Option Bytes) :
    Traced String := do
  Traced.report (.asked question.endpoint (describe question.identity) question.size)
  let path ← ensured
  let db ← Traced.ofExcept (Database.ofFile path file)
  ask db question

/-- The answer to a question, from the database of its identity in the cache. -/
def answer (meets : Circumstances) (cache : Cache) (question : Question) : Cache × Traced String :=
  let (after, ensured) := cache.ensureIn meets question.identity
  (after, answerFrom question ensured (after.directory.file? (Cache.place question.identity)))

/-- Why a question got no answer. -/
inductive Failure where
  | query (fault : Fault)
  /-- The answering itself broke off. -/
  | worker (detail : String)
  deriving DecidableEq, Repr

namespace Failure

/-- The status of a failure: that of an identity without a place in an archive is the client's. -/
def status : Failure → Nat
  | .query .invalidIdentity | .query (.unsafePath _) => 400
  | _ => 500

/-- The wording of a failure. -/
def message : Failure → String
  | .query fault => fault.message
  | .worker detail => s!"query worker failed: {detail}"

/-- The response to a question that got no answer, and the report of it. -/
def response (failure : Failure) : List Event × HttpResponse :=
  ([.refused failure.status failure.message], .plain failure.status failure.message)

end Failure

/-- The response to a question, and the report of its answering. -/
def respond (answered : Traced String) : List Event × HttpResponse :=
  match answered.outcome with
  | .ok text => (answered.events, .json text)
  | .error fault =>
    let (events, response) := (Failure.query fault).response
    (answered.events ++ events, response)

/-- The response to a request, in given circumstances. -/
def handleIn (meets : Circumstances) (cache : Cache) (request : HttpRequest) :
    Cache × List Event × HttpResponse :=
  match question? request with
  | .error rejection => (cache, [], rejection.response)
  | .ok question =>
    let (after, answered) := answer meets cache question
    (after, respond answered)

/-- The response to a request, on a machine with a cache below `root`. -/
def handleBy {m : Type → Type} [Monad m] (machine : Machinery m) (root : String)
    (request : HttpRequest) : m (List Event × HttpResponse) :=
  match question? request with
  | .error rejection => return ([], rejection.response)
  | .ok question => do
    let ensured ← Cache.Call.complete machine root question.identity .arriving []
    let file ← machine.file? (Cache.place question.identity)
    return respond (answerFrom question ensured file)

/-- The response to a request, from this archive. -/
def handle (source : Source) : Cache → HttpRequest → Cache × List Event × HttpResponse :=
  handleIn (Cache.usual source)

/-- The gateway as a service whose state is the cache, in given circumstances. -/
def serviceIn (meets : Circumstances) (cache : Cache) (request : HttpRequest) :
    Cache × List Event × Reply :=
  let (after, events, response) := handleIn meets cache request
  (after, events, .ofResponse response)

/-- The gateway before this archive as a service. -/
def service (source : Source) : Cache → HttpRequest → Cache × List Event × Reply :=
  serviceIn (Cache.usual source)

end Gateway

end OffsetService
