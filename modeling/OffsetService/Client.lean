import OffsetService.Archive
import OffsetService.Image
import OffsetService.Web.Address
import OffsetService.Web.Message
import OffsetService.Wire.Decode

/-!
# The client of a query service

A client asks a service about the module with one identity. The three bulk questions answer with
all that the service found; the questions for single names are the bulk questions for that name
alone, and a name that is not in the answer is a fault (`Missing`).

The service is a parameter with a state of its own, so that a client can be put before the gateway
of this library as well as before any other.
-/

namespace OffsetService

/-- A service: its next state, its reports, and its reply to a request. -/
abbrev Service (σ : Type) := σ → HttpRequest → σ × List Event × Reply

/-- A client for the module with an identity, and the URL of the service that it asks. -/
structure Client where
  identity : Identity
  server : String
  deriving DecidableEq, Repr

namespace Client

/-- The client for the module that an image holds. -/
def ofImage (image : Option Bytes) (server : String) : Traced Client :=
  match image with
  | none => .fail (.file .noSuchFile)
  | some bytes => (Image.identity bytes).map fun id => ⟨id, server⟩

/-- A client can ask when it has a service and a complete identity. -/
def isUsable (client : Client) : Bool :=
  !client.server.isEmpty && client.identity.isComplete

/-- The URL of an endpoint. -/
def url (client : Client) (endpoint : Endpoint) : String :=
  Archive.trimSlashes client.server ++ "/" ++ endpoint.label

variable {σ α β : Type}

/-- The answer in a reply. -/
def answer (reader : (budget : Nat) → Json.Reader α) (url : String) (reply : Reply) :
    Except RequestCause α :=
  if reply.status ≥ 400 then
    let text := match reply.text with
      | .ok text => text
      | .error _ => ""
    .error (.status url reply.status text)
  else
    match reply.text with
    | .error detail => .error (.unreadableBody url detail)
    | .ok text =>
      match Wire.ofText reader text with
      | .ok found => .ok found
      | .error refusal => .error (.undecodableBody url refusal.message)

/-- Send a payload to an endpoint, and read the answer. -/
def post (client : Client) (service : Service σ) (s : σ) (endpoint : Endpoint) (payload : String)
    (reader : (budget : Nat) → Json.Reader α) : σ × Traced α :=
  if !client.isUsable then
    (s, .fail .invalidIdentity)
  else
    let url := client.url endpoint
    let body := Utf8.encode payload
    let posting := Event.posting url body.length
    match Address.ofText? url with
    | none => (s, ⟨[posting], .error (.request (.transport url "invalid URL"))⟩)
    | some address =>
      let request := ⟨"POST", address.target, some "application/json", none, body⟩
      let (after, events, reply) := service s request
      (after, ⟨posting :: events, (answer reader url reply).mapError .request⟩)

/-- Ask about this module. -/
def ask (client : Client) (service : Service σ) (s : σ) (endpoint : Endpoint)
    (query : β) (write : β → Json.Value) (reader : (budget : Nat) → Json.Reader α) : σ × Traced α :=
  client.post service s endpoint
    (Wire.textOf (Wire.ofRequest write ⟨client.identity, query⟩)) reader

/-! ## Bulk questions -/

/-- The addresses of symbols. -/
def symbols (client : Client) (service : Service σ) (s : σ) (names : NameSet) :
    σ × Traced SymbolMap :=
  client.ask service s .symbols names Wire.ofNames Wire.symbolMap

/-- The places of members of structures. -/
def structs (client : Client) (service : Service σ) (s : σ) (query : NestedQuery) :
    σ × Traced StructMap :=
  client.ask service s (.types .struct) query Wire.ofNestedQuery Wire.structMap

/-- The values of constants of enumerations. -/
def enums (client : Client) (service : Service σ) (s : σ) (query : NestedQuery) :
    σ × Traced EnumMap :=
  client.ask service s (.types .enum) query Wire.ofNestedQuery Wire.enumMap

/-! ## Single names -/

/-- The entry of a name in an answer. -/
def pick (answered : σ × Traced (NameMap α)) (name : String) (missing : Missing) : σ × Traced α :=
  let entry (found : NameMap α) : Except Fault α :=
    match found.get? name with
    | some a => .ok a
    | none => .error (.notFound missing)
  (answered.1, ⟨answered.2.events, answered.2.outcome.bind entry⟩)

/-- A query for one type. -/
def oneType (name : String) (members : NameSet) : NestedQuery := .ofList [(name, members)]

/-- The address of a symbol. -/
def symbol (client : Client) (service : Service σ) (s : σ) (name : String) : σ × Traced Int64 :=
  pick (client.symbols service s (.ofNames [name])) name (.symbol name)

/-- The places of members of one structure. -/
def structMembers (client : Client) (service : Service σ) (s : σ) (name : String)
    (members : NameSet) : σ × Traced (NameMap FieldPlace) :=
  pick (client.structs service s (oneType name members)) name (.struct name)

/-- The place of one member. -/
def field (client : Client) (service : Service σ) (s : σ) (name member : String) :
    σ × Traced FieldPlace :=
  pick (client.structMembers service s name (.ofNames [member])) member (.field name member)

/-- The values of constants of one enumeration. -/
def enumValues (client : Client) (service : Service σ) (s : σ) (name : String) (keys : NameSet) :
    σ × Traced (NameMap Int64) :=
  pick (client.enums service s (oneType name keys)) name (.enum name)

/-- The value of one constant. -/
def enumValue (client : Client) (service : Service σ) (s : σ) (name key : String) :
    σ × Traced Int64 :=
  pick (client.enumValues service s name (.ofNames [key])) key (.enumerator name key)

end Client

end OffsetService
