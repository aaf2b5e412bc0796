import OffsetService.Bytes
import OffsetService.Text.Utf8

/-!
# Messages over HTTP

Requests and responses as values. A sender of a response sees it whole; a receiver gets a `Reply`,
whose body arrives in chunks of any size and may break off.
-/

namespace OffsetService

/-- A request over HTTP. The target may end in a query behind a question mark. -/
structure HttpRequest where
  method : String
  target : String
  contentType : Option String
  userAgent : Option String
  body : Bytes
  deriving DecidableEq, Repr

/-- A response over HTTP. -/
structure HttpResponse where
  status : Nat
  contentType : Option String
  /-- The methods that an endpoint allows. -/
  allow : Option String
  body : Bytes
  deriving DecidableEq, Repr

namespace HttpResponse

/-- A response of plain text. -/
def plain (status : Nat) (text : String) : HttpResponse :=
  ⟨status, some "text/plain; charset=utf-8", none, Utf8.encode text⟩

/-- A successful response of JSON. -/
def json (text : String) : HttpResponse :=
  ⟨200, some "application/json", none, Utf8.encode text⟩

end HttpResponse

/-- A body as it arrives: chunk after chunk, and what broke it off, if anything did. -/
structure ArrivingBody where
  chunks : List Bytes
  broken : Option String
  deriving DecidableEq, Repr

namespace ArrivingBody

/-- A body that arrives whole and at once. -/
def whole (bytes : Bytes) : ArrivingBody := ⟨[bytes], none⟩

/-- All bytes that arrive. -/
def bytes (body : ArrivingBody) : Bytes := body.chunks.flatten

end ArrivingBody

/-- A response as its receiver gets it. -/
structure Reply where
  status : Nat
  /-- Where the resource has moved. -/
  location : Option String
  body : ArrivingBody
  deriving DecidableEq, Repr

namespace Reply

/-- A response that arrives whole. -/
def ofResponse (response : HttpResponse) : Reply :=
  ⟨response.status, none, .whole response.body⟩

/-- The body, which some statuses never have. -/
def content (reply : Reply) : ArrivingBody :=
  if reply.status = 204 ∨ reply.status = 304 then ⟨[], none⟩ else reply.body

/-- The longest body that is read as a text, in bytes. -/
def textLimit : Nat := 10485760

/-- The body as a text, with U+FFFD for what is no UTF-8. -/
def text (reply : Reply) : Except String String :=
  let body := reply.content
  match body.broken with
  | some detail => .error detail
  | none =>
    let bytes := body.bytes
    if bytes.length > textLimit then .error "response too big" else .ok (Utf8.lossy bytes)

end Reply

end OffsetService
