import OffsetService.Archive
import OffsetService.Delivery
import OffsetService.Web.Address
import OffsetService.Web.Message

/-!
# The remote archive

A remote archive is asked over HTTP for the URL of a database, following redirects, and its answer
is copied as it arrives. Compressed cabinets, which begin with `MSCF`, are refused before anything
is written, so the copy first reads a head of four bytes, from as many chunks as it takes, and then
copies what is left.
-/

namespace OffsetService.Remote

/-! ## Copying a body -/

/-- Why a body is not copied to its end. -/
inductive BodyFault where
  | cabinet
  | broken (detail : String)
  deriving DecidableEq, Repr

/-- The first bytes of a cabinet. -/
def cabinetMark : Bytes := [0x4D, 0x53, 0x43, 0x46]

/-- The first `n` bytes of chunks, or all of them, and the chunks behind. -/
def splitHead : (n : Nat) → List Bytes → Bytes × List Bytes
  | 0, chunks => ([], chunks)
  | _, [] => ([], [])
  | n + 1, chunk :: rest =>
    if chunk.length < n + 1 then
      let (more, left) := splitHead (n + 1 - chunk.length) rest
      (chunk ++ more, left)
    else
      (chunk.take (n + 1), chunk.drop (n + 1) :: rest)

/-- Copy a body: what is written, and the number of bytes copied to the end. A body that breaks off
inside its head leaves nothing behind. -/
def copyBody (body : ArrivingBody) : Bytes × Except BodyFault Nat :=
  let (head, rest) := splitHead cabinetMark.length body.chunks
  match body.broken with
  | some detail =>
    if head.length < cabinetMark.length then ([], .error (.broken detail))
    else if head = cabinetMark then ([], .error .cabinet)
    else (head ++ rest.flatten, .error (.broken detail))
  | none =>
    if head = cabinetMark then ([], .error .cabinet)
    else
      let written := head ++ rest.flatten
      (written, .ok written.length)

/-! ## Asking -/

/-- How the archive is told who asks. -/
def userAgent : String := "Microsoft-Symbol-Server/10.0.0.0"

/-- The request for an address. -/
def request (address : Address) : HttpRequest :=
  ⟨"GET", address.target, none, some userAgent, []⟩

/-- A web: what it replies at an address, after so many requests for the same download, or why it
gives no reply. -/
abbrev Web := Nat → Address → Except String Reply

/-- How many redirects are followed. -/
def redirectLimit : Nat := 4

/-- Where a reply sends the asker. -/
def redirect? (reply : Reply) : Option String :=
  if [301, 302, 303, 307, 308].contains reply.status then reply.location else none

/-- The addresses that were asked at, and the reply of the last one or why there is none. -/
structure Search where
  asked : List Address
  found : Except String Reply

/-- Ask at an address, and follow so many redirects. -/
def follow (web : Web) : (redirects : Nat) → List Address → Address → Search
  | redirects, before, address =>
    let asked := before ++ [address]
    match web before.length address with
    | .error detail => ⟨asked, .error detail⟩
    | .ok reply =>
      match redirect? reply with
      | none => ⟨asked, .ok reply⟩
      | some location =>
        match redirects with
        | 0 => ⟨asked, .error "too many redirects"⟩
        | redirects + 1 =>
          match address.join location with
          | none => ⟨asked, .error "bad redirection"⟩
          | some next => follow web redirects asked next

/-- What a reply delivers for a URL. -/
def deliverReply (url : String) (reply : Reply) : Bytes × Option Fault :=
  if reply.status = 404 then ([], some (.download url .notOnServer))
  else if reply.status ≥ 400 then ([], some (.download url (.status reply.status)))
  else
    match copyBody reply.content with
    | (written, .ok _) => (written, none)
    | (written, .error .cabinet) => (written, some (.download url .cabinet))
    | (written, .error (.broken detail)) => (written, some (.download url (.brokenBody detail)))

/-- Ask an archive for the database of an identity: the addresses that were asked at, and the
delivery. -/
def fetch (base : String) (web : Web) (id : Identity) : List Address × Delivery :=
  let url := Archive.downloadUrl base id
  let search : Search := match Address.ofText? url with
    | none => ⟨[], .error "invalid URL"⟩
    | some address => follow web redirectLimit [] address
  let (written, fault) : Bytes × Option Fault := match search.found with
    | .error detail => ([], some (.download url (.requestFailed detail)))
    | .ok reply => deliverReply url reply
  (search.asked, ⟨[.downloading url], written, fault⟩)

/-- A remote archive as a source, where every download finds a web of its own. -/
def source (base : String) (web : Nat → Web) : Source :=
  fun fetches id => (fetch base (web fetches) id).2

end OffsetService.Remote
