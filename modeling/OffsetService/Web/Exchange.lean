import OffsetService.Text.Digits
import OffsetService.Text.Fields
import OffsetService.Web.Address
import OffsetService.Web.Message

/-!
# Exchanges on a connection

A request is sent in version 1.0 of HTTP, so its reply is everything that arrives until the
connection is closed: a status line, header lines, an empty line and the body. A body that is
shorter than its header says has broken off.
-/

namespace OffsetService

namespace Address

/-- The host and the port of an address. -/
def hostAndPort (a : Address) : String × UInt16 :=
  let authority := (a.authority.toList.reverse.takeWhile (· ≠ '@')).reverse
  let digits := (authority.reverse.takeWhile (· ≠ ':')).reverse
  let host := authority.take (authority.length - digits.length - 1)
  match Digits.read? 10 digits with
  | some port =>
    if digits.length < authority.length ∧ host.getLast? ≠ some ':' then
      (String.ofList host, port.toUInt16)
    else (String.ofList authority, 80)
  | none => (String.ofList authority, 80)

end Address

namespace HttpRequest

/-- The bytes of a request to a host. -/
def bytes (r : HttpRequest) (host : String) : Bytes :=
  let agent := r.userAgent.elim "" fun agent => s!"User-Agent: {agent}\r\n"
  Utf8.encode (s!"{r.method} {r.target} HTTP/1.0\r\nHost: {host}\r\n" ++ agent
    ++ "Accept: */*\r\nConnection: close\r\n\r\n")

end HttpRequest

namespace Reply

/-- A line without a carriage return at its end. -/
def bareLine (line : Bytes) : Bytes :=
  if line.getLast? = some 13 then line.dropLast else line

/-- The lines up to an empty one, behind what has been read of the first, and what follows the empty
line. Lines end in a line feed, with or without a carriage return before it. -/
def head (begun : Bytes) : Bytes → List Bytes × Bytes
  | [] => ([], [])
  | byte :: rest =>
    if byte = 10 then
      match bareLine begun.reverse with
      | [] => ([], rest)
      | line =>
        let (lines, body) := head [] rest
        (line :: lines, body)
    else head (byte :: begun) rest

/-- The value of a header, by its name in lower case. -/
def header? (lines : List String) (name : String) : Option String :=
  lines.findSome? fun text =>
    let chars := text.toList
    let key := chars.takeWhile (· ≠ ':')
    if key.map Char.toLower = name.toList ∧ key.length < chars.length then
      let value := (chars.drop (key.length + 1)).dropWhile (· = ' ')
      some (String.ofList (value.reverse.dropWhile (· = ' ')).reverse)
    else none

/-- The status in a status line. -/
def status? (text : String) : Option Nat :=
  match Fields.split (· = ' ') text.toList with
  | protocol :: code :: _ =>
    if "HTTP/".toList.isPrefixOf protocol then Digits.read? 10 code else none
  | _ => none

/-- The reply that arrived before the connection was closed, if it has a status. -/
def ofBytes? (bytes : Bytes) : Option Reply :=
  let (lines, body) := head [] bytes
  match lines.map Utf8.lossy with
  | [] => none
  | first :: headers =>
    match status? first with
    | none => none
    | some status =>
      let location := header? headers "location"
      let announced := (header? headers "content-length").bind (Digits.read? 10 ·.toList)
      let length := announced.getD body.length
      let broken := if body.length < length then some "the connection was closed early" else none
      some ⟨status, location, ⟨[body.take length], broken⟩⟩

end Reply

end OffsetService
