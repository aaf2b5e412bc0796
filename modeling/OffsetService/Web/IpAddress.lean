import OffsetService.Text.Digits
import OffsetService.Text.Fields

/-!
# Addresses of hosts

An address of version 4 is written as four decimal bytes between dots; one of version 6 as eight
hexadecimal groups between colons, where a double colon stands for one or more groups of zeros and
the last two groups may be written as an address of version 4. Many texts name one address of
version 6. `text` writes one of them: in lower case, with the first of the longest runs of two or
more zero groups as a double colon, and with decimal bytes only for an embedded address.
-/

namespace OffsetService

/-- The address of a host, of version 4 or 6. -/
inductive IpAddress where
  | v4 (a b c d : UInt8)
  | v6 (groups : Vector UInt16 8)
  deriving DecidableEq, Repr

namespace IpAddress

/-! ## Reading -/

/-- A byte in at most three decimal digits, without leading zeros. -/
def octet? (text : List Char) : Option UInt8 :=
  match Digits.read? 10 text with
  | some n =>
    if text.length ≤ 3 ∧ n < 256 ∧ (text.head? = some '0' → n = 0 ∧ text.length = 1) then
      some n.toUInt8
    else none
  | none => none

/-- Four bytes between dots. -/
def octets? (text : List Char) : Option (UInt8 × UInt8 × UInt8 × UInt8) :=
  match (Fields.split (· = '.') text).map octet? with
  | [some a, some b, some c, some d] => some (a, b, c, d)
  | _ => none

/-- A group of at most four hexadecimal digits. -/
def group? (text : List Char) : Option UInt16 :=
  if text.length ≤ 4 then (Digits.read? 16 text).map Nat.toUInt16 else none

/-- The group of two bytes. -/
def groupOf (high low : UInt8) : UInt16 :=
  high.toUInt16 <<< 8 ||| low.toUInt16

/-- The groups at the end of an address: one, or the two of four decimal bytes. -/
def lastGroups? (text : List Char) : Option (List UInt16) :=
  match octets? text with
  | some (a, b, c, d) => some [groupOf a b, groupOf c d]
  | none => (group? text).map ([·])

/-- The groups between colons; there may be none. -/
def groups? (text : List Char) : Option (List UInt16) :=
  if text = [] then some [] else (Fields.split (· = ':') text).mapM group?

/-- The groups between colons at the end of an address; there may be none. -/
def endGroups? (text : List Char) : Option (List UInt16) :=
  if text = [] then some []
  else
    let fields := Fields.split (· = ':') text
    match fields.dropLast.mapM group?, lastGroups? (fields.getLast?.getD []) with
    | some front, some last => some (front ++ last)
    | _, _ => none

/-- What stands before and behind the first double colon. -/
def splitGap : List Char → Option (List Char × List Char)
  | [] => none
  | ':' :: ':' :: rest => some ([], rest)
  | c :: rest => (splitGap rest).map fun (before, behind) => (c :: before, behind)

/-- Eight groups as an address. -/
def ofGroups? (groups : List UInt16) : Option IpAddress :=
  if h : groups.length = 8 then some (.v6 ⟨groups.toArray, by simpa using h⟩) else none

/-- The address of version 6 that a text names. -/
def v6? (text : List Char) : Option IpAddress :=
  match splitGap text with
  | none => (endGroups? text).bind ofGroups?
  | some (before, behind) =>
    match groups? before, endGroups? behind with
    | some front, some back =>
      let given := front.length + back.length
      if given < 8 then ofGroups? (front ++ List.replicate (8 - given) 0 ++ back) else none
    | _, _ => none

/-- The address that a text names. -/
def ofText? (text : String) : Option IpAddress :=
  match octets? text.toList with
  | some (a, b, c, d) => some (.v4 a b c d)
  | none => v6? text.toList

/-! ## Writing -/

/-- Four bytes between dots. -/
def dotted (a b c d : UInt8) : String :=
  ".".intercalate ([a, b, c, d].map fun byte => toString byte.toNat)

/-- Groups between colons. -/
def colonized (groups : List UInt16) : String :=
  ":".intercalate (groups.map fun group => Hex.lower group.toNat)

/-- The first of the longest runs of zero groups: where it starts, and how long it is. -/
def longestGap (groups : List UInt16) : Nat × Nat :=
  let runs := (List.range groups.length).map fun start =>
    (start, ((groups.drop start).takeWhile (· = 0)).length)
  runs.foldl (fun best run => if run.2 > best.2 then run else best) (0, 0)

/-- An address of version 6 that embeds one of version 4. -/
def embedded? (groups : List UInt16) : Option (UInt8 × UInt8 × UInt8 × UInt8) :=
  match groups with
  | [0, 0, 0, 0, 0, 0xFFFF, front, back] =>
    some ((front >>> 8).toUInt8, front.toUInt8, (back >>> 8).toUInt8, back.toUInt8)
  | _ => none

/-- The text of an address. -/
def text : IpAddress → String
  | .v4 a b c d => dotted a b c d
  | .v6 groups =>
    let groups := groups.toList
    match embedded? groups with
    | some (a, b, c, d) => "::ffff:" ++ dotted a b c d
    | none =>
      let (start, length) := longestGap groups
      if length > 1 then
        colonized (groups.take start) ++ "::" ++ colonized (groups.drop (start + length))
      else colonized groups

/-! ## Kinds -/

/-- The address that stands for every address of a host. -/
def any : IpAddress := .v4 0 0 0 0

end IpAddress

/-- Where a service listens. -/
structure SocketAddress where
  host : IpAddress
  port : UInt16
  deriving DecidableEq, Repr

namespace SocketAddress

/-- The text of a host where a port follows. -/
def hostText (host : IpAddress) : String :=
  match host with
  | .v4 .. => host.text
  | .v6 _ => "[" ++ host.text ++ "]"

/-- The host and the port. -/
def text (a : SocketAddress) : String :=
  hostText a.host ++ ":" ++ toString a.port.toNat

end SocketAddress

end OffsetService
