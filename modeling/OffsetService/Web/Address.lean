import OffsetService.Text.Fields
import OffsetService.Text.Hex
import OffsetService.Web.Uri

/-!
# Addresses of requests

An address is what is left of a web URL when a request is sent: its path is a list of segments
without steps up or on the spot, and everything in it that cannot be sent as it is stands
percent-encoded. `ofText?` reads an absolute URL and `join` a location that was given relative to an
address. Backslashes in a path count as slashes, and the fragment is dropped.
-/

namespace OffsetService

/-- The address of a request. -/
structure Address where
  scheme : String
  authority : String
  segments : List String
  query : Option String
  deriving DecidableEq, Repr

namespace Address

/-! ## Percent encoding -/

/-- The bytes of a character, percent-encoded. -/
def percentEncode (c : Char) : List Char :=
  (String.utf8EncodeChar c).flatMap fun b => '%' :: Hex.fixed .upper 2 b.toNat

/-- Whether a character is plain ASCII: no control, no space. -/
def isVisible (c : Char) : Bool := '!' ≤ c && c ≤ '~'

/-- Whether a character can stand in a path as it is. -/
def isPathChar (c : Char) : Bool :=
  isVisible c && !"\"#<>?\x60\x7b\x7d".toList.contains c

/-- Whether a character can stand in a query as it is. -/
def isQueryChar (c : Char) : Bool :=
  isVisible c && !"\"#<>'".toList.contains c

/-- A text in which every character is plain or percent-encoded. -/
def encode (isPlain : Char → Bool) (text : List Char) : String :=
  String.ofList (text.flatMap fun c => if isPlain c then [c] else percentEncode c)

/-! ## Paths -/

/-- Whether a character separates segments. -/
def isSlash (c : Char) : Bool := c = '/' || c = '\\'

/-- A segment without percent-encoded dots, in lower case. -/
def plainDots (segment : List Char) : List Char :=
  match segment with
  | [] => []
  | '%' :: '2' :: e :: rest => if e = 'e' ∨ e = 'E' then '.' :: plainDots rest else segment
  | c :: rest => c :: plainDots rest

/-- Walk along segments from a path. The last segment is always kept as one, empty after a step. -/
def walk (path : List String) : List (List Char) → List String
  | [] => path
  | segment :: rest =>
    let isLast := rest.isEmpty
    let stay (path : List String) := if isLast then path ++ [""] else path
    match plainDots segment with
    | ['.', '.'] => walk (stay path.dropLast) rest
    | ['.'] => walk (stay path) rest
    | _ => walk (path ++ [encode isPathChar segment]) rest

/-! ## Reading -/

/-- A text as it is read: without blanks and controls at its ends, tabs and line breaks. -/
def clean (text : List Char) : List Char :=
  let isEdge (c : Char) : Bool := c ≤ ' '
  let inner := ((text.dropWhile isEdge).reverse.dropWhile isEdge).reverse
  inner.filter fun c => c ≠ '\t' && c ≠ '\n' && c ≠ '\r'

/-- A path up to a query or fragment, and the query. -/
def pathAndQuery (text : List Char) : List Char × Option String :=
  let path := text.takeWhile fun c => !Uri.endsPath c
  let (query, _) := Uri.queryAndFragment (text.drop path.length)
  (path, query.map (encode isQueryChar))

/-- The address at a path of this authority, walking from segments. -/
def reach (scheme authority : String) (start : List String) (text : List Char) : Address :=
  let (path, query) := pathAndQuery text
  ⟨scheme, authority, walk start (Fields.split isSlash path), query⟩

/-- An authority behind slashes, and what follows it. -/
def atAuthority (scheme : String) (text : List Char) : Option Address :=
  let ends (c : Char) : Bool := isSlash c || Uri.endsPath c
  let authority := text.takeWhile fun c => !ends c
  if authority = [] then none
  else
    let rest := text.drop authority.length
    let path := if rest.head?.any isSlash then rest.tail else rest
    some (reach scheme (String.ofList authority) [] path)

/-- The scheme of the web that a text begins with, in any case, and what follows its colon. -/
def scheme? (text : List Char) : Option (String × List Char) :=
  ["http", "https"].findSome? fun scheme =>
    let opening := scheme.toList ++ [':']
    if opening.isPrefixOf (text.map Char.toLower) then some (scheme, text.drop opening.length)
    else none

/-- Whether a text begins with a scheme: a letter, then letters, digits, `+`, `-` and `.`, and a
colon. -/
def hasScheme (text : List Char) : Bool :=
  let isSchemeChar (c : Char) : Bool := c.isAlphanum || c = '+' || c = '-' || c = '.'
  text.head?.any Char.isAlpha && (text.dropWhile isSchemeChar).head? = some ':'

/-- The address that an absolute URL of the web names. -/
def ofText? (text : String) : Option Address :=
  match scheme? (clean text.toList) with
  | some (scheme, rest) => atAuthority scheme (rest.dropWhile isSlash)
  | none => none

/-- The address that a location names for who reads it at this address. -/
def join (a : Address) (location : String) : Option Address :=
  let text := clean location.toList
  let near (text : List Char) : Option Address :=
    match text with
    | [] => some a
    | c :: rest =>
      if isSlash c then
        if rest.head?.any isSlash then atAuthority a.scheme (rest.dropWhile isSlash)
        else some (reach a.scheme a.authority [] rest)
      else if c = '#' then some a
      else if c = '?' then some { a with query := (pathAndQuery text).2 }
      else some (reach a.scheme a.authority a.segments.dropLast text)
  match scheme? text with
  | some (scheme, rest) =>
    if scheme = a.scheme ∧ !rest.head?.any isSlash then near rest
    else atAuthority scheme (rest.dropWhile isSlash)
  | none => if hasScheme text then none else near text

/-- The target of a request for an address: the path, and the query unless it is empty. -/
def target (a : Address) : String :=
  "/" ++ "/".intercalate a.segments
    ++ (match a.query with
      | none | some "" => ""
      | some query => "?" ++ query)

end Address

end OffsetService
