/-!
# Media types

A media type is `type/subtype`, where the subtype may end in a suffix behind a plus sign, and is
followed by parameters. Case does not matter. `ofText?` accepts a text with well-formed parameters
only: a parameter is a name, an equals sign and a value, which is a token or stands between quotes;
semicolons stand before parameters, and the last one may have nothing behind it.
-/

namespace OffsetService

/-- A media type without its parameters. -/
structure MediaType where
  type : String
  subtype : String
  suffix : Option String
  deriving DecidableEq, Repr

namespace MediaType

/-- Whether a character can be part of a token. -/
def isTokenChar (c : Char) : Bool :=
  c.isAlphanum || "!#$%&'*+-.^_\x60|~".toList.contains c

/-- Whether a character can stand between quotes. -/
def isQuotedChar (c : Char) : Bool :=
  ' ' ≤ c && c ≤ '~'

/-- Where a reader stands among the parameters. -/
inductive Place where
  /-- Before the name of a parameter. -/
  | gap
  | name
  /-- Behind an equals sign. -/
  | value
  | token
  /-- Behind an opening quote. -/
  | opened
  | quoted
  /-- Behind a closing quote. -/
  | closed
  deriving DecidableEq, Repr

/-- The place behind one more character, if it can stand there. A quote right behind an opening
quote counts as part of the value. -/
def Place.next (place : Place) (c : Char) : Option Place :=
  match place with
  | .gap => if c = ' ' then some .gap else if isTokenChar c then some .name else none
  | .name => if c = '=' then some .value else if isTokenChar c then some .name else none
  | .value => if c = '"' then some .opened else if isTokenChar c then some .token else none
  | .token => if c = ';' then some .gap else if isTokenChar c then some .token else none
  | .opened => if isQuotedChar c then some .quoted else none
  | .quoted => if c = '"' then some .closed else if isQuotedChar c then some .quoted else none
  | .closed => if c = ';' then some .gap else if c = ' ' then some .closed else none

/-- Whether parameters may end here. -/
def Place.isEnd : Place → Bool
  | .gap | .value | .token | .closed => true
  | .name | .opened | .quoted => false

/-- Whether these are parameters, from a place on. -/
def areParameters : Place → List Char → Bool
  | place, [] => place.isEnd
  | place, c :: rest =>
    match place.next c with
    | some next => areParameters next rest
    | none => false

/-- A subtype and its suffix: what stands behind the last plus sign, unless that comes first. -/
def splitSuffix (name : List Char) : String × Option String :=
  let suffix := (name.reverse.takeWhile (· ≠ '+')).reverse
  let subtype := name.take (name.length - suffix.length - 1)
  if suffix.length < name.length ∧ subtype ≠ [] then
    (String.ofList subtype, some (String.ofList suffix))
  else
    (String.ofList name, none)

/-- The media type that a text spells. -/
def ofText? (text : String) : Option MediaType :=
  let chars := text.toList.map Char.toLower
  let type := chars.takeWhile isTokenChar
  match type, chars.drop type.length with
  | _ :: _, '/' :: rest =>
    let name := rest.takeWhile isTokenChar
    let (subtype, suffix) := splitSuffix name
    let found := some ⟨String.ofList type, subtype, suffix⟩
    match rest.drop name.length with
    | [] => found
    | ';' :: parameters => if name ≠ [] ∧ areParameters .gap parameters then found else none
    | _ => none
  | _, _ => none

/-- Whether a media type is that of JSON texts. -/
def isJson (m : MediaType) : Bool :=
  m.type = "application" && (m.subtype = "json" || m.suffix = some "json")

end MediaType

end OffsetService
