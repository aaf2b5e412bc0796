import OffsetService.Json.Number
import OffsetService.Text.Hex

/-!
# Reading JSON texts

A text is read once from left to right, and the first thing that is wrong with it decides. A reader
takes what it reads off the front. It refuses a text that is no JSON as malformed, and one that is
JSON of another kind than asked for as unfit, at the moment it meets it: what follows is not looked
at.

Values are either kept (`value`) or skipped (`skip`). Kept values may be nested only so deep, their
numbers must be within range, and the escapes in their texts must spell characters; skipped values
only have to be well-formed. Loops carry a `budget`: every turn takes at least one character off the
text, so the length of the text is enough for any of them.
-/

namespace OffsetService.Json

/-- A computation that takes characters off the front of a text. -/
abbrev Reader := StateT (List Char) (Except Refusal)

namespace Reader

/-- Refuse the text as no JSON. -/
def malformed {α : Type} : Reader α := throw .malformed

/-- Refuse the text as JSON that does not fit. -/
def unfit {α : Type} (misfit : Misfit) : Reader α := throw (.unfit misfit)

/-- Whether a character is white space between tokens. -/
def isBlank (c : Char) : Bool :=
  c = ' ' || c = '\t' || c = '\n' || c = '\r'

/-- The next character that is not white space, left in place; nothing at the end of the text. -/
def peek? : Reader (Option Char) := fun text =>
  let rest := text.dropWhile isBlank
  .ok (rest.head?, rest)

/-- Drop the next character. -/
def drop : Reader Unit := modify List.tail

/-- These characters and no others. -/
def exactly (expected : List Char) : Reader Unit := fun text =>
  if expected.isPrefixOf text then .ok ((), text.drop expected.length) else .error .malformed

/-- This character behind white space. -/
def token (c : Char) : Reader Unit := do
  if (← peek?) = some c then drop else malformed

/-- A number. -/
def number : Reader Number := fun text =>
  match takeNumber text with
  | .error e => .error e
  | .ok (shown, rest) =>
    match shown.value with
    | .error e => .error e
    | .ok n => .ok (n, rest)

/-! ## Texts -/

/-- Where a reader stands inside a text between quotes. -/
inductive Inside where
  | plain
  /-- Behind a backslash. -/
  | escape
  /-- In a code of four digits, of which `left` are missing. A code in the upper half of a pair
  stands in `high` while the lower half is read. -/
  | code (left value : Nat) (high : Option Nat)
  /-- Behind the upper half of a pair, which only a code of the lower half can follow. -/
  | afterHigh (high : Nat)
  /-- Behind the upper half of a pair and a backslash. -/
  | afterHighEscape (high : Nat)
  deriving DecidableEq, Repr

/-- The character that a one-letter escape stands for. -/
def escaped? (c : Char) : Option Char :=
  match c with
  | '"' => some '"'
  | '\\' => some '\\'
  | '/' => some '/'
  | 'b' => some '\x08'
  | 'f' => some '\x0c'
  | 'n' => some '\n'
  | 'r' => some '\r'
  | 't' => some '\t'
  | _ => none

/-- The state behind a complete code, and the character that it completes. When texts are skipped,
any code will do. -/
def closeCode (kept : Bool) (value : Nat) (high : Option Nat) :
    Except Refusal (Inside × Option Char) :=
  if !kept then
    .ok (.plain, none)
  else
    match high with
    | some high =>
      if 0xDC00 ≤ value ∧ value < 0xE000 then
        .ok (.plain, some (Char.ofNat (0x10000 + (high - 0xD800) * 0x400 + (value - 0xDC00))))
      else .error .malformed
    | none =>
      if 0xD800 ≤ value ∧ value < 0xDC00 then .ok (.afterHigh value, none)
      else if 0xDC00 ≤ value ∧ value < 0xE000 then .error .malformed
      else .ok (.plain, some (Char.ofNat value))

/-- The state behind one more character that is not the closing quote, and the character of the text
that it completes. -/
def stepText (kept : Bool) (state : Inside) (c : Char) : Except Refusal (Inside × Option Char) :=
  match state with
  | .plain =>
    if c = '\\' then .ok (.escape, none)
    else if c.toNat < 0x20 then .error .malformed
    else .ok (.plain, some c)
  | .escape =>
    if c = 'u' then .ok (.code 4 0 none, none)
    else
      match escaped? c with
      | some shown => .ok (.plain, some shown)
      | none => .error .malformed
  | .code left value high =>
    match Hex.value? c with
    | none => .error .malformed
    | some digit =>
      let value := 16 * value + digit
      if left ≤ 1 then closeCode kept value high else .ok (.code (left - 1) value high, none)
  | .afterHigh high => if c = '\\' then .ok (.afterHighEscape high, none) else .error .malformed
  | .afterHighEscape high =>
    if c = 'u' then .ok (.code 4 0 (some high), none) else .error .malformed

/-- A text behind its opening quote, up to and including its closing quote. The characters read so
far are newest first. -/
def textFrom (kept : Bool) (state : Inside) (found : List Char) :
    List Char → Except Refusal (String × List Char)
  | [] => .error .malformed
  | c :: rest =>
    if c = '"' ∧ state = .plain then
      .ok (String.ofList found.reverse, rest)
    else
      match stepText kept state c with
      | .error e => .error e
      | .ok (state, some shown) => textFrom kept state (shown :: found) rest
      | .ok (state, none) => textFrom kept state found rest

/-- A text behind its opening quote. -/
def textBody (kept : Bool) : Reader String := textFrom kept .plain []

/-- The name of a member: a text. -/
def memberName : Reader String := do
  if (← peek?) = some '"' then
    drop
    textBody true
  else malformed

/-! ## Sequences and objects -/

/-- Items up to the closing mark, behind those found so far, newest first. The opening mark has been
read, and the closing mark is read as well. -/
def itemsFrom {α : Type} (item : Reader α) : (budget : Nat) → List α → Reader (List α)
  | 0, _ => malformed
  | budget + 1, found => do
    let next ← item
    match ← peek? with
    | some ',' =>
      drop
      itemsFrom item budget (next :: found)
    | some ']' =>
      drop
      return (next :: found).reverse
    | _ => malformed

/-- Items between an opening mark, which has been read, and a closing mark. -/
def items {α : Type} (item : Reader α) (budget : Nat) : Reader (List α) := do
  if (← peek?) = some ']' then
    drop
    return []
  else
    itemsFrom item budget []

/-- Members up to the closing mark, each taken in by `step`, which is given its name and reads the
rest of it. The opening mark has been read, and the closing mark is read as well. -/
def membersFrom {σ : Type} (step : σ → String → Reader σ) : (budget : Nat) → σ → Reader σ
  | 0, _ => malformed
  | budget + 1, s => do
    let s ← step s (← memberName)
    match ← peek? with
    | some ',' =>
      drop
      membersFrom step budget s
    | some '}' =>
      drop
      return s
    | _ => malformed

/-- Members between an opening mark, which has been read, and a closing mark. -/
def members {σ : Type} (step : σ → String → Reader σ) (budget : Nat) (s : σ) : Reader σ := do
  if (← peek?) = some '}' then
    drop
    return s
  else
    membersFrom step budget s

/-- The colon behind the name of a member, and then its value. -/
def colon {α : Type} (value : Reader α) : Reader α := do
  token ':'
  value

/-- Collect the members of an object, newest first. -/
def collectMember {α : Type} (value : Reader α) (found : List (String × α)) (name : String) :
    Reader (List (String × α)) := do
  return (name, ← colon value) :: found

/-! ## Values -/

/-- The value that begins with this character, if it is neither a sequence nor an object. -/
def scalar? (c : Char) : Reader (Option Value) := do
  match c with
  | 'n' =>
    exactly ['n', 'u', 'l', 'l']
    return some .null
  | 't' =>
    exactly ['t', 'r', 'u', 'e']
    return some (.boolean true)
  | 'f' =>
    exactly ['f', 'a', 'l', 's', 'e']
    return some (.boolean false)
  | '"' =>
    drop
    return some (.text (← textBody true))
  | c =>
    if c = '-' ∨ isDigit c then
      return some (.number (← number))
    else
      return none

/-- The value that begins with this character, which is neither a sequence nor an object. -/
def scalar (c : Char) : Reader Value := do
  match ← scalar? c with
  | some v => return v
  | none => malformed

/-- A kept value, in which sequences and objects may be nested `depth` deep. -/
def value (budget : Nat) : (depth : Nat) → Reader Value
  | 0 => do
    match ← peek? with
    | none => malformed
    | some c => scalar c
  | depth + 1 => do
    match ← peek? with
    | none => malformed
    | some '[' =>
      drop
      return .sequence (← items (value budget depth) budget)
    | some '{' =>
      drop
      return .object (← members (collectMember (value budget depth)) budget []).reverse
    | some c => scalar c

/-- What stands in place of a value that was asked for. Sequences and objects are not read. -/
def found : Reader Found := do
  match ← peek? with
  | none => malformed
  | some '[' => return .sequence
  | some '{' => return .map
  | some c => return (← scalar c).found

/-- Refuse what stands here in place of what was asked for. -/
def mismatch {α : Type} (expected : String) : Reader α := do
  unfit (.type (← found) expected)

/-- A text. -/
def text : Reader String := do
  if (← peek?) = some '"' then
    drop
    textBody true
  else
    mismatch "a string"

/-! ## Skipped values -/

/-- The name of a skipped member and the colon behind it. -/
def skipName : Reader Unit := do
  token '"'
  discard <| textBody false
  token ':'

/-- Skip what is left of the sequences and objects whose closing marks are given, innermost first.
When `atValue` holds, a value comes first. -/
def skipFrom : (budget : Nat) → (atValue : Bool) → (closings : List Char) → Reader Unit
  | 0, _, _ => malformed
  | budget + 1, true, closings => do
    match ← peek? with
    | none => malformed
    | some '[' =>
      drop
      if (← peek?) = some ']' then
        drop
        skipFrom budget false closings
      else
        skipFrom budget true (']' :: closings)
    | some '{' =>
      drop
      if (← peek?) = some '}' then
        drop
        skipFrom budget false closings
      else
        skipName
        skipFrom budget true ('}' :: closings)
    | some '"' =>
      drop
      discard <| textBody false
      skipFrom budget false closings
    | some c =>
      if c = '-' ∨ isDigit c then
        (fun text => (takeNumber text).map fun (_, rest) => ((), rest) : Reader Unit)
      else
        match ← scalar? c with
        | some _ => pure ()
        | none => malformed
      skipFrom budget false closings
  | _, false, [] => return
  | budget + 1, false, closing :: closings => do
    match ← peek? with
    | some ',' =>
      drop
      if closing = '}' then
        skipName
      skipFrom budget true (closing :: closings)
    | c =>
      if c = some closing then
        drop
        skipFrom budget false closings
      else malformed

/-- Skip a value of any depth. -/
def skip (budget : Nat) : Reader Unit :=
  skipFrom (2 * budget) true []

/-! ## Whole texts -/

/-- How deep kept values may be nested, from the outermost on. -/
def maxDepth : Nat := 127

/-- Read a whole text: nothing but white space may follow. A text with a broken end, which cannot be
read past its last character, is malformed where that end is reached. -/
def whole {α : Type} (reader : (budget : Nat) → Reader α) (text : List Char) (isBroken : Bool) :
    Except Refusal α :=
  match StateT.run (reader (text.length + 1)) text with
  | .error e => .error e
  | .ok (a, rest) =>
    if !isBroken && (rest.dropWhile isBlank).isEmpty then .ok a else .error .malformed

end Reader

end OffsetService.Json
