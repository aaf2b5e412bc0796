import OffsetService.Settings.Parameter
import OffsetService.Web.IpAddress

/-!
# Choices

`Choices` holds the parameters that have been set. A text is read as the value of a parameter by
`set`; an option gives its parameter a value at most once (`give`), and a variable only where there
is none yet (`complete`).
-/

namespace OffsetService

/-- Why a command line, or a variable, is refused. -/
inductive UsageFault where
  /-- A word that is no option and no value. -/
  | unknownArgument (word : String)
  /-- A value behind an option that takes none. -/
  | unwantedValue (option : Switch)
  | missingValue (parameter : Parameter)
  | repeated (parameter : Parameter)
  /-- No text where one is needed. -/
  | emptyValue (parameter : Parameter)
  /-- A text other than `true` and `false` for a switch. -/
  | noTruthValue (parameter : Parameter) (text : String)
  /-- A text that spells no value of the parameter. -/
  | invalidValue (parameter : Parameter) (text : String)
  deriving DecidableEq, Repr

/-- The wording of a usage fault. -/
def UsageFault.message : UsageFault → String
  | .unknownArgument word => s!"unexpected argument {word}"
  | .unwantedValue option => s!"--{option.word} takes no value"
  | .missingValue p | .emptyValue p => s!"--{p.word} needs a value"
  | .repeated p => s!"--{p.word} cannot be used more than once"
  | .noTruthValue p text | .invalidValue p text => s!"invalid value {text} for --{p.word}"

/-- The parameters that have been set. -/
structure Choices where
  address : Option IpAddress
  port : Option UInt16
  folder : Option String
  archive : Option String
  log : Option Bool
  deriving DecidableEq, Repr

namespace Choices

/-- Nothing is set. -/
def none : Choices := ⟨.none, .none, .none, .none, .none⟩

/-- Whether a parameter is set. -/
def has (c : Choices) : Parameter → Bool
  | .address => c.address.isSome
  | .port => c.port.isSome
  | .folder => c.folder.isSome
  | .archive => c.archive.isSome
  | .log => c.log.isSome

/-- The number of a port: digits behind an optional sign, up to 65535. -/
def port? (text : List Char) : Option UInt16 :=
  let (isNegative, digits) := match text with
    | '+' :: digits => (false, digits)
    | '-' :: digits => (true, digits)
    | digits => (false, digits)
  match Digits.read? 10 digits with
  | some n => if n < 65536 ∧ (isNegative → n = 0) then some n.toUInt16 else .none
  | .none => .none

/-- Set a parameter to the value that a text spells. -/
def set (c : Choices) (p : Parameter) (text : String) : Except UsageFault Choices :=
  match p with
  | .address =>
    match IpAddress.ofText? text with
    | some address => .ok { c with address := some address }
    | .none => .error (.invalidValue p text)
  | .port =>
    match port? text.toList with
    | some port => .ok { c with port := some port }
    | .none => .error (.invalidValue p text)
  | .folder =>
    if text = "" then .error (.emptyValue p) else .ok { c with folder := some text }
  | .archive => .ok { c with archive := some text }
  | .log =>
    if text = "true" then .ok { c with log := some true }
    else if text = "false" then .ok { c with log := some false }
    else .error (.noTruthValue p text)

/-- Setting a parameter sets that one and no other. -/
theorem has_set {c d : Choices} {p : Parameter} {text : String} (h : c.set p text = .ok d)
    (q : Parameter) : d.has q = (c.has q || q == p) := by
  cases p <;> simp only [set] at h <;> repeat' split at h
  all_goals cases h
  all_goals cases q <;> simp [has]

/-- Set a parameter by its option, with the value that came with it. -/
def give (c : Choices) (p : Parameter) : (text : Option String) → Except UsageFault Choices
  | .none => .error (.missingValue p)
  | some text => if c.has p then .error (.repeated p) else c.set p text

/-- Set the parameters among these that are not set from their variables. -/
def complete (environment : List (String × String)) :
    List Parameter → Choices → Except UsageFault Choices
  | [], c => .ok c
  | p :: rest, c =>
    match c.has p, environment.lookup p.variableName with
    | false, some text => do complete environment rest (← c.set p text)
    | _, _ => complete environment rest c

end Choices

end OffsetService
