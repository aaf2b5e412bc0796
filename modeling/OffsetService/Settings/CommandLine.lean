import OffsetService.Settings.Choices

/-!
# Command lines

A command line is read from the left, and the first thing wrong with it, or the first question for
help or the version, ends the reading. A word that begins with a hyphen is an option and never the
value of one, unless a double hyphen has ended the options.

A value that is joined to its option is looked at on the spot. One that is a word of its own waits,
and is looked at when the next option is understood or the line ends (`Scan.settle`). So a word that
is no option, and a value behind an option that takes none, are reported before what is wrong with a
value that waits.
-/

namespace OffsetService

/-- What a command line ends in when it sets no parameters. -/
inductive Ending where
  | help
  | version
  | refused (fault : UsageFault)
  deriving DecidableEq, Repr

namespace CommandLine

/-- What has been read of a command line: the parameters that are set, and the option whose value
waits or is yet to come. -/
structure Scan where
  choices : Choices
  waiting : Option (Parameter × Option String)
  deriving DecidableEq, Repr

namespace Scan

/-- The start of a line. -/
def start : Scan := ⟨.none, none⟩

/-- Set a parameter by its option. -/
def give (choices : Choices) (p : Parameter) (text : Option String) : Except Ending Choices :=
  (choices.give p text).mapError .refused

/-- Look at the value that waits. -/
def settle (s : Scan) : Except Ending Choices :=
  match s.waiting with
  | none => .ok s.choices
  | some (p, text) => give s.choices p text

/-- Refuse a word that is no option. -/
def refuse (word : List Char) : Except Ending Scan :=
  .error (.refused (.unknownArgument (String.ofList word)))

/-- Understand an option, with the value that is joined to it. -/
def choose (s : Scan) (option : Switch) (joined : Option String) : Except Ending Scan := do
  let choices ← s.settle
  match option with
  | .help => .error .help
  | .version => .error .version
  | .parameter p =>
    if p.takesValue then
      match joined with
      | none => return ⟨choices, some (p, none)⟩
      | some text => return ⟨← give choices p (some text), none⟩
    else return ⟨← give choices p (some "true"), none⟩

/-- Whether an option takes a value. -/
def takesValue : Switch → Bool
  | .parameter p => p.takesValue
  | .help | .version => false

/-- Read letters behind one hyphen. What stands behind an option that takes a value is the value,
with or without an equals sign. -/
def letters (s : Scan) : List Char → Except Ending Scan
  | [] => .ok s
  | c :: rest =>
    match Switch.ofLetter? c with
    | none => refuse ['-', c]
    | some option =>
      if takesValue option then
        match rest with
        | [] => s.choose option none
        | '=' :: value => s.choose option (some (String.ofList value))
        | value => s.choose option (some (String.ofList value))
      else do letters (← s.choose option none) rest

/-- Read what stands behind two hyphens: the word of an option, and a value behind an equals
sign. -/
def long (s : Scan) (text : List Char) : Except Ending Scan :=
  let word := text.takeWhile (· ≠ '=')
  match Switch.ofWord? word, text.drop word.length with
  | none, _ => refuse ('-' :: '-' :: word)
  | some option, [] => s.choose option none
  | some option, _ :: value =>
    if takesValue option then s.choose option (some (String.ofList value))
    else .error (.refused (.unwantedValue option))

/-- Read a word that is no option: the value that is yet to come. -/
def value (s : Scan) (text : List Char) : Except Ending Scan :=
  match s.waiting with
  | some (p, none) => .ok { s with waiting := some (p, some (String.ofList text)) }
  | _ => refuse text

/-- Read a word. -/
def word (s : Scan) : List Char → Except Ending Scan
  | '-' :: '-' :: text => s.long text
  | ['-'] => s.value ['-']
  | '-' :: text => s.letters text
  | text => s.value text

/-- Read words to the end of the line. -/
def words (s : Scan) : List String → Except Ending Choices
  | [] => s.settle
  | ["--"] => s.settle
  | "--" :: text :: _ => .error (.refused (.unknownArgument text))
  | text :: rest => do words (← s.word text.toList) rest

end Scan

/-- The parameters that a command line and the variables set. -/
def read (arguments : List String) (environment : List (String × String)) :
    Except Ending Choices := do
  let choices ← Scan.start.words arguments
  (choices.complete environment Parameter.all).mapError .refused

end CommandLine

end OffsetService
