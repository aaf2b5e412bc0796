import OffsetService.Text.Blank
import OffsetService.Text.Digits
import OffsetService.Text.Fields
import OffsetService.Traced

/-!
# Log filters

A log filter is a list of directives between commas. Each sets the greatest verbosity that is shown,
for the events whose target begins with a given text, or for all. Of the directives that cover an
event the one with the longest target rules, and of several with that target the last
(`weight_le_of_ruling?`); an event that none covers is not shown.
-/

namespace OffsetService

/-- What is shown of the events that a directive covers. -/
structure LogDirective where
  /-- The start of the targets that are covered, or nothing if all are. -/
  target : Option (List Char)
  /-- The greatest verbosity that is shown. -/
  ceiling : Nat
  deriving DecidableEq, Repr

namespace LogDirective

/-- Whether a directive covers the events of a target. -/
def covers (d : LogDirective) (target : List Char) : Bool :=
  match d.target with
  | none => true
  | some start => start.isPrefixOf target

/-- How closely a directive tells what it covers. -/
def weight (d : LogDirective) : Nat :=
  match d.target with
  | none => 0
  | some start => start.length + 1

/-! ## Reading -/

/-- The verbosity of the most verbose level. -/
def everything : Nat := Level.trace.verbosity

/-- The verbosity that a word names: a level in any case, or `off`. -/
def ceilingOfWord? (text : List Char) : Option Nat :=
  match String.ofList (text.map Char.toLower) with
  | "off" => some 0
  | "error" => some Level.error.verbosity
  | "warn" => some Level.warn.verbosity
  | "info" => some Level.info.verbosity
  | "debug" => some Level.debug.verbosity
  | "trace" => some Level.trace.verbosity
  | _ => none

/-- The verbosity that a text names, by a word or by its number. -/
def ceiling? (text : List Char) : Option Nat :=
  let digits := match text with
    | '+' :: digits => digits
    | digits => digits
  match Digits.read? 10 digits with
  | some n => if n ≤ everything then some n else none
  | none => ceilingOfWord? text

/-- Whether a directive can begin with a character. Letters and digits beyond ASCII can, and so can
everything else there: no target begins with one. -/
def opens (c : Char) : Bool :=
  c.isAlphanum || c = '-' || c = ':' || c = '_' || c.toNat > 127

/-- The directive that a text spells: a level, a target, or a target and a level behind an equals
sign. Without a level everything is shown. -/
def ofText? (text : List Char) : Option LogDirective :=
  let target := text.takeWhile (· ≠ '=')
  if !((text.dropWhile Blank.isBlank).head?.any opens) then none
  else
    match text.drop target.length with
    | [] =>
      match ceiling? text with
      | some ceiling => some ⟨none, ceiling⟩
      | none => some ⟨some target, everything⟩
    | _ :: level =>
      if text.head?.any Blank.isBlank then none
      else if level = [] then some ⟨some target, everything⟩
      else (ceiling? level).map fun ceiling => ⟨some target, ceiling⟩

end LogDirective

/-- Which events are shown. -/
structure LogFilter where
  directives : List LogDirective
  deriving DecidableEq, Repr

namespace LogFilter

/-- The filter that shows nothing more verbose than what informs. -/
def usual : LogFilter := ⟨[⟨none, Level.info.verbosity⟩]⟩

/-- The filter that a text spells. Empty directives are passed over. -/
def ofText? (text : String) : Option LogFilter :=
  (((Fields.split (· = ',') text.toList).filter (· ≠ [])).mapM LogDirective.ofText?).map .mk

/-- The environment variable. -/
def variableName : String := "RUST_LOG"

/-- The filter of the environment: the usual one if the variable is not set or spells none. -/
def ofEnvironment (environment : List (String × String)) : LogFilter :=
  ((environment.lookup variableName).bind ofText?).getD usual

/-- The directive, of those that cover a target, that weighs most, and of several such the last. -/
def heaviest (target : List Char) : List LogDirective → Option LogDirective
  | [] => none
  | d :: rest =>
    match heaviest target rest with
    | some later => if d.covers target ∧ later.weight < d.weight then some d else some later
    | none => if d.covers target then some d else none

/-- The directive that rules over a target. -/
def ruling? (f : LogFilter) (target : String) : Option LogDirective :=
  heaviest target.toList f.directives

/-- Whether an event is shown. -/
def shows (f : LogFilter) (event : Event) : Bool :=
  match f.ruling? event.target with
  | some d => event.level.verbosity ≤ d.ceiling
  | none => false

theorem heaviest_eq_none {target : List Char} {ds : List LogDirective}
    (h : heaviest target ds = none) : ∀ d ∈ ds, d.covers target = false := by
  induction ds with
  | nil => simp
  | cons d rest ih =>
    simp only [heaviest] at h
    split at h
    next => split at h <;> cases h
    next hrest =>
      split at h
      next => cases h
      next hd =>
        intro e he
        rcases List.mem_cons.1 he with rfl | he
        · simpa using hd
        · exact ih hrest e he

theorem covers_of_heaviest {target : List Char} {ds : List LogDirective} {r : LogDirective}
    (h : heaviest target ds = some r) :
    r ∈ ds ∧ r.covers target ∧ ∀ d ∈ ds, d.covers target → d.weight ≤ r.weight := by
  induction ds generalizing r with
  | nil => cases h
  | cons d rest ih =>
    simp only [heaviest] at h
    split at h
    next later hlater =>
      obtain ⟨hmem, hcovers, hmost⟩ := ih hlater
      split at h
      next hd =>
        cases h
        refine ⟨by simp, hd.1, fun e he hce => ?_⟩
        rcases List.mem_cons.1 he with rfl | he
        · exact Nat.le_refl _
        · exact Nat.le_of_lt (Nat.lt_of_le_of_lt (hmost e he hce) hd.2)
      next hd =>
        cases h
        refine ⟨by simp [hmem], hcovers, fun e he hce => ?_⟩
        rcases List.mem_cons.1 he with rfl | he
        · exact Nat.le_of_not_lt fun hlt => hd ⟨hce, hlt⟩
        · exact hmost e he hce
    next hrest =>
      split at h
      next hd =>
        cases h
        refine ⟨by simp, hd, fun e he hce => ?_⟩
        rcases List.mem_cons.1 he with rfl | he
        · exact Nat.le_refl _
        · simp [heaviest_eq_none hrest e he] at hce
      next => cases h

/-- The directive that rules is one of the filter, covers the target, and weighs as much as any that
does. -/
theorem weight_le_of_ruling? {f : LogFilter} {target : String} {r : LogDirective}
    (h : f.ruling? target = some r) :
    r ∈ f.directives ∧ r.covers target.toList ∧
      ∀ d ∈ f.directives, d.covers target.toList → d.weight ≤ r.weight :=
  covers_of_heaviest h

end LogFilter

end OffsetService
