import OffsetService.Bytes

/-!
# UTF-8

A machine reads bytes one at a time. Between characters it is in `State.between`; inside one it
knows the range of the next byte and how many are owed after it. What it emits is a list of units:
`some c` for a character, `none` for a broken piece. A broken piece is the longest run of bytes that
begins some character and cannot go on (a lone continuation byte or a byte that begins nothing is a
piece by itself), so each piece yields one unit.

Two readings are built on the units: `lossy` puts U+FFFD for a broken piece, and `validHead` keeps
the characters before the first one. The machine is a left fold, so a text may be cut anywhere
(`scan_append`), and after an ASCII byte it is always between characters (`step_ascii`).
-/

namespace OffsetService.Utf8

/-- Where the machine stands between two bytes. -/
inductive State where
  | between
  /-- Inside a character: the next byte lies in `low … high`, `owed` bytes follow it, and the bytes
  so far spell `bits`. -/
  | inside (owed : Nat) (low high : UInt8) (bits : Nat)
  deriving DecidableEq, Repr

/-- The first byte of a character, or a broken piece of one byte. -/
def first (b : UInt8) : List (Option Char) × State :=
  if b < 0x80 then ([some (Char.ofNat b.toNat)], .between)
  else if b < 0xC2 then ([none], .between)
  else if b < 0xE0 then ([], .inside 0 0x80 0xBF (b.toNat - 0xC0))
  else if b = 0xE0 then ([], .inside 1 0xA0 0xBF 0)
  else if b = 0xED then ([], .inside 1 0x80 0x9F 0xD)
  else if b < 0xF0 then ([], .inside 1 0x80 0xBF (b.toNat - 0xE0))
  else if b = 0xF0 then ([], .inside 2 0x90 0xBF 0)
  else if b < 0xF4 then ([], .inside 2 0x80 0xBF (b.toNat - 0xF0))
  else if b = 0xF4 then ([], .inside 2 0x80 0x8F 4)
  else ([none], .between)

/-- One byte: the units it completes, and the state after it. -/
def step : State → UInt8 → List (Option Char) × State
  | .between, b => first b
  | .inside owed low high bits, b =>
    if low ≤ b ∧ b ≤ high then
      let bits := 64 * bits + (b.toNat - 0x80)
      match owed with
      | 0 => ([some (Char.ofNat bits)], .between)
      | owed + 1 => ([], .inside owed 0x80 0xBF bits)
    else
      (none :: (first b).1, (first b).2)

/-- The state after some bytes, and the units emitted so far, newest first. -/
def scan (start : State × List (Option Char)) (bytes : Bytes) : State × List (Option Char) :=
  bytes.foldl (fun s b => let next := step s.1 b; (next.2, next.1.reverse ++ s.2)) start

theorem scan_append (start : State × List (Option Char)) (left right : Bytes) :
    scan start (left ++ right) = scan (scan start left) right := by
  simp [scan, List.foldl_append]

/-- An ASCII byte is never part of a longer character: after it the machine is between characters,
and the byte itself is the last unit. -/
theorem step_ascii (s : State) {b : UInt8} (h : b < 0x80)
    (hrange : ∀ owed low high bits, s = .inside owed low high bits → 0x80 ≤ low) :
    (step s b).2 = .between ∧ (step s b).1.getLast? = some (some (Char.ofNat b.toNat)) := by
  cases s with
  | between => simp [step, first, h]
  | inside owed low high bits =>
    have hlow : 0x80 ≤ low := hrange owed low high bits rfl
    have hnot : ¬(low ≤ b ∧ b ≤ high) := by
      rintro ⟨hl, _⟩
      exact absurd (UInt8.lt_of_lt_of_le h (UInt8.le_trans hlow hl)) (UInt8.lt_irrefl b)
    simp [step, hnot, first, h]

/-- A character that the end of the text cuts short is a broken piece. -/
def close : State × List (Option Char) → List (Option Char)
  | (.between, out) => out.reverse
  | (.inside .., out) => (none :: out).reverse

/-- The characters and broken pieces of a byte string, in order. -/
def units (bytes : Bytes) : List (Option Char) :=
  close (scan (.between, []) bytes)

/-- The character that stands for a broken piece. -/
def replacement : Char := '\uFFFD'

/-- The text of a byte string, with U+FFFD for each broken piece. -/
def lossy (bytes : Bytes) : String :=
  String.ofList ((units bytes).map (·.getD replacement))

/-- The characters before the first broken piece, and whether there is no such piece. -/
def validHead (bytes : Bytes) : List Char × Bool :=
  let all := units bytes
  ((all.takeWhile Option.isSome).filterMap id, all.all Option.isSome)

/-- The bytes of a text. -/
def encode (text : String) : Bytes :=
  text.toList.flatMap String.utf8EncodeChar

end OffsetService.Utf8
