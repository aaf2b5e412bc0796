import OffsetService.Proofs.Utf8
import OffsetService.Proofs.Utf8.Decoded

/-!
# Where a byte string can be cut before it is decoded

An ASCII byte is no part of a longer character. So the machine is between two characters behind it,
whatever came before: what was begun there is a broken piece, and the byte is a character of its own
(`exists_scan_ascii`). A string that is cut where the machine is between characters is decoded part
by part (`units_append_of_between`), and so is one that is cut behind an ASCII byte
(`units_append_of_ascii`).
-/

namespace OffsetService.Utf8

/-- What was emitted before has no bearing on what comes. -/
theorem scan_eq (s : State) (out : List (Option Char)) (bytes : Bytes) :
    scan (s, out) bytes = ((scan (s, []) bytes).1, (scan (s, []) bytes).2 ++ out) := by
  induction bytes generalizing s out with
  | nil => rfl
  | cons b rest ih =>
    rw [scan_cons, scan_cons, ih, ih _ ((step s b).1.reverse ++ []), List.append_nil,
      List.append_assoc]

theorem close_append (s : State) (new old : List (Option Char)) :
    close (s, new ++ old) = old.reverse ++ close (s, new) := by
  cases s with
  | between => exact List.reverse_append
  | inside owed low high bits =>
    rw [close, close, ← List.cons_append, List.reverse_append]

/-- A string that is cut between two characters is decoded part by part. -/
theorem units_append_of_between {left : Bytes} (h : (scan (.between, []) left).1 = .between)
    (right : Bytes) : units (left ++ right) = units left ++ units right := by
  have hleft : scan (.between, []) left = (.between, (scan (.between, []) left).2) :=
    Prod.ext h rfl
  rw [units, units, scan_append, hleft, scan_eq, close_append]
  rfl

/-- However a string goes on, no state is reached in which an ASCII byte would be taken for part of
a longer character. -/
theorem wide_scan {s : State} (wide : s.Wide) (out : List (Option Char)) (bytes : Bytes) :
    (scan (s, out) bytes).1.Wide := by
  induction bytes generalizing s out with
  | nil => exact wide
  | cons b rest ih => exact ih (wide_step wide b) _

/-- Behind an ASCII byte the machine is between two characters, and the byte is the last one. -/
theorem exists_scan_ascii (above : Bytes) {b : UInt8} (ascii : b < 0x80) :
    ∃ out, scan (.between, []) (above ++ [b]) = (.between, some (Char.ofNat b.toNat) :: out) := by
  have hwide : (scan (.between, []) above).1.Wide := wide_scan (s := .between) trivial [] above
  obtain ⟨hstate, hlast⟩ := step_ascii (scan (.between, []) above).1 ascii
    fun owed low high bits hinside => by
      rw [hinside] at hwide
      exact UInt8.le_iff_toNat_le.2 hwide.1
  obtain ⟨before, hunits⟩ := List.getLast?_eq_some_iff.1 hlast
  rw [scan_append]
  generalize scan (.between, []) above = scanned at hstate hunits
  refine ⟨before.reverse ++ scanned.2, ?_⟩
  show ((step scanned.1 b).2, (step scanned.1 b).1.reverse ++ scanned.2) = _
  rw [hstate, hunits, List.reverse_append]
  rfl

/-- A string that is cut behind an ASCII byte is decoded part by part. -/
theorem units_append_of_ascii (above : Bytes) {b : UInt8} (ascii : b < 0x80) (rest : Bytes) :
    units ((above ++ [b]) ++ rest) = units (above ++ [b]) ++ units rest := by
  obtain ⟨out, hscan⟩ := exists_scan_ascii above ascii
  exact units_append_of_between (by rw [hscan]) rest

/-- Parts that are decoded one by one give the text part by part. -/
theorem lossy_append {left right : Bytes} (h : units (left ++ right) = units left ++ units right) :
    lossy (left ++ right) = lossy left ++ lossy right := by
  rw [lossy, h, List.map_append, String.ofList_append, ← lossy, ← lossy]

/-- The text of a string that ends in an ASCII byte ends in that character. -/
theorem exists_lossy_ascii (above : Bytes) {b : UInt8} (ascii : b < 0x80) :
    ∃ before, (lossy (above ++ [b])).toList = before ++ [Char.ofNat b.toNat] := by
  obtain ⟨out, hscan⟩ := exists_scan_ascii above ascii
  refine ⟨out.reverse.map (·.getD replacement), ?_⟩
  rw [lossy, String.toList_ofList, units, hscan, close, List.reverse_cons, List.map_append]
  rfl

end OffsetService.Utf8
