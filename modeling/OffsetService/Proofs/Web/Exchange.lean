import OffsetService.Proofs.Digits
import OffsetService.Proofs.Utf8
import OffsetService.Web.Exchange

/-!
# Exchanges are understood

The host and the port of an address are found again where one was put behind the other
(`hostAndPort_of_port`), and without a port it is the usual one (`hostAndPort_of_noColon`).

What arrives on a connection is cut where the lines of its head end (`head_written`), whatever the
body is. When the head announces the length of the body and the connection may be closed early, the
reply has the bytes that arrived, and is taken for broken exactly if some are missing
(`ofBytes?_of_announced`).
-/

namespace OffsetService

namespace Address

/-- What follows the last mark of a text. -/
theorem takeWhile_reverse {mark : Char} {behind : List Char} (h : mark ∉ behind)
    (front : List Char) :
    ((front ++ mark :: behind).reverse.takeWhile (· ≠ mark)).reverse = behind := by
  rw [List.reverse_append, List.reverse_cons, List.append_assoc, List.singleton_append,
    Fields.takeWhile_append (by simpa using h), List.reverse_reverse]

/-- A text without the mark is kept whole. -/
theorem takeWhile_reverse_of_notMem {mark : Char} {text : List Char} (h : mark ∉ text) :
    (text.reverse.takeWhile (· ≠ mark)).reverse = text := by
  rw [Fields.takeWhile_of_notMem (by simpa using h), List.reverse_reverse]

/-- A host and a port with a colon between them. The host may have colons of its own, but not at its
end. -/
theorem hostAndPort_of_port {a : Address} {host : String} {port : UInt16}
    (hauthority : a.authority = host ++ ":" ++ toString port.toNat) (hat : '@' ∉ host.toList)
    (hlast : host.toList.getLast? ≠ some ':') : a.hostAndPort = (host, port) := by
  have htext : a.authority.toList = host.toList ++ ':' :: Nat.toDigits 10 port.toNat := by
    rw [hauthority, String.toList_append, String.toList_append, List.append_assoc]
    exact congrArg _ (congrArg _ Nat.toList_repr)
  have hnoAt : '@' ∉ host.toList ++ ':' :: Nat.toDigits 10 port.toNat := by
    have hdigits : '@' ∉ Nat.toDigits 10 port.toNat :=
      Digits.notMem_toDigits (.inl rfl) (by decide) _
    rw [List.mem_append, List.mem_cons]
    rintro (hhost | hcolon | hport)
    · exact hat hhost
    · cases hcolon
    · exact hdigits hport
  have hcolon : ':' ∉ Nat.toDigits 10 port.toNat :=
    Digits.notMem_toDigits (.inl rfl) (by decide) _
  have hcount : (host.toList ++ ':' :: Nat.toDigits 10 port.toNat).length
      = host.toList.length + (Nat.toDigits 10 port.toNat).length + 1 := by
    simp [Nat.add_assoc]
  have hhost : (host.toList ++ ':' :: Nat.toDigits 10 port.toNat).take
      ((host.toList ++ ':' :: Nat.toDigits 10 port.toNat).length
        - (Nat.toDigits 10 port.toNat).length - 1) = host.toList := by
    have hrest : host.toList.length + (Nat.toDigits 10 port.toNat).length + 1
        - (Nat.toDigits 10 port.toNat).length - 1 = host.toList.length := by omega
    rw [hcount, hrest, List.take_left]
  unfold hostAndPort
  simp only [htext, takeWhile_reverse_of_notMem hnoAt, takeWhile_reverse hcolon, hhost,
    Digits.read?_decimal]
  rw [if_pos ⟨by rw [hcount]; omega, hlast⟩, String.ofList_toList, Nat.toUInt16_eq,
    UInt16.ofNat_toNat]

/-- A host alone, with the usual port. -/
theorem hostAndPort_of_noColon {a : Address} (hat : '@' ∉ a.authority.toList)
    (hcolon : ':' ∉ a.authority.toList) : a.hostAndPort = (a.authority, 80) := by
  unfold hostAndPort
  simp only [takeWhile_reverse_of_notMem hat, takeWhile_reverse_of_notMem hcolon,
    String.ofList_toList]
  split
  · rw [if_neg fun h => absurd h.1 (Nat.lt_irrefl _)]
  · rfl

example : (Address.mk "http" "[::1]:8000" [] none).hostAndPort = ("[::1]", 8000) := by
  decide +kernel

end Address

namespace Reply

/-- A text that can stand in a line. -/
def IsLine (line : String) : Prop := line ≠ "" ∧ '\n' ∉ line.toList

/-- Lines, an empty line and a body. -/
def written (lines : List String) (body : Bytes) : Bytes :=
  (lines.flatMap fun line => Utf8.encode line ++ [13, 10]) ++ [13, 10] ++ body

theorem head_append {front : Bytes} (h : 10 ∉ front) (begun rest : Bytes) :
    head begun (front ++ rest) = head (front.reverse ++ begun) rest := by
  induction front generalizing begun with
  | nil => rfl
  | cons byte more ih =>
    rw [List.mem_cons, not_or] at h
    rw [List.cons_append, head, if_neg (Ne.symm h.1), ih h.2, List.reverse_cons, List.append_assoc]
    rfl

theorem head_line {line : String} (h : IsLine line) (rest : Bytes) :
    head [] (Utf8.encode line ++ [13, 10] ++ rest)
      = (Utf8.encode line :: (head [] rest).1, (head [] rest).2) := by
  have hfeed : (10 : UInt8) ∉ Utf8.encode line ++ [13] := by
    have hline : (10 : UInt8) ∉ Utf8.encode line := Utf8.notMem_encode (by decide) h.2
    simp [hline]
  have hsplit : Utf8.encode line ++ [13, 10] ++ rest
      = (Utf8.encode line ++ [13]) ++ 10 :: rest := by simp
  have hne : Utf8.encode line ≠ [] := by
    intro hnil
    have hline := Utf8.lossy_encode line
    rw [hnil] at hline
    exact h.1 hline.symm
  rw [hsplit, head_append hfeed, head, if_pos rfl, List.append_nil, List.reverse_reverse, bareLine,
    if_pos List.getLast?_concat, List.dropLast_concat]
  split
  next hnil => exact absurd hnil hne
  next => rfl

/-- The head is read line by line, and the body is left as it is. -/
theorem head_written {lines : List String} (h : ∀ line ∈ lines, IsLine line) (body : Bytes) :
    head [] (written lines body) = (lines.map Utf8.encode, body) := by
  induction lines with
  | nil => rfl
  | cons line rest ih =>
    have hline := head_line (h line List.mem_cons_self) (written rest body)
    rw [ih fun l hl => h l (List.mem_cons_of_mem _ hl)] at hline
    rw [written, List.flatMap_cons, List.append_assoc, List.append_assoc,
      ← List.append_assoc _ _ body]
    exact hline

/-- A reply of which a first part arrives, with the length of its whole body announced. -/
theorem ofBytes?_of_announced {first : String} {headers : List String} {status : Nat}
    {body arrived : Bytes} (hlines : ∀ line ∈ first :: headers, IsLine line)
    (hstatus : status? first = some status)
    (hlength : header? headers "content-length" = some (toString body.length))
    (harrived : arrived <+: body) :
    ∃ reply, ofBytes? (written (first :: headers) arrived) = some reply ∧
      reply.status = status ∧ reply.location = header? headers "location" ∧
      reply.body.bytes = arrived ∧ (reply.body.broken = none ↔ arrived = body) := by
  have htexts : ((first :: headers).map Utf8.encode).map Utf8.lossy = first :: headers := by
    rw [List.map_map]
    exact (List.map_congr_left fun line _ => Utf8.lossy_encode line).trans (List.map_id _)
  have hannounced : Digits.read? 10 (toString body.length).toList = some body.length := by
    have hdigits : (toString body.length).toList = Nat.toDigits 10 body.length := Nat.toList_repr
    rw [hdigits, Digits.read?_decimal]
  have hle : arrived.length ≤ body.length := harrived.length_le
  have hbytes : (ArrivingBody.mk [arrived.take body.length] (if arrived.length < body.length
      then some "the connection was closed early" else none)).bytes = arrived := by
    rw [ArrivingBody.bytes, List.flatten_singleton, List.take_of_length_le hle]
  refine ⟨⟨status, header? headers "location", ⟨[arrived.take body.length], _⟩⟩, ?_, rfl, rfl,
    hbytes, ?_⟩
  · unfold ofBytes?
    simp only [head_written hlines, htexts, hstatus, hlength, Option.bind_some, hannounced,
      Option.getD_some]
  · dsimp only
    constructor
    · intro hwhole
      by_contra hne
      have hlt : arrived.length < body.length :=
        Nat.lt_of_le_of_ne hle fun heq => hne (harrived.eq_of_length heq)
      rw [if_pos hlt] at hwhole
      cases hwhole
    · rintro rfl
      exact if_neg (Nat.lt_irrefl _)

end Reply

end OffsetService
