import OffsetService.Builder
import OffsetService.Proofs.Database.Reading
import OffsetService.Proofs.Resolve.Definitions
import OffsetService.Proofs.Utf8

/-!
# Reading back type records

Each step of a builder that adds a type record stands for a record (`BuildStep.record?`), and the
data of the step is read back as that record, with one reservation: the index of a field list is
stored in a form where `0` and `0xFFFF` mean that there is none (`Record.fieldsOf`). So what is read
is the record with its field list passed through that form (`readsPadded_typeOf`).

Between the entries of a field list lies padding, which is skipped because its first byte counts all
of it (`fillsUp_padding`) and no entry begins with such a byte. The bytes of a list are described
entry by entry with the position of each (`EntriesFrom`): what a step writes is of this form
(`entriesFrom_written`), and whatever is of this form is read as these entries
(`EntriesFrom.decodeEntries_eq`).
-/

namespace OffsetService

/-! ## What a step stands for -/

/-- The entry of a field list. -/
def NewEntry.toEntry : NewEntry → FieldEntry
  | .member name type offset => .member name type offset
  | .enumerator name value => .enumerator name value

/-- The name in an entry. -/
def NewEntry.name : NewEntry → String
  | .member name _ _ => name
  | .enumerator name _ => name

namespace BuildStep

/-- The type record that a step adds, if it adds one. -/
def record? : BuildStep → Option TypeRecord
  | .struct name fields size _ => some (.struct name false fields size)
  | .forward name => some (.struct name true none 0)
  | .enum name underlying fields _ => some (.enum name false underlying fields)
  | .fieldList entries continuation => some (.fieldList (entries.map NewEntry.toEntry) continuation)
  | .bitfield base length position => some (.bitfield base position length)
  | .constant type => some (.modifier type)
  | _ => none

/-- The names in the type record of a step. -/
def typeNames : BuildStep → List String
  | .struct name .. | .forward name | .enum name .. => [name]
  | .fieldList entries _ => entries.map NewEntry.name
  | _ => []

/-- No name in the type record of the step holds the character zero, which ends a name. -/
def NamesEnd (step : BuildStep) : Prop :=
  ∀ name ∈ step.typeNames, Char.ofNat 0 ∉ name.toList

instance (step : BuildStep) : Decidable step.NamesEnd :=
  inferInstanceAs (Decidable (∀ name ∈ step.typeNames, Char.ofNat 0 ∉ name.toList))

end BuildStep

namespace Record

open Decoder Builder

/-- A field list as it is read back. -/
def storedFields (fields : Option TypeIndex) : Option TypeIndex :=
  fieldsOf (fields.getD 0)

/-! ## Leaves -/

theorem reads_name {name : String} (h : Char.ofNat 0 ∉ name.toList) :
    Reads (Decoder.name false) (nameField name) (Utf8.encode name) :=
  reads_terminatedName (Utf8.notMem_encode (by decide) h)

theorem reads_typeName {name : String} (h : Char.ofNat 0 ∉ name.toList) {properties : Nat}
    (hone : hasSecondName properties = false) :
    Reads (typeName false properties) (nameField name) name := by
  refine (reads_name h).last ?_
  rw [hone, Utf8.lossy_encode]
  rfl

theorem reads_struct {name : String} (h : Char.ofNat 0 ∉ name.toList) (fields : TypeIndex)
    (size : UInt64) (count : Nat) {properties : Nat} (hproperties : properties < 0x10000)
    (hone : hasSecondName properties = false) :
    Reads (decodeLeaf 0x1505)
      (Bytes.word 2 count ++ Bytes.word 2 properties ++ Bytes.word 4 fields.toNat
        ++ Bytes.word 4 0 ++ Bytes.word 4 0 ++ NumericLeaf.encodeUnsigned size ++ nameField name)
      (.record (.struct name (isForward properties) (fieldsOf fields) size)) := by
  unfold decodeLeaf
  rw [show kind? 0x1505 = some .struct by decide]
  have happend : Bytes.word 2 count ++ Bytes.word 2 properties ++ Bytes.word 4 fields.toNat
        ++ Bytes.word 4 0 ++ Bytes.word 4 0 ++ NumericLeaf.encodeUnsigned size ++ nameField name
      = Bytes.word 2 count ++ (Bytes.word 2 properties ++ (Bytes.word 4 fields.toNat
        ++ ((Bytes.word 4 0 ++ Bytes.word 4 0)
          ++ (NumericLeaf.encodeUnsigned size ++ nameField name)))) := by
    simp only [List.append_assoc]
  have hreserved : (Bytes.word 4 0 ++ Bytes.word 4 0).length = 8 := rfl
  rw [happend]
  refine (reads_take (Bytes.length_word 2 count)).discard.bind ?_
  refine (reads_number hproperties).bind ?_
  refine (reads_word fields).bind ?_
  refine (reads_take hreserved).discard.bind ?_
  refine (NumericLeaf.reads_encodeUnsigned size).bind ?_
  exact (reads_typeName h hone).last rfl

theorem reads_enum {name : String} (h : Char.ofNat 0 ∉ name.toList)
    (underlying fields : TypeIndex) (count : Nat) :
    Reads (decodeLeaf 0x1507)
      (Bytes.word 2 count ++ Bytes.word 2 0 ++ Bytes.word 4 underlying.toNat
        ++ Bytes.word 4 fields.toNat ++ nameField name)
      (.record (.enum name false underlying fields)) := by
  unfold decodeLeaf
  rw [show kind? 0x1507 = some .enum by decide]
  simp only [List.append_assoc]
  refine (reads_take (Bytes.length_word 2 count)).discard.bind ?_
  refine (reads_number (by decide)).bind ?_
  refine (reads_word underlying).bind ?_
  refine (reads_word fields).bind ?_
  exact (reads_typeName h rfl).last rfl

theorem reads_bitfield (base : TypeIndex) (length position : UInt8) :
    Reads (decodeLeaf 0x1205) (Bytes.word 4 base.toNat ++ [length, position])
      (.record (.bitfield base position length)) := by
  unfold decodeLeaf
  rw [show kind? 0x1205 = some .bitfield by decide]
  have hbytes : [length, position] = Bytes.word 1 length.toNat ++ Bytes.word 1 position.toNat := by
    simp [Bytes.word]
  rw [hbytes]
  refine (reads_word base).bind ?_
  refine (reads_byte length).bind ?_
  exact (reads_byte position).last rfl

theorem reads_modifier (type : TypeIndex) :
    Reads (decodeLeaf 0x1001) (Bytes.word 4 type.toNat ++ Bytes.word 2 1)
      (.record (.modifier type)) := by
  unfold decodeLeaf
  rw [show kind? 0x1001 = some .modifier by decide]
  refine (reads_word type).bind ?_
  exact (reads_take (Bytes.length_word 2 1)).discard.last rfl

theorem reads_member {name : String} (h : Char.ofNat 0 ∉ name.toList) (type : TypeIndex)
    (offset : UInt64) :
    Reads (decodeLeaf 0x150D)
      (Bytes.word 2 publicAttribute ++ (Bytes.word 4 type.toNat
        ++ (NumericLeaf.encodeUnsigned offset ++ nameField name)))
      (.entry (.member name type offset)) := by
  unfold decodeLeaf
  rw [show kind? 0x150D = some .member by decide]
  refine (reads_take (Bytes.length_word 2 _)).discard.bind ?_
  refine (reads_word type).bind ?_
  refine (NumericLeaf.reads_encodeUnsigned offset).bind ?_
  refine (reads_name h).last ?_
  rw [Utf8.lossy_encode]

theorem reads_enumerator {name : String} (h : Char.ofNat 0 ∉ name.toList) (value : Int64) :
    Reads (decodeLeaf 0x1502)
      (Bytes.word 2 publicAttribute ++ (NumericLeaf.encodeSigned value ++ nameField name))
      (.entry (.enumerator name value)) := by
  obtain ⟨leaf, hleaf, hwide⟩ := NumericLeaf.exists_reads_encodeSigned value
  unfold decodeLeaf
  rw [show kind? 0x1502 = some .enumerator by decide]
  refine (reads_take (Bytes.length_word 2 _)).discard.bind ?_
  refine hleaf.bind ?_
  refine (reads_name h).last ?_
  rw [Utf8.lossy_encode, hwide]

/-! ## Padding -/

theorem length_padding (count : Nat) : (padding count).length = count := by
  induction count with
  | zero => rfl
  | succ count ih => rw [padding, List.length_cons, ih]

/-- The bytes do not go on with padding. -/
def Unpadded (rest : Bytes) : Prop := ∀ b ∈ rest.head?, b < 0xF0

theorem skipPadding_of_unpadded {rest : Bytes} (h : Unpadded rest) (fuel : Nat) :
    skipPadding fuel rest = .ok ((), rest) := by
  cases fuel with
  | zero => rfl
  | succ fuel =>
    cases rest with
    | nil => rfl
    | cons b rest =>
      have hb : ¬0xF0 ≤ b := UInt8.not_le.2 (h b rfl)
      show (if 0xF0 ≤ b then _ else _ : Decoder Unit) (b :: rest) = _
      rw [if_neg hb]
      rfl

/-- The first byte of padding counts all of it. -/
theorem skipPadding_padding {rest : Bytes} (h : Unpadded rest) {count : Nat} (hcount : count < 16)
    (fuel : Nat) : skipPadding (fuel + 1) (padding count ++ rest) = .ok ((), rest) := by
  cases count with
  | zero => exact skipPadding_of_unpadded h (fuel + 1)
  | succ count =>
    have hb : (UInt8.ofNat (0xF0 + (count + 1))).toNat = 0xF0 + (count + 1) :=
      Utf8.toNat_ofNat (by omega)
    have hmark : 0xF0 ≤ UInt8.ofNat (0xF0 + (count + 1)) := by
      rw [UInt8.le_iff_toNat_le, hb]
      exact Nat.le_add_right _ _
    have hrest : (UInt8.ofNat (0xF0 + (count + 1))).toNat % 16 - 1 = count := by omega
    show (if 0xF0 ≤ UInt8.ofNat (0xF0 + (count + 1)) then _ else _ : Decoder Unit)
      (UInt8.ofNat (0xF0 + (count + 1)) :: (padding count ++ rest)) = _
    rw [if_pos hmark, hrest]
    show ((discard (take count) : Decoder PUnit) (padding count ++ rest)
      >>= fun p => skipPadding fuel p.2) = _
    rw [(reads_take (length_padding count)).discard rest]
    exact skipPadding_of_unpadded h fuel

theorem unpadded_nil : Unpadded [] := by
  intro b hb
  cases hb

/-- The paddings in front of a boundary: each byte counts the bytes up to it, itself included. -/
def paddings : List Bytes := [[], [0xF1], [0xF2, 0xF1], [0xF3, 0xF2, 0xF1]]

/-- The bytes up to a position are filled up to a multiple of four, and a reader that skips what
fills them up stands at the rest. -/
structure FillsUp (position : Nat) (pads rest : Bytes) : Prop where
  mem : pads ∈ paddings
  boundary : (position + pads.length) % 4 = 0
  skipped : ∀ fuel, skipPadding (fuel + 1) (pads ++ rest) = .ok ((), rest)

theorem padding_mem {count : Nat} (h : count < 4) : padding count ∈ paddings := by
  have hall : ∀ count < 4, padding count ∈ paddings := by decide
  exact hall count h

theorem fillsUp_padding {rest : Bytes} (h : Unpadded rest) (size : Nat) :
    FillsUp size (padding (gap size)) rest := by
  have hfew : gap size < 4 := Nat.mod_lt _ (by decide)
  refine ⟨padding_mem hfew, ?_, ?_⟩
  · rw [length_padding, gap]
    omega
  · intro fuel
    exact skipPadding_padding h (Nat.lt_trans hfew (by decide)) fuel

/-- Positions may be counted from any multiple of four. -/
theorem FillsUp.shift {position start : Nat} {pads rest : Bytes} (h : FillsUp position pads rest)
    (hstart : start % 4 = 0) : FillsUp (start + position) pads rest := by
  refine ⟨h.mem, ?_, h.skipped⟩
  have := h.boundary
  omega

/-! ## Field lists -/

theorem unpadded_word {leaf : UInt16} (h : leaf.toNat % 256 < 0xF0) (rest : Bytes) :
    Unpadded (Bytes.word 2 leaf.toNat ++ rest) := by
  intro b hb
  have hfirst : b = UInt8.ofNat leaf.toNat := by
    simpa [Bytes.word, eq_comm] using hb
  rw [hfirst, UInt8.lt_iff_toNat_lt, UInt8.toNat_ofNat']
  exact h

theorem peekHalf_word (leaf : UInt16) (rest : Bytes) :
    peekHalf (Bytes.word 2 leaf.toNat ++ rest) = .ok (leaf, Bytes.word 2 leaf.toNat ++ rest) := by
  have hchop := Bytes.chop?_append (Bytes.word 2 leaf.toNat) rest
  rw [Bytes.length_word] at hchop
  have hleaf : Bytes.littleEndian (Bytes.word 2 leaf.toNat) = leaf.toNat := by
    rw [Bytes.littleEndian_word]
    exact Nat.mod_eq_of_lt leaf.toNat_lt
  simp only [peekHalf, hchop, hleaf, Nat.toUInt16_eq, UInt16.ofNat_toNat]

theorem ne_of_decodeLeaf {leaf : UInt16} {data rest : Bytes} {decoded : Decoded}
    (h : decodeLeaf leaf data = .ok (decoded, rest)) :
    leaf ≠ continuationLeaf ∧ leaf ≠ fieldListLeaf := by
  constructor
  · rintro rfl
    rw [decodeLeaf, show kind? continuationLeaf = none by decide] at h
    cases h
  · rintro rfl
    rw [decodeLeaf, show kind? fieldListLeaf = some .fieldList by decide] at h
    cases h

/-- From a position on, the bytes are these entries of a field list and, at the end, the index of
the record that continues it. Each begins at a multiple of four with its leaf, its fields are read
up to its padding, and the padding leads to the next. -/
inductive EntriesFrom : (position : Nat) → Bytes → List FieldEntry → Option TypeIndex → Prop where
  | nil {position : Nat} (start : position % 4 = 0) : EntriesFrom position [] [] none
  | continuation {position : Nat} {next : TypeIndex} {pads : Bytes} (start : position % 4 = 0)
      (filled : FillsUp (position + 6) pads []) :
      EntriesFrom position
        (Bytes.word 2 continuationLeaf.toNat ++ (Bytes.word 4 next.toNat ++ pads)) [] (some next)
  | entry {position : Nat} {leaf : UInt16} {fields pads rest : Bytes} {decoded : Decoded}
      {entries : List FieldEntry} {continuation : Option TypeIndex} (start : position % 4 = 0)
      (read : decodeLeaf leaf (fields ++ (pads ++ rest)) = .ok (decoded, pads ++ rest))
      (filled : FillsUp (position + (2 + fields.length)) pads rest)
      (next : EntriesFrom (position + (2 + fields.length + pads.length)) rest entries
        continuation) :
      EntriesFrom position (Bytes.word 2 leaf.toNat ++ (fields ++ (pads ++ rest)))
        (decoded.toEntry :: entries) continuation

/-- The reader finds these entries. -/
theorem EntriesFrom.decodeEntries_eq {position fuel : Nat} {data : Bytes}
    {entries : List FieldEntry} {continuation : Option TypeIndex}
    (h : EntriesFrom position data entries continuation) (found : Entries)
    (hfuel : data.length < fuel) :
    decodeEntries fuel found data
      = .ok (⟨entries.reverse ++ found.reversed, continuation.or found.continuation⟩, []) := by
  induction h generalizing found fuel with
  | nil =>
    obtain ⟨fuel, rfl⟩ : ∃ n, fuel = n + 1 := ⟨fuel - 1, by omega⟩
    rfl
  | @continuation _ next pads _ filled =>
    rw [List.length_append, Bytes.length_word] at hfuel
    -- Padding is skipped with the fuel that is left behind the leaf, so there has to be some.
    obtain ⟨fuel, rfl⟩ : ∃ n, fuel = n + 2 := ⟨fuel - 2, by omega⟩
    have hskipped := filled.skipped fuel
    rw [List.append_nil] at hskipped
    rw [decodeEntries, bind_of_ok (a := false) rfl, if_neg Bool.false_ne_true,
      bind_of_ok (peekHalf_word continuationLeaf _),
      bind_of_ok ((reads_take (Bytes.length_word 2 continuationLeaf.toNat)).discard _), if_pos rfl,
      bind_of_ok (reads_word next pads), bind_of_ok hskipped]
    rfl
  | @entry _ leaf fields pads rest decoded _ _ _ read filled _ ih =>
    obtain ⟨hnext, hlist⟩ := ne_of_decodeLeaf read
    rw [List.length_append, Bytes.length_word, List.length_append, List.length_append] at hfuel
    obtain ⟨fuel, rfl⟩ : ∃ n, fuel = n + 2 := ⟨fuel - 2, by omega⟩
    rw [decodeEntries, bind_of_ok (a := false) rfl, if_neg Bool.false_ne_true,
      bind_of_ok (peekHalf_word leaf _),
      bind_of_ok ((reads_take (Bytes.length_word 2 leaf.toNat)).discard _), if_neg hnext,
      if_neg hlist, bind_of_ok read, bind_of_ok (filled.skipped fuel), ih _ (by omega)]
    simp

theorem length_entry (body : Bytes) :
    (entry body).length % 4 = 0 ∧ body.length ≤ (entry body).length := by
  rw [entry, List.length_append, length_padding, gap]
  omega

/-- The leaves of the entries that are written. -/
def entryLeaves : List UInt16 := [0x150D, 0x1502]

theorem lt_of_mem_entryLeaves {leaf : UInt16} (h : leaf ∈ entryLeaves) :
    leaf.toNat % 256 < 0xF0 := by
  rw [entryLeaves, List.mem_cons, List.mem_singleton] at h
  rcases h with rfl | rfl <;> decide

/-- An entry begins with its leaf, and its fields are read as what it stands for. -/
theorem exists_entryOf (e : NewEntry) :
    ∃ leaf ∈ entryLeaves, ∃ body, entryOf e = entry (Bytes.word 2 leaf.toNat ++ body) ∧
      (Char.ofNat 0 ∉ e.name.toList → Reads (decodeLeaf leaf) body (.entry e.toEntry)) := by
  cases e with
  | member name type offset =>
    refine ⟨0x150D, by decide, Bytes.word 2 publicAttribute ++ (Bytes.word 4 type.toNat
      ++ (NumericLeaf.encodeUnsigned offset ++ nameField name)), ?_, ?_⟩
    · simp only [entryOf, List.append_assoc]
      rfl
    · intro h
      exact reads_member h type offset
  | enumerator name value =>
    refine ⟨0x1502, by decide, Bytes.word 2 publicAttribute
      ++ (NumericLeaf.encodeSigned value ++ nameField name), ?_, ?_⟩
    · simp only [entryOf, List.append_assoc]
      rfl
    · intro h
      exact reads_enumerator h value

theorem length_entryOf (e : NewEntry) :
    (entryOf e).length % 4 = 0 ∧ 2 ≤ (entryOf e).length := by
  obtain ⟨leaf, -, body, hentry, -⟩ := exists_entryOf e
  rw [hentry]
  refine ⟨(length_entry _).1, Nat.le_trans ?_ (length_entry _).2⟩
  rw [List.length_append, Bytes.length_word]
  exact Nat.le_add_right _ _

/-- The entries of a list fill whole multiples of four bytes, so that nothing follows them. -/
theorem length_entries (entries : List NewEntry) (continuation : Option TypeIndex) :
    (entries.flatMap entryOf ++ continuationOf continuation).length % 4 = 0 := by
  induction entries with
  | nil =>
    cases continuation with
    | none => rfl
    | some next => exact (length_entry _).1
  | cons e rest ih =>
    have he := (length_entryOf e).1
    rw [List.flatMap_cons, List.append_assoc, List.length_append]
    omega

theorem unpadded_entries (entries : List NewEntry) (continuation : Option TypeIndex) :
    Unpadded (entries.flatMap entryOf ++ continuationOf continuation) := by
  cases entries with
  | nil =>
    cases continuation with
    | none => simp [Unpadded, continuationOf]
    | some next =>
      simp only [List.flatMap_nil, List.nil_append, continuationOf, entry, List.append_assoc]
      exact unpadded_word (by decide : continuationLeaf.toNat % 256 < 0xF0) _
  | cons e rest =>
    obtain ⟨leaf, hleaf, body, hentry, -⟩ := exists_entryOf e
    rw [List.flatMap_cons, hentry]
    simp only [entry, List.append_assoc]
    exact unpadded_word (lt_of_mem_entryLeaves hleaf) _

/-- One entry is written in front of those that follow it. -/
theorem EntriesFrom.cons_written {position : Nat} {leaf : UInt16} {fields rest : Bytes}
    {decoded : Decoded} {entries : List FieldEntry} {continuation : Option TypeIndex}
    (hstart : position % 4 = 0) (hread : Reads (decodeLeaf leaf) fields decoded)
    (hrest : Unpadded rest)
    (hnext : EntriesFrom (position + (Builder.entry (Bytes.word 2 leaf.toNat ++ fields)).length)
      rest entries continuation) :
    EntriesFrom position (Builder.entry (Bytes.word 2 leaf.toNat ++ fields) ++ rest)
      (decoded.toEntry :: entries) continuation := by
  have hsize : (Bytes.word 2 leaf.toNat ++ fields).length = 2 + fields.length := by
    rw [List.length_append, Bytes.length_word]
  have hfilled := fillsUp_padding hrest (2 + fields.length)
  rw [Builder.entry, List.length_append, hsize] at hnext
  rw [Builder.entry, hsize, List.append_assoc, List.append_assoc]
  exact .entry hstart (hread _) (hfilled.shift hstart) hnext

/-- The entries of a step stand at multiples of four if the first one does. -/
theorem entriesFrom_written {entries : List NewEntry}
    (h : ∀ e ∈ entries, Char.ofNat 0 ∉ e.name.toList) (continuation : Option TypeIndex)
    {position : Nat} (hstart : position % 4 = 0) :
    EntriesFrom position (entries.flatMap entryOf ++ continuationOf continuation)
      (entries.map NewEntry.toEntry) continuation := by
  induction entries generalizing position with
  | nil =>
    cases continuation with
    | none => exact .nil hstart
    | some next =>
      have hsize : (Bytes.word 2 0x1404 ++ Bytes.word 4 next.toNat).length = 6 := rfl
      have hfilled := fillsUp_padding unpadded_nil 6
      rw [List.flatMap_nil, List.nil_append, continuationOf, entry, hsize, List.append_assoc]
      exact .continuation hstart (hfilled.shift hstart)
  | cons e entries ih =>
    obtain ⟨he, hentries⟩ := List.forall_mem_cons.1 h
    obtain ⟨leaf, -, fields, hentry, hread⟩ := exists_entryOf e
    have hlength : (entryOf e).length % 4 = 0 := (length_entryOf e).1
    have hnext := ih hentries (show (position + (entryOf e).length) % 4 = 0 by omega)
    rw [hentry] at hnext
    rw [List.flatMap_cons, List.append_assoc, hentry, List.map_cons]
    exact .cons_written hstart (hread he) (unpadded_entries entries continuation) hnext

/-! ## Records -/

/-- The data of a record consists of its fields, which are read as this record, and of padding,
which is left. -/
def ReadsPadded (data : Bytes) (record : TypeRecord) : Prop :=
  ∃ fields, data = fields ++ padding (gap (fields.length + 2)) ∧
    (Decoder.half >>= decodeBody) data = .ok (record, padding (gap (fields.length + 2)))

theorem ReadsPadded.decode {data : Bytes} {record : TypeRecord} (h : ReadsPadded data record) :
    decode data = .ok record := by
  obtain ⟨fields, -, hread⟩ := h
  show Except.map Prod.fst ((Decoder.half >>= decodeBody) data) = _
  rw [hread]
  rfl

/-- A leaf that is no list is read up to its padding. -/
theorem readsPadded_typeData {leaf : UInt16} {n : Nat} {body : Bytes} {decoded : Decoded}
    (hn : leaf.toNat = n) (hlist : leaf ≠ fieldListLeaf)
    (h : Reads (decodeLeaf leaf) body decoded) :
    ReadsPadded (typeData n body) decoded.toRecord := by
  subst hn
  have hread : Reads (Decoder.half >>= decodeBody) (Bytes.word 2 leaf.toNat ++ body)
      decoded.toRecord := by
    refine (reads_half leaf).bind ?_
    rw [decodeBody, if_neg hlist]
    exact h.last rfl
  exact ⟨Bytes.word 2 leaf.toNat ++ body, rfl, hread _⟩

/-- Nothing fills up a field list, since its entries do. -/
theorem gap_fieldList (entries : List NewEntry) (continuation : Option TypeIndex) :
    gap ((Bytes.word 2 fieldListLeaf.toNat
      ++ (entries.flatMap entryOf ++ continuationOf continuation)).length + 2) = 0 := by
  have hlength := length_entries entries continuation
  rw [List.length_append, Bytes.length_word, gap]
  omega

/-- A field list is read to the end of its record. -/
theorem readsPadded_fieldList {entries : List NewEntry} {continuation : Option TypeIndex}
    (h : ∀ e ∈ entries, Char.ofNat 0 ∉ e.name.toList) :
    ReadsPadded (typeData fieldListLeaf.toNat
        (entries.flatMap entryOf ++ continuationOf continuation))
      (.fieldList (entries.map NewEntry.toEntry) continuation) := by
  have hentries := entriesFrom_written h continuation (Nat.zero_mod 4)
  refine ⟨_, rfl, ?_⟩
  rw [typeData, gap_fieldList, padding, List.append_nil, bind_of_ok (reads_half fieldListLeaf _),
    decodeBody, if_pos rfl, bind_of_ok (show (get : Decoder Bytes) _ = .ok (_, _) from rfl),
    bind_of_ok (hentries.decodeEntries_eq ⟨[], none⟩ (Nat.lt_succ_self _))]
  show Except.ok _ = _
  simp

theorem readsPadded_structData {name : String} (h : Char.ofNat 0 ∉ name.toList)
    (fields : TypeIndex) (size : UInt64) (count : Nat) {properties : Nat}
    (hproperties : properties < 0x10000) (hone : hasSecondName properties = false) :
    ReadsPadded (structData name fields size count properties)
      (.struct name (isForward properties) (fieldsOf fields) size) := by
  have hread := reads_struct h fields size count hproperties hone
  exact (readsPadded_typeData (n := 0x1505) rfl (by decide) hread :)

/-- The data of a step is read back as the record that the step stands for, with its field list in
the form in which it is stored. -/
theorem readsPadded_typeOf {step : BuildStep} {data : Bytes} {record : TypeRecord}
    (hnames : step.NamesEnd) (hdata : typeOf? step = some data)
    (hrecord : step.record? = some record) :
    ReadsPadded data (record.mapFields storedFields) := by
  cases step with
  | struct name fields size count =>
    cases hdata
    cases hrecord
    have hname : Char.ofNat 0 ∉ name.toList := hnames name (List.mem_singleton_self name)
    exact readsPadded_structData hname (fields.getD 0) size count.toNat (by decide) rfl
  | forward name =>
    cases hdata
    cases hrecord
    have hname : Char.ofNat 0 ∉ name.toList := hnames name (List.mem_singleton_self name)
    exact readsPadded_structData hname 0 0 0 (by decide) rfl
  | enum name underlying fields count =>
    cases hdata
    cases hrecord
    have hname : Char.ofNat 0 ∉ name.toList := hnames name (List.mem_singleton_self name)
    have hread := reads_enum hname underlying fields count.toNat
    exact (readsPadded_typeData (n := 0x1507) rfl (by decide) hread :)
  | fieldList entries continuation =>
    cases hdata
    cases hrecord
    exact readsPadded_fieldList fun e he => hnames e.name (List.mem_map_of_mem he)
  | bitfield base length position =>
    cases hdata
    cases hrecord
    have hread := reads_bitfield base length position
    exact (readsPadded_typeData (n := 0x1205) rfl (by decide) hread :)
  | constant type =>
    cases hdata
    cases hrecord
    have hread := reads_modifier type
    exact (readsPadded_typeData (n := 0x1001) rfl (by decide) hread :)
  | _ => cases hdata

end Record

end OffsetService
