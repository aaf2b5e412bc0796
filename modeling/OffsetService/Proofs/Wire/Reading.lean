import OffsetService.Proofs.Json.Reading
import OffsetService.Proofs.Names
import OffsetService.Wire.Decode

/-!
# Requests and answers are read back

Every answer is read back as it was written, and so is every request, but for its unique id, which
arrives in upper case (`received`). Each writer has its reader beside it: `readsWithin_nameSet` and
`readsWithin_nameMap` for collections by name, `reads_int64` and `readsWithin_place` for what is
found, `readsWithin_identity` for an identity by itself, and `readsWithin_request` for requests,
whose identity is first kept as values and decoded behind the last member. `values_read_back` puts
them together for whole texts.
-/

namespace OffsetService

/-! ## Collections from their entries -/

namespace NameMap

variable {α : Type}

/-- The entries of a map make up the map again. -/
theorem ofList_entries (m : NameMap α) : ofList m.entries = m := by
  refine ext_get? fun key => ?_
  rw [get?_ofList]
  cases hlookup : m.entries.reverse.lookup key with
  | none =>
    rw [List.lookup_eq_none_iff] at hlookup
    cases hget : m.get? key with
    | none => rfl
    | some a => simpa using hlookup _ (List.mem_reverse.2 (mem_of_get? hget))
  | some a =>
    obtain ⟨before, behind, hentries, -⟩ := List.lookup_eq_some_iff.1 hlookup
    have hmem : (key, a) ∈ m.entries.reverse := by simp [hentries]
    exact (get?_of_mem (List.mem_reverse.1 hmem)).symm

end NameMap

theorem NameSet.ofNames_names (names : NameSet) : NameSet.ofNames names.names = names := by
  have hentries : names.names.map (fun name => (name, ())) = names.entries := by
    rw [NameMap.names, List.map_map]
    exact List.map_id _
  rw [NameSet.ofNames, hentries, NameMap.ofList_entries]

namespace Json

variable {α : Type}

theorem renderItems_eq_map (items : List Value) : renderItems items = items.map render := by
  induction items with
  | nil => rfl
  | cons item items ih => rw [renderItems, ih, List.map_cons]

theorem renderMembers_eq_map (members : List (String × Value)) :
    renderMembers members
      = members.map fun member => renderText member.1 ++ ':' :: render member.2 := by
  induction members with
  | nil => rfl
  | cons member members ih => rw [renderMembers, ih, List.map_cons]

namespace Reader

/-- A reader reads a text as a value within any budget that is as long as the text. -/
def ReadsWithin (reader : (budget : Nat) → Reader α) (text : List Char) (a : α) : Prop :=
  ∀ budget, text.length ≤ budget → Reads (reader budget) text a

/-- A text that is read back is so when there is nothing else. -/
theorem ReadsWithin.whole {reader : (budget : Nat) → Reader α} {text : List Char} {a : α}
    (h : ReadsWithin reader text a) : whole reader text false = .ok a := by
  have hrun := (h (text.length + 1) (Nat.le_succ _)).run [] delimits_nil
  rw [List.append_nil] at hrun
  rw [Reader.whole, StateT.run, hrun]
  rfl

end Reader

end Json

namespace Wire

open Json Json.Reader

variable {α : Type}

/-! ## Collections -/

theorem readsWithin_nameSet (names : NameSet) :
    ReadsWithin nameSet (render (ofNames names)) names := by
  intro budget hbudget
  have htext : render (ofNames names) = '[' :: commas (names.names.map renderText) ++ [']'] := by
    rw [ofNames, render, renderItems_eq_map, List.map_map]
    rfl
  rw [htext] at hbudget ⊢
  refine ⟨⟨'[', _, rfl, rfl, by decide⟩, fun rest _ => ?_⟩
  have hitems : List.Forall₂ (Reads text) (names.names.map renderText) names.names := by
    rw [List.forall₂_map_left_iff]
    exact List.forall₂_same.2 fun name _ => reads_text name
  have hfits : (commas (names.names.map renderText)).length ≤ budget := by
    simp at hbudget
    omega
  unfold nameSet
  rw [List.cons_append, List.cons_append, List.append_assoc, bind_eq (peek?_cons rfl _), if_pos rfl,
    bind_eq (drop_cons ..), List.singleton_append, 
    bind_eq (items_commas hitems hfits rest), NameSet.ofNames_names]
  rfl

theorem readsWithin_nameMap {reader : (budget : Nat) → Reader α} {write : α → Value}
    (h : ∀ a, ReadsWithin reader (render (write a)) a) (m : NameMap α) :
    ReadsWithin (fun budget => nameMap (reader budget) budget) (render (ofMap write m)) m := by
  intro budget hbudget
  let part (entry : String × α) : List Char := renderText entry.1 ++ ':' :: render (write entry.2)
  have htext : render (ofMap write m) = '{' :: commas (m.entries.map part) ++ ['}'] := by
    rw [ofMap, render, renderMembers_eq_map, List.map_map]
    rfl
  rw [htext] at hbudget ⊢
  have hfits := length_commas_le_of_object hbudget
  have hread : ∀ entry ∈ m.entries, Reads (reader budget) (render (write entry.2)) entry.2 := by
    intro entry hentry
    have hpart : (part entry).length ≤ (commas (m.entries.map part)).length :=
      length_le_of_mem (List.mem_map_of_mem hentry)
    have hvalue : (render (write entry.2)).length ≤ (part entry).length := by
      simp only [part, List.length_append, List.length_cons]
      omega
    exact h entry.2 budget (by omega)
  refine ⟨opens_object _, fun rest _ => ?_⟩
  show nameMap (reader budget) budget _ = _
  unfold nameMap
  rw [object_append, bind_eq (peek?_cons rfl _), if_pos rfl, bind_eq (drop_cons ..),
    bind_eq (members_commas (readsMembers_collect (fun a => render (write a)) hread []) hfits rest),
    List.append_nil, List.reverse_reverse, NameMap.ofList_entries]
  rfl

/-! ## What is found -/

theorem toUInt64_lt_of_not_neg {n : Int64} (h : ¬n < 0) : n.toUInt64 < 0x8000000000000000 := by
  have hnonneg : 0 ≤ n.toBitVec.toInt := by
    rw [Int64.lt_iff_toInt_lt] at h
    exact Int.not_lt.1 h
  have hlt : 2 * n.toUInt64.toNat < 2 ^ 64 := BitVec.toInt_pos_iff.1 hnonneg
  rw [UInt64.lt_iff_toNat_lt]
  show n.toUInt64.toNat < 2 ^ 63
  omega

theorem reads_int64 (n : Int64) : Reads int64 (render (ofInt64 n)) n := by
  have hopens : ∃ c more, render (ofInt64 n) = c :: more ∧ (c = '-' ∨ isDigit c = true) := by
    by_cases hn : n < 0
    · exact ⟨'-', _, by rw [ofInt64, if_pos hn, render, renderNumber_negative hn], .inl rfl⟩
    · obtain ⟨c, more, htext, hc⟩ := exists_cons_natural n.toUInt64
      exact ⟨c, more, by rw [ofInt64, if_neg hn, render, htext], .inr hc⟩
  obtain ⟨c, more, htext, hc⟩ := hopens
  refine ⟨⟨c, more, htext, isBlank_of_beginsNumber hc, ne_of_beginsNumber hc (by decide)⟩, ?_⟩
  intro rest hrest
  have hpeek := peek?_cons (isBlank_of_beginsNumber hc) (more ++ rest)
  rw [← List.cons_append, ← htext] at hpeek
  unfold int64
  rw [bind_eq hpeek]
  show (if c = '-' ∨ isDigit c = true then _ else _ : Reader Int64) _ = _
  rw [if_pos hc]
  by_cases hn : n < 0
  · rw [ofInt64, if_pos hn, render, bind_eq (number_negative hn hrest)]
    rfl
  · rw [ofInt64, if_neg hn, render, bind_eq (number_natural _ hrest)]
    show (if n.toUInt64 < 0x8000000000000000 then _ else _ : Reader Int64) _ = _
    rw [if_pos (toUInt64_lt_of_not_neg hn), Int64.toInt64_toUInt64]
    rfl

/-! ## Objects with known members -/

theorem reads_once (name : String) {value : Reader α} {text : List Char} {a : α}
    (h : Reads value text a) : Reads (once name none value) text (some a) :=
  h.bind_pure some

theorem readsWithin_place (p : FieldPlace) : ReadsWithin place (render (ofPlace p)) p := by
  intro budget hbudget
  have htext : render (ofPlace p) = '{' :: commas
      [renderText "offset" ++ ':' :: render (ofInt64 p.offset),
        renderText "bitfield_offset" ++ ':' :: render (ofInt64 p.bit)] ++ ['}'] := rfl
  rw [htext] at hbudget ⊢
  have hoffset : Reads (placeMember budget ⟨none, none⟩ "offset")
      (':' :: render (ofInt64 p.offset)) ⟨some p.offset, none⟩ :=
    (reads_once "offset" (reads_colon (reads_int64 p.offset))).bind_pure
      fun value => PartialPlace.mk value none
  have hbit : Reads (placeMember budget ⟨some p.offset, none⟩ "bitfield_offset")
      (':' :: render (ofInt64 p.bit)) ⟨some p.offset, some p.bit⟩ :=
    (reads_once "bitfield_offset" (reads_colon (reads_int64 p.bit))).bind_pure
      fun value => PartialPlace.mk (some p.offset) value
  have hmembers := members_commas (.cons hoffset (.cons hbit (.nil _)))
    (length_commas_le_of_object hbudget)
  refine ⟨opens_object _, fun rest _ => ?_⟩
  unfold place
  rw [object_append, bind_eq (peek?_cons rfl _)]
  show (drop >>= fun _ => members (placeMember budget) budget ⟨none, none⟩ >>= fun found =>
    required "offset" found.offset >>= fun offset => required "bitfield_offset" found.bit >>= fun bit =>
      pure (FieldPlace.mk offset bit)) _ = _
  rw [bind_eq (drop_cons ..), bind_eq (hmembers rest)]
  rfl

/-! ## Identities -/

/-- An identity as a text brings it. -/
def received (id : Identity) : Identity := { id with uniqueId := uniqueIdOf id.uniqueId }

theorem toUpper_eq_self_iff (c : Char) : c.toUpper = c ↔ c.isLower = false := by
  have hlower : c.isLower = true ↔ 'a'.val ≤ c.val ∧ c.val ≤ 'z'.val := by
    show (decide (c.val ≥ 'a'.val) && decide (c.val ≤ 'z'.val)) = true ↔ _
    rw [Bool.and_eq_true, decide_eq_true_iff, decide_eq_true_iff]
  rw [← Bool.not_eq_true, hlower]
  by_cases hc : 'a'.val ≤ c.val ∧ c.val ≤ 'z'.val
  · have hupper : c.toUpper.val = c.val + ('A'.val - 'a'.val) := by
      delta Char.toUpper
      rw [dif_pos hc]
    refine iff_of_false (fun heq => ?_) (not_not_intro hc)
    -- The distance between the cases is not zero, so a letter that moves by it is another one.
    simp [heq] at hupper
  · exact iff_of_true (dif_neg hc) hc

/-- What has no lower-case letter of the alphabet is a unique id as it is. -/
theorem uniqueIdOf_eq_self_iff (s : String) :
    uniqueIdOf s = s ↔ ∀ c ∈ s.toList, c.isLower = false := by
  rw [uniqueIdOf, ← String.toList_inj, String.toList_map]
  nth_rewrite 2 [← List.map_id s.toList]
  rw [List.map_inj_left]
  exact forall₂_congr fun c _ => toUpper_eq_self_iff c

theorem received_eq_self_iff (id : Identity) :
    received id = id ↔ ∀ c ∈ id.uniqueId.toList, c.isLower = false := by
  rw [← uniqueIdOf_eq_self_iff]
  exact ⟨fun h => congrArg Identity.uniqueId h, fun h => by rw [received, h]⟩

theorem ageOf_natural (age : UInt32) : ageOf (.number (.natural age.toUInt64)) = .ok age := by
  have hage : age.toUInt64.toNat < ageBound := by
    rw [UInt32.toNat_toUInt64]
    exact age.toNat_lt
  rw [ageOf, if_pos hage, UInt32.toUInt32_toUInt64]

theorem reads_age (budget : Nat) (n : UInt32) :
    Reads (age budget) (renderNumber (.natural n.toUInt64)) n := by
  have hvalue : Reads (value budget innerDepth) (renderNumber (.natural n.toUInt64))
      (.number (.natural n.toUInt64)) := reads_value_natural budget (innerDepth - 1) n.toUInt64
  refine ⟨hvalue.opens, fun rest hrest => ?_⟩
  unfold age
  rw [bind_eq (hvalue.run rest hrest), ageOf_natural]
  rfl

theorem readsWithin_identity (id : Identity) :
    ReadsWithin identity (render (ofIdentity id)) (received id) := by
  intro budget hbudget
  have htext : render (ofIdentity id) = '{' :: commas
      [renderText "name" ++ ':' :: renderText id.name,
        renderText "guid" ++ ':' :: renderText id.uniqueId,
        renderText "age" ++ ':' :: renderNumber (.natural id.age.toUInt64)] ++ ['}'] := rfl
  rw [htext] at hbudget ⊢
  have hname : Reads (identityMember budget .none "name") (':' :: renderText id.name)
      ⟨some id.name, none, none⟩ :=
    (reads_once "name" (reads_colon (reads_text id.name))).bind_pure
      fun value => PartialIdentity.mk value none none
  have hguid : Reads (identityMember budget ⟨some id.name, none, none⟩ "guid")
      (':' :: renderText id.uniqueId) ⟨some id.name, some (uniqueIdOf id.uniqueId), none⟩ :=
    (reads_once "guid" (reads_colon ((reads_text id.uniqueId).bind_pure uniqueIdOf))).bind_pure
      fun value => PartialIdentity.mk (some id.name) value none
  have hage : Reads
      (identityMember budget ⟨some id.name, some (uniqueIdOf id.uniqueId), none⟩ "age")
      (':' :: renderNumber (.natural id.age.toUInt64))
      ⟨some id.name, some (uniqueIdOf id.uniqueId), some id.age⟩ :=
    (reads_once "age" (reads_colon (reads_age budget id.age))).bind_pure
      fun value => PartialIdentity.mk (some id.name) (some (uniqueIdOf id.uniqueId)) value
  have hmembers := members_commas (.cons hname (.cons hguid (.cons hage (.nil _))))
    (length_commas_le_of_object hbudget)
  refine ⟨opens_object _, fun rest _ => ?_⟩
  unfold identity
  rw [object_append, bind_eq (peek?_cons rfl _)]
  show (drop >>= fun _ => members (identityMember budget) budget PartialIdentity.none >>=
    PartialIdentity.close) _ = _
  rw [bind_eq (drop_cons ..), bind_eq (hmembers rest)]
  rfl

/-! ## Requests -/

/-- The kept members of a request are decoded to its identity. -/
theorem foldlM_keptMember (id : Identity) (text : List Char) :
    [("name", .text id.name), ("guid", .text id.uniqueId),
        ("age", Value.number (.natural id.age.toUInt64))].foldlM keptMember PartialIdentity.none text
      = .ok (⟨some id.name, some (uniqueIdOf id.uniqueId), some id.age⟩, text) := by
  have hname : keptMember .none ("name", .text id.name) text
      = .ok (⟨some id.name, none, none⟩, text) := rfl
  have hguid : keptMember ⟨some id.name, none, none⟩ ("guid", .text id.uniqueId) text
      = .ok (⟨some id.name, some (uniqueIdOf id.uniqueId), none⟩, text) := rfl
  have hage : keptMember ⟨some id.name, some (uniqueIdOf id.uniqueId), none⟩
      ("age", .number (.natural id.age.toUInt64)) text
        = .ok (⟨some id.name, some (uniqueIdOf id.uniqueId), some id.age⟩, text) := by
    simp only [keptMember, ageOf_natural]
    rfl
  rw [List.foldlM_cons, bind_eq hname, List.foldlM_cons, bind_eq hguid, List.foldlM_cons,
    bind_eq hage]
  rfl

theorem readsWithin_request {reader : (budget : Nat) → Reader α} {write : α → Value}
    (h : ∀ query, ReadsWithin reader (render (write query)) query) (expected : String)
    (r : Request α) :
    ReadsWithin (request expected reader) (render (ofRequest write r))
      ⟨received r.identity, r.query⟩ := by
  intro budget hbudget
  let query : List Char := render (write r.query)
  let parts : List (List Char) :=
    [renderText "name" ++ ':' :: renderText r.identity.name,
      renderText "guid" ++ ':' :: renderText r.identity.uniqueId,
      renderText "age" ++ ':' :: renderNumber (.natural r.identity.age.toUInt64),
      renderText "query" ++ ':' :: query]
  have htext : render (ofRequest write r) = '{' :: commas parts ++ ['}'] := rfl
  rw [htext] at hbudget ⊢
  have hfits := length_commas_le_of_object hbudget
  have hkept : ∀ (name : String) (found : PartialRequest α) {text : List Char} {v : Value},
      name ≠ "query" → Reads (value budget innerDepth) text v →
        Reads (requestMember (reader budget) budget found name) (':' :: text)
          { found with others := (name, v) :: found.others } := by
    intro name found text v hname hread
    have hmember := ((reads_colon hread).bind_pure fun v => (name, v) :: found.others).bind_pure
      fun others => { found with others }
    unfold requestMember
    split
    next => exact absurd rfl hname
    next => exact hmember
  have hquery : Reads (reader budget) query r.query := by
    have hpart : (renderText "query" ++ ':' :: query).length ≤ (commas parts).length :=
      length_le_of_mem (by simp [parts])
    refine h r.query budget ?_
    rw [List.length_append, List.length_cons] at hpart
    show query.length ≤ budget
    omega
  have hname := hkept "name" ⟨none, []⟩ (by decide)
    (reads_value_text budget (innerDepth - 1) r.identity.name)
  have hguid := fun others => hkept "guid" ⟨none, others⟩ (by decide)
    (reads_value_text budget (innerDepth - 1) r.identity.uniqueId)
  have hage := fun others => hkept "age" ⟨none, others⟩ (by decide)
    (reads_value_natural budget (innerDepth - 1) r.identity.age.toUInt64)
  have hlast : ∀ others, Reads (requestMember (reader budget) budget ⟨none, others⟩ "query")
      (':' :: query) ⟨some r.query, others⟩ := fun others =>
    (reads_once "query" (reads_colon hquery)).bind_pure fun query => PartialRequest.mk query others
  have hmembers := members_commas
    (.cons hname (.cons (hguid _) (.cons (hage _) (.cons (hlast _) (.nil _))))) hfits
  refine ⟨opens_object _, fun rest _ => ?_⟩
  unfold request
  rw [object_append, bind_eq (peek?_cons rfl _), if_pos rfl, bind_eq (drop_cons ..),
    bind_eq (hmembers rest)]
  have hthere : required "query" (some r.query) rest = .ok (r.query, rest) := rfl
  exact (bind_eq hthere).trans (bind_eq (foldlM_keptMember r.identity rest))

/-! ## Queries and answers -/

theorem readsWithin_nestedQuery (query : NestedQuery) :
    ReadsWithin nestedQuery (render (ofNestedQuery query)) query :=
  readsWithin_nameMap readsWithin_nameSet query

theorem readsWithin_symbolMap (m : SymbolMap) : ReadsWithin symbolMap (render (ofSymbols m)) m :=
  readsWithin_nameMap (fun n _ _ => reads_int64 n) m

theorem readsWithin_structMap (m : StructMap) : ReadsWithin structMap (render (ofStructs m)) m :=
  readsWithin_nameMap (readsWithin_nameMap readsWithin_place) m

theorem readsWithin_enumMap (m : EnumMap) : ReadsWithin enumMap (render (ofEnums m)) m :=
  readsWithin_nameMap (readsWithin_nameMap fun n _ _ => reads_int64 n) m

/-- A text that is read back is the text of its value. -/
theorem ofText_textOf {reader : (budget : Nat) → Reader α} {v : Value} {a : α}
    (h : ReadsWithin reader (render v) a) : ofText reader (textOf v) = .ok a := by
  rw [ofText, textOf, String.toList_ofList]
  exact h.whole

/-- Whatever is written is read back. A unique id arrives in upper case, which changes it only when
it has a lower-case letter of the alphabet; everything else arrives as it was. -/
theorem values_read_back :
    (∀ r : Request NameSet, ofText symbolRequest (textOf (ofRequest ofNames r))
      = .ok { r with identity := received r.identity }) ∧
    (∀ r : Request NestedQuery, ofText nestedRequest (textOf (ofRequest ofNestedQuery r))
      = .ok { r with identity := received r.identity }) ∧
    (∀ id : Identity, ofText identity (textOf (ofIdentity id)) = .ok (received id)) ∧
    (∀ id : Identity, received id = id ↔ ∀ c ∈ id.uniqueId.toList, c.isLower = false) ∧
    (∀ id : Identity, received id
      = { id with uniqueId := String.ofList (id.uniqueId.toList.map Char.toUpper) }) ∧
    (∀ p : FieldPlace, ofText place (textOf (ofPlace p)) = .ok p) ∧
    (∀ m : SymbolMap, ofText symbolMap (textOf (ofSymbols m)) = .ok m) ∧
    (∀ m : StructMap, ofText structMap (textOf (ofStructs m)) = .ok m) ∧
    (∀ m : EnumMap, ofText enumMap (textOf (ofEnums m)) = .ok m) := by
  refine ⟨fun r => ?symbols, fun r => ?nested, fun id => ?identity, received_eq_self_iff,
    fun id => ?upper, fun p => ?place, fun m => ?addresses, fun m => ?structs, fun m => ?enums⟩
  case symbols => exact ofText_textOf (readsWithin_request readsWithin_nameSet _ r)
  case nested => exact ofText_textOf (readsWithin_request readsWithin_nestedQuery _ r)
  case identity => exact ofText_textOf (readsWithin_identity id)
  case upper => rw [received, uniqueIdOf, ← String.toList_map, String.ofList_toList]
  case place => exact ofText_textOf (readsWithin_place p)
  case addresses => exact ofText_textOf (readsWithin_symbolMap m)
  case structs => exact ofText_textOf (readsWithin_structMap m)
  case enums => exact ofText_textOf (readsWithin_enumMap m)

end Wire

end OffsetService
