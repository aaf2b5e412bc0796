import OffsetService.Gateway
import OffsetService.Proofs.Utf8
import OffsetService.Proofs.Wire.Ages
import OffsetService.Proofs.Wire.Members
import OffsetService.Proofs.Wire.Reading

/-!
# One request, written in many ways

A body is an object whose members can be written in another order, between members of other names,
with the letters of the unique id in another case, and with the age in another spelling
(`Wire.Change`). What the members spell stays what it is (`Wire.spells_of_changes`), so the body asks
the same question, and the database is the one at the same place of the cache.
-/

namespace OffsetService

open Json Json.Reader

namespace Wire

/-! ## Changes to members -/

/-- The members that a request is made of. -/
def requestNames : List String := ["name", "guid", "age", "query"]

/-- Texts that differ in the case of ASCII letters only. -/
def SameButCase (s s' : String) : Prop :=
  List.Forall₂ (fun c c' => c' = c ∨ c' = c.toUpper ∨ c' = c.toLower) s.toList s'.toList

/-- Another way to write the value of a member. -/
inductive Respelling : String → Value → Value → Prop where
  /-- Letters of the unique id change their case. -/
  | uniqueId {s s' : String} (h : SameButCase s s') : Respelling "guid" (.text s) (.text s')
  /-- The age takes another spelling. -/
  | age {v v' : Value} {n : UInt32} (h : ageOf v = .ok n) (h' : SpellsAge v' n.toNat) :
    Respelling "age" v v'

/-- A change to the members of a request. -/
inductive Change : List (String × Value) → List (String × Value) → Prop where
  /-- The members take another order. -/
  | order {entries entries' : List (String × Value)} (h : entries.Perm entries') :
    Change entries entries'
  /-- A member with another name is added. -/
  | add {name : String} {v : Value} (before : List (String × Value))
    {behind : List (String × Value)} (h : name ∉ requestNames) :
    Change (before ++ behind) (before ++ (name, v) :: behind)
  /-- A member says the same in another way. -/
  | respell {name : String} {v v' : Value} (before : List (String × Value))
    {behind : List (String × Value)} (h : Respelling name v v') :
    Change (before ++ (name, v) :: behind) (before ++ (name, v') :: behind)

variable {α β : Type} {entries entries' : List (String × Value)}

theorem isLower_toUpper (c : Char) : c.toUpper.isLower = false := by
  delta Char.isLower Char.toUpper
  split <;> grind [UInt32.toNat_add, Char.toNat_val]

theorem toUpper_toLower (c : Char) : c.toLower.toUpper = c.toUpper := by
  apply Char.ext
  delta Char.toUpper Char.toLower
  split
  next => split <;> split <;> grind [UInt32.toNat_add, Char.toNat_val]
  next => rfl

theorem map_toUpper_of_case {cs cs' : List Char}
    (h : List.Forall₂ (fun c c' => c' = c ∨ c' = c.toUpper ∨ c' = c.toLower) cs cs') :
    cs'.map Char.toUpper = cs.map Char.toUpper := by
  induction h with
  | nil => rfl
  | cons hc _ ih =>
    rw [List.map_cons, List.map_cons, ih]
    rcases hc with rfl | rfl | rfl
    · rfl
    · rw [(toUpper_eq_self_iff _).2 (isLower_toUpper _)]
    · rw [toUpper_toLower]

theorem uniqueIdOf_of_sameButCase {s s' : String} (h : SameButCase s s') :
    uniqueIdOf s' = uniqueIdOf s := by
  rw [uniqueIdOf, uniqueIdOf, ← String.toList_inj, String.toList_map, String.toList_map,
    map_toUpper_of_case h]

section Respelling

variable {name : String} {v v' : Value} (h : Respelling name v v')
include h

theorem uniqueIdIn?_of_respelling (hname : name = "guid") : uniqueIdIn? v' = uniqueIdIn? v := by
  cases h with
  | uniqueId hcase => exact congrArg some (uniqueIdOf_of_sameButCase hcase)
  | age => exact absurd hname (by decide)

theorem ageIn?_of_respelling (hname : name = "age") : ageIn? v' = ageIn? v := by
  cases h with
  | uniqueId => exact absurd hname (by decide)
  | @age _ _ n hage hspells =>
    have hagain : n.toNat.toUInt32 = n := UInt32.ofNat_toNat
    rw [ageIn?, ageIn?, hage, ageOf_of_spellsAge hspells, hagain]

/-- The name of a module and a query are not respelled. -/
theorem eq_of_respelling (hname : name = "name" ∨ name = "query") : v' = v := by
  cases h with
  | uniqueId => exact absurd hname (by decide)
  | age => exact absurd hname (by decide)

end Respelling

/-! ## What stays -/

theorem valuesOf_append (name : String) (before behind : List (String × Value)) :
    valuesOf name (before ++ behind) = valuesOf name before ++ valuesOf name behind := by
  simp [valuesOf]

/-- A member that stands once still says the same behind a change. -/
theorem valuesOf_of_change {name : String} (hname : name ∈ requestNames) {decode : Value → Option β}
    (hdecode : ∀ v v', Respelling name v v' → decode v' = decode v) {a : β}
    (hchange : Change entries entries')
    (h : ∃ v, valuesOf name entries = [v] ∧ decode v = some a) :
    ∃ v, valuesOf name entries' = [v] ∧ decode v = some a := by
  obtain ⟨v, hvalues, hsays⟩ := h
  cases hchange with
  | order hperm =>
    have hvaluesPerm : (valuesOf name entries).Perm (valuesOf name entries') :=
      (hperm.filter _).map _
    rw [hvalues, List.singleton_perm] at hvaluesPerm
    exact ⟨v, hvaluesPerm.symm, hsays⟩
  | @add other w before behind hother =>
    have hne : other ≠ name := by
      rintro rfl
      exact hother hname
    refine ⟨v, ?_, hsays⟩
    rw [valuesOf_append, valuesOf_cons_of_ne hne, ← valuesOf_append, hvalues]
  | @respell other w w' before behind hrespell =>
    by_cases hne : other = name
    · subst hne
      rw [valuesOf_append, valuesOf_cons_self] at hvalues ⊢
      obtain ⟨hbefore, hw, hbehind⟩ :
          valuesOf other before = [] ∧ w = v ∧ valuesOf other behind = [] := by
        simpa [List.append_eq_singleton_iff] using hvalues
      refine ⟨w', by rw [hbefore, hbehind]; rfl, ?_⟩
      rw [hdecode w w' hrespell, hw, hsays]
    · refine ⟨v, ?_, hsays⟩
      rw [valuesOf_append, valuesOf_cons_of_ne hne] at hvalues ⊢
      exact hvalues

theorem spells_of_change {decode : Value → Option α} {r : Request α}
    (hchange : Change entries entries') (h : Spells decode entries r) :
    Spells decode entries' r where
  name := valuesOf_of_change (by decide)
    (fun _ _ hrespell => congrArg textIn? (eq_of_respelling hrespell (.inl rfl))) hchange h.name
  uniqueId := valuesOf_of_change (by decide)
    (fun _ _ hrespell => uniqueIdIn?_of_respelling hrespell rfl) hchange h.uniqueId
  age := valuesOf_of_change (by decide)
    (fun _ _ hrespell => ageIn?_of_respelling hrespell rfl) hchange h.age
  query := valuesOf_of_change (by decide)
    (fun _ _ hrespell => congrArg decode (eq_of_respelling hrespell (.inr rfl))) hchange h.query

/-- What the members of a request spell stays what it is under any number of changes. -/
theorem spells_of_changes {decode : Value → Option α} {r : Request α}
    (hchanges : Relation.ReflTransGen Change entries entries') (h : Spells decode entries r) :
    Spells decode entries' r := by
  induction hchanges with
  | refl => exact h
  | tail _ hchange ih => exact spells_of_change hchange ih

/-- A text is a request exactly when it is an object whose members spell one. -/
theorem whole_request_iff {reader : Nat → Reader α} {decode : Value → Option α}
    (hquery : Decodes reader innerDepth decode) {expected : String} {input : List Char}
    {r : Request α} :
    whole (request expected reader) input false = .ok r ↔
      ∃ o : WrittenObject innerDepth, o.text = input ∧ Spells decode o.entries r := by
  have hobject : ∀ {entries}, (∃ spacing, Spacing spacing ∧
      value (input.length + 1) (innerDepth + 1) input = .ok (.object entries, spacing)) ↔
        ∃ o : WrittenObject innerDepth, o.text = input ∧ o.entries = entries :=
    whole_eq_ok_iff_run.symm.trans whole_object_iff
  rw [whole_eq_ok_iff_run]
  simp only [request_eq_ok_iff hquery]
  constructor
  · rintro ⟨spacing, hspacing, entries, hvalue, hspells⟩
    obtain ⟨o, htext, rfl⟩ := hobject.1 ⟨spacing, hspacing, hvalue⟩
    exact ⟨o, htext, hspells⟩
  · rintro ⟨o, htext, hspells⟩
    obtain ⟨spacing, hspacing, hvalue⟩ := hobject.2 ⟨o, htext, rfl⟩
    exact ⟨spacing, hspacing, o.entries, hvalue, hspells⟩

/-- An object that is written with changed members is read as the same request. -/
theorem whole_request_of_changes {reader : Nat → Reader α} {decode : Value → Option α}
    (hquery : Decodes reader innerDepth decode) {expected : String} {r : Request α}
    {o o' : WrittenObject innerDepth} (h : whole (request expected reader) o.text false = .ok r)
    (hchanges : Relation.ReflTransGen Change o.entries o'.entries) :
    whole (request expected reader) o'.text false = .ok r := by
  obtain ⟨written, htext, hspells⟩ := (whole_request_iff hquery).1 h
  have hentries : written.entries = o.entries := by
    have hwritten := whole_object_iff.2 ⟨written, htext, rfl⟩
    have ho := whole_object_iff.2 ⟨o, rfl, rfl⟩
    exact Value.object.inj (Except.ok.inj (hwritten.symm.trans ho))
  rw [hentries] at hspells
  exact (whole_request_iff hquery).2 ⟨o', rfl, spells_of_changes hchanges hspells⟩

end Wire

namespace Gateway

theorem readBody_encode_eq_ok_iff {α : Type} {reader : (budget : Nat) → Reader α} {text : String}
    {a : α} :
    readBody reader (Utf8.encode text) = .ok a ↔ whole reader text.toList false = .ok a := by
  rw [readBody, Utf8.validHead_encode]
  dsimp only
  rw [Bool.not_true]
  cases whole reader text.toList false with
  | ok b => exact ⟨fun h => by cases h; rfl, fun h => by cases h; rfl⟩
  | error refusal => cases refusal <;> exact iff_of_false (fun h => by cases h) fun h => by cases h

/-- A body that is read as a request is an object, and an object with changed members is read as the
same request. -/
theorem readBody_of_changes {α : Type} {reader : (budget : Nat) → Reader α}
    {decode : Value → Option α} (hquery : Wire.Decodes reader Wire.innerDepth decode)
    {expected : String} {close : Request α → Question} {text : String} {question : Question}
    (h : (readBody (Wire.request expected reader) (Utf8.encode text)).map close = .ok question) :
    (∃ o : WrittenObject Wire.innerDepth, String.ofList o.text = text) ∧
    ∀ o o' : WrittenObject Wire.innerDepth, String.ofList o.text = text →
      Relation.ReflTransGen Wire.Change o.entries o'.entries →
        (readBody (Wire.request expected reader) (Utf8.encode (String.ofList o'.text))).map close
          = .ok question := by
  obtain ⟨r, hread, rfl⟩ : ∃ r,
      whole (Wire.request expected reader) text.toList false = .ok r ∧ close r = question := by
    cases hbody : readBody (Wire.request expected reader) (Utf8.encode text) with
    | error rejection => rw [hbody] at h; cases h
    | ok r =>
      rw [hbody] at h
      exact ⟨r, readBody_encode_eq_ok_iff.1 hbody, Except.ok.inj h⟩
  constructor
  · obtain ⟨o, htext, -⟩ := (Wire.whole_request_iff hquery).1 hread
    exact ⟨o, by rw [htext, String.ofList_toList]⟩
  · rintro o o' rfl hchanges
    rw [String.toList_ofList] at hread
    have hagain := Wire.whole_request_of_changes hquery hread hchanges
    rw [← String.toList_ofList (l := o'.text)] at hagain
    rw [readBody_encode_eq_ok_iff.2 hagain]
    rfl

/-- A body that asks a question is an object, and written with changed members it asks the same
question, of the same database. -/
theorem readQuestion_of_changes (endpoint : Endpoint) (text : String) (question : Question)
    (h : readQuestion endpoint (Utf8.encode text) = .ok question) :
    (∃ o : WrittenObject Wire.innerDepth, String.ofList o.text = text) ∧
    ∀ o o' : WrittenObject Wire.innerDepth, String.ofList o.text = text →
      Relation.ReflTransGen Wire.Change o.entries o'.entries →
        readQuestion endpoint (Utf8.encode (String.ofList o'.text)) = .ok question := by
  cases endpoint with
  | symbols =>
    simp only [readQuestion, Wire.symbolRequest] at h ⊢
    exact readBody_of_changes (Wire.decodes_nameSet 125) h
  | types kind =>
    simp only [readQuestion, Wire.nestedRequest] at h ⊢
    exact readBody_of_changes (Wire.decodes_nestedQuery 124) h

/-- A body whose members come in reverse, with another one between them, a unique id in lower case
and an age in base sixteen. -/
theorem readQuestion_of_changes_reverse :
    readQuestion .symbols (Utf8.encode "\x7b\"name\":\"a\",\"guid\":\"B\",\"age\":1,\"query\":[]\x7d")
        = .ok (.symbols ⟨⟨"a", "B", 1⟩, .ofNames []⟩) ∧
      readQuestion .symbols (Utf8.encode
          "\x7b\"query\":[],\"x\":\x7b\x7d,\"age\":\" 0X+01\",\"guid\":\"b\",\"name\":\"a\"\x7d")
        = .ok (.symbols ⟨⟨"a", "B", 1⟩, .ofNames []⟩) := by
  have hobject : whole (fun budget => value budget (Wire.innerDepth + 1))
      "\x7b\"name\":\"a\",\"guid\":\"B\",\"age\":1,\"query\":[]\x7d".toList false
        = .ok (.object [("name", .text "a"), ("guid", .text "B"), ("age", .number (.natural 1)),
          ("query", .sequence [])]) := by
    simp only [String.reduceToList]
    rfl
  have hobject' : whole (fun budget => value budget (Wire.innerDepth + 1))
      "\x7b\"query\":[],\"x\":\x7b\x7d,\"age\":\" 0X+01\",\"guid\":\"b\",\"name\":\"a\"\x7d".toList
        false = .ok (.object [("query", .sequence []), ("x", .object []), ("age", .text " 0X+01"),
          ("guid", .text "b"), ("name", .text "a")]) := by
    simp only [String.reduceToList]
    rfl
  obtain ⟨o, htext, hentries⟩ := whole_object_iff.1 hobject
  obtain ⟨o', htext', hentries'⟩ := whole_object_iff.1 hobject'
  have huniqueId : Wire.uniqueIdOf "B" = "B" := (Wire.uniqueIdOf_eq_self_iff "B").2 (by simp)
  have hage : Wire.ageOf (.number (.natural 1)) = .ok 1 := Wire.ageOf_natural 1
  have hspells : Wire.Spells Wire.namesIn? o.entries ⟨⟨"a", "B", 1⟩, .ofNames []⟩ := by
    rw [hentries]
    exact ⟨⟨.text "a", rfl, rfl⟩, ⟨.text "B", rfl, congrArg some huniqueId⟩,
      ⟨.number (.natural 1), rfl, congrArg Except.toOption hage⟩, ⟨.sequence [], rfl, rfl⟩⟩
  have hread : readQuestion .symbols
      (Utf8.encode "\x7b\"name\":\"a\",\"guid\":\"B\",\"age\":1,\"query\":[]\x7d")
        = .ok (.symbols ⟨⟨"a", "B", 1⟩, .ofNames []⟩) := by
    have hwhole : whole Wire.symbolRequest _ false = .ok _ :=
      (Wire.whole_request_iff (Wire.decodes_nameSet 125)).2 ⟨o, htext, hspells⟩
    rw [readQuestion, readBody_encode_eq_ok_iff.2 hwhole]
    rfl
  have hcase : Wire.SameButCase "B" "b" := .cons (.inr (.inr rfl)) .nil
  have hspelling : Wire.SpellsAge (.text " 0X+01") (1 : UInt32).toNat :=
    @Wire.SpellsAge.text " 0X+01" [' '] ['0', 'X'] ['+'] ['0', '1'] [] 16 1 rfl
      (List.forall_mem_singleton.2 rfl) (by simp) .upper (.inr rfl) rfl (by decide)
  have hchanges : Relation.ReflTransGen Wire.Change o.entries o'.entries := by
    rw [hentries, hentries']
    refine .head (.respell [("name", .text "a")] (.uniqueId hcase)) ?_
    refine .head (.respell [("name", .text "a"), ("guid", .text "b")] (.age hage hspelling)) ?_
    have hother : Wire.Change _ (_ ++ ("x", .object []) :: [("query", .sequence [])]) :=
      .add [("name", .text "a"), ("guid", .text "b"), ("age", .text " 0X+01")] (by decide)
    exact .head hother (.single (.order (List.reverse_perm _).symm))
  have h := (readQuestion_of_changes .symbols _ _ hread).2 o o'
    (by rw [htext, String.ofList_toList]) hchanges
  rw [htext', String.ofList_toList] at h
  exact ⟨hread, h⟩

end Gateway

end OffsetService
