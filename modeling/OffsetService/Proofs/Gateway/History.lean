import Mathlib.Data.List.Induction
import OffsetService.Proofs.Gateway.Refusals
import OffsetService.Proofs.SmoothCalls

/-!
# Databases do not know of each other

A history is what comes of requests to a gateway, one after the other, when its cache was empty and
its files never fail. The archive may answer each request differently, with any bytes and any fault,
so a `Visit` brings along what the archive delivers if it is asked on that occasion.

A database is asked for until it has been delivered whole once. From then on its file stays as it
came, and it is that file that questions are put to, whether or not it can be read (`servedOn`). One
visit touches no other database (`Kept.visit_of_question`), and so what comes of the questions about
one database depends on nothing but these visits (`filter_served`).
-/

namespace OffsetService

open Archive (check relativePath)
open Cache (place)

/-- The bytes of a delivery that did not break off. -/
def Delivery.whole? (delivery : Delivery) : Option Bytes :=
  match delivery.fault with
  | none => some delivery.written
  | some _ => none

namespace Gateway

/-! ## Visits -/

/-- A request with what it meets: the files, and what the archive delivers if it is asked. -/
structure Visit where
  request : HttpRequest
  files : SmoothFiles
  delivery : Delivery

/-- What came of a visit: how often the archive was asked, and the response. -/
@[ext]
structure Served where
  visit : Visit
  fetches : Nat
  response : HttpResponse

/-- The cache that visits have left, and what came of them, oldest first. -/
structure History where
  cache : Cache
  served : List Served

namespace Visit

/-- The circumstances of a visit. -/
def meets (v : Visit) : Circumstances := fun cache id => (v.files.conditions cache id, v.delivery)

/-- The question of a visit, if it is about an identity with a place. -/
def question? (v : Visit) : Option Question :=
  match Gateway.question? v.request with
  | .ok question => if check question.identity = .ok () then some question else none
  | .error _ => none

/-- Whether a visit has a question about the database with this key. -/
def isFor (key : String) (v : Visit) : Bool :=
  v.question?.any fun question => relativePath question.identity = key

end Visit

namespace History

/-- Before the first visit. -/
def start (root : String) : History := ⟨.empty root, []⟩

/-- One more visit. -/
def visit (h : History) (v : Visit) : History :=
  let (after, _, response) := handleIn v.meets h.cache v.request
  ⟨after, h.served ++ [⟨v, after.fetches - h.cache.fetches, response⟩]⟩

/-- The history of these visits. -/
def ofVisits (root : String) (visits : List Visit) : History := visits.foldl visit (start root)

theorem ofVisits_concat (root : String) (visits : List Visit) (v : Visit) :
    ofVisits root (visits ++ [v]) = (ofVisits root visits).visit v := by
  simp [ofVisits]

end History

/-! ## What a database is known by -/

/-- Whether a visit that was served had a question about the database with this key. -/
def Served.isFor (key : String) (s : Served) : Bool := s.visit.isFor key

/-- The bytes that a visit fetched for a key, if it fetched them whole. -/
def Served.brought? (key : String) (s : Served) : Option Bytes :=
  if s.isFor key ∧ s.fetches ≠ 0 then s.visit.delivery.whole? else none

/-- The bytes of the first fetch for a key that succeeded. -/
def brought? (key : String) (served : List Served) : Option Bytes :=
  served.findSome? (·.brought? key)

/-- The response to a question that is put to a file of these bytes. -/
def responseOn (root : String) (question : Question) (bytes : Bytes) : HttpResponse :=
  responseTo id do
    let db ← Database.ofFile (Archive.join root (relativePath question.identity)) (some bytes)
    (ask db question).outcome

/-- What comes of a question whose database was brought, or was not. -/
def Visit.servedOn (root : String) (v : Visit) (question : Question) : Option Bytes → Served
  | some bytes => ⟨v, 0, responseOn root question bytes⟩
  | none =>
    match v.delivery.fault with
    | none => ⟨v, 1, responseOn root question v.delivery.written⟩
    | some fault => ⟨v, 1, (Failure.query fault).response.2⟩

@[simp] theorem Visit.visit_servedOn (root : String) (v : Visit) (question : Question)
    (stored : Option Bytes) : (v.servedOn root question stored).visit = v := by
  unfold servedOn
  split
  next => rfl
  next => split <;> rfl

section Brought

variable {key : String} {v : Visit} {question : Question}

theorem Visit.question?_eq_some_iff :
    v.question? = some question ↔
      Gateway.question? v.request = .ok question ∧ check question.identity = .ok () := by
  unfold Visit.question?
  split
  next asked h =>
    rw [h]
    split
    next hcheck =>
      constructor
      · rintro ⟨⟩
        exact ⟨rfl, hcheck⟩
      · rintro ⟨⟨⟩, -⟩
        rfl
    next hcheck =>
      constructor
      · rintro ⟨⟩
      · rintro ⟨⟨⟩, hfit⟩
        exact absurd hfit hcheck
  next rejection h =>
    rw [h]
    constructor
    · rintro ⟨⟩
    · rintro ⟨⟨⟩, -⟩

theorem Visit.refused_of_question?_eq_none (h : v.question? = none) : Refused v.request := by
  by_contra hserved
  obtain ⟨question, hasked, hcheck⟩ := exists_question_of_not_refused hserved
  rw [question?_eq_some_iff.2 ⟨hasked, hcheck⟩] at h
  cases h

theorem Visit.isFor_of_question? (h : v.question? = some question) :
    v.isFor key = true ↔ relativePath question.identity = key := by
  rw [isFor, h, Option.any_some, decide_eq_true_iff]

theorem Visit.exists_question?_of_isFor (h : v.isFor key = true) :
    ∃ question, v.question? = some question ∧ relativePath question.identity = key := by
  obtain ⟨question, hv, hkey⟩ := (Option.any_eq_true _ _).1 h
  exact ⟨question, hv, of_decide_eq_true hkey⟩

theorem brought?_concat (served : List Served) (s : Served) :
    brought? key (served ++ [s]) = (brought? key served).or (s.brought? key) := by
  simp [brought?, List.findSome?_append]

theorem Served.brought?_eq_none_of_not_isFor {s : Served} (h : ¬s.isFor key = true) :
    s.brought? key = none := by
  rw [Served.brought?, if_neg fun hs => h hs.1]

/-- What was brought for a key was brought by visits for it. -/
theorem brought?_filter (served : List Served) :
    brought? key (served.filter (·.isFor key)) = brought? key served := by
  induction served with
  | nil => rfl
  | cons s served ih =>
    by_cases hs : s.isFor key = true
    · rw [List.filter_cons_of_pos hs]
      simp only [brought?, List.findSome?_cons] at ih ⊢
      rw [ih]
    · rw [List.filter_cons_of_neg hs, ih]
      simp only [brought?, List.findSome?_cons, Served.brought?_eq_none_of_not_isFor hs]

/-- What a visit about a database brings, if it was not brought before, is what the archive delivers
whole. -/
theorem brought?_servedOn {root : String} (hv : v.question? = some question)
    (stored : Option Bytes) :
    (v.servedOn root question stored).brought? key
      = if relativePath question.identity = key ∧ stored = none then v.delivery.whole?
        else none := by
  have hfor : v.isFor key = true ↔ relativePath question.identity = key :=
    Visit.isFor_of_question? hv
  cases stored with
  | some bytes => simp [Visit.servedOn, Served.brought?]
  | none =>
    cases hfault : v.delivery.fault with
    | none => simp [Visit.servedOn, hfault, Served.brought?, Served.isFor, hfor]
    | some fault => simp [Visit.servedOn, hfault, Served.brought?, Served.isFor, hfor]

end Brought

/-! ## One visit -/

/-- The cache keeps, for every key, the file that was brought for it first. -/
structure Kept (root : String) (h : History) : Prop where
  root : h.cache.root = root
  shelved : h.cache.directory.Shelved
  files : ∀ id, check id = .ok () →
    h.cache.directory.file? (place id) = brought? (relativePath id) h.served

section Visit

variable {root : String} {h : History} {v : Visit} {question : Question}

theorem kept_start (root : String) : Kept root (.start root) := by
  refine ⟨rfl, Directory.shelved_empty, fun id _ => ?_⟩
  rfl

/-- A visit that is refused leaves no trace but itself. -/
theorem visit_of_refused (hv : v.question? = none) :
    (h.visit v).cache = h.cache ∧
      ∃ response, (h.visit v).served = h.served ++ [⟨v, 0, response⟩] := by
  have hcache := ((Visit.refused_of_question?_eq_none hv).handleIn v.meets h.cache).1
  refine ⟨hcache, (handleIn v.meets h.cache v.request).2.2, ?_⟩
  rw [History.visit]
  dsimp only
  rw [hcache, Nat.sub_self]

/-- What a gateway does for a question: a call for the database, and the question to the file that
is there then. -/
theorem handleIn_of_accepted (hasked : Gateway.question? v.request = .ok question) (cache : Cache) :
    (handleIn v.meets cache v.request).1 = (cache.ensureIn v.meets question.identity).1 ∧
    (handleIn v.meets cache v.request).2.2
      = responseTo id ((cache.ensureIn v.meets question.identity).2.outcome >>= fun path =>
        Database.ofFile path ((cache.ensureIn v.meets question.identity).1.directory.file?
          (place question.identity)) >>= fun db => (ask db question).outcome) := by
  obtain ⟨hcache, hresponse⟩ := handleIn_of_question hasked
    (fun db => (Traced.map_id (ask db question)).symm) v.meets cache
  refine ⟨hcache, hresponse.trans (congrArg (responseTo id) ?_)⟩
  rw [Cache.run]
  simp only [Traced.outcome_bind, Traced.outcome_ofExcept]

/-- A question about an identity with a place is served from the file that is there, or else from
what the archive delivers; the one file that may be new is that of the identity. -/
theorem handleIn_of_shelved {cache : Cache} (hv : v.question? = some question)
    (hroot : cache.root = root) (shelved : cache.directory.Shelved) :
    let stored := cache.directory.file? (place question.identity)
    let after := (handleIn v.meets cache v.request).1
    after.fetches = cache.fetches + (v.servedOn root question stored).fetches ∧
      (handleIn v.meets cache v.request).2.2 = (v.servedOn root question stored).response ∧
      after.root = root ∧ after.directory.Shelved ∧
      after.directory.file? (place question.identity) = stored.or v.delivery.whole? ∧
      ∀ p, p ≠ place question.identity → after.directory.file? p = cache.directory.file? p := by
  obtain ⟨hasked, hcheck⟩ := Visit.question?_eq_some_iff.1 hv
  obtain ⟨hafter, hresponse⟩ := handleIn_of_accepted hasked cache
  dsimp only
  rw [hafter, hresponse]
  have hsmooth := v.files.smooth cache question.identity
  have hfree := v.files.free cache question.identity
  have hpath : cache.localPath question.identity
      = Archive.join root (relativePath question.identity) := by rw [Cache.localPath, hroot]
  have hensured : cache.ensureIn v.meets question.identity = cache.ensureUnder
      (v.files.conditions cache question.identity) v.delivery question.identity := rfl
  cases hstored : cache.directory.file? (place question.identity) with
  | some bytes =>
    rw [hensured, Cache.ensureUnder_of_present hcheck hstored, hpath]
    refine ⟨rfl, ?_, hroot, shelved, hstored, fun p _ => rfl⟩
    dsimp only
    rw [hstored]
    rfl
  | none =>
    rw [hensured]
    cases hdelivery : v.delivery.fault with
    | none =>
      obtain ⟨houtcome, hsame, hfetches, hadds⟩ :=
        Cache.ensureUnder_of_whole hcheck shelved hsmooth hfree hstored hdelivery
      rw [houtcome, hpath, hadds.present]
      refine ⟨?_, ?_, hsame.trans hroot, shelved.addsFile hadds rfl, ?_, fun p hp => ?_⟩
      · rw [hfetches, Visit.servedOn, hdelivery]
      · rw [Visit.servedOn, hdelivery]
        rfl
      · rw [Delivery.whole?, hdelivery]
        rfl
      · exact hadds.file?_eq hp
    | some fault =>
      obtain ⟨houtcome, hsame, hfetches, hadds⟩ :=
        Cache.ensureUnder_of_broken hcheck shelved hsmooth hfree hstored hdelivery
      rw [houtcome]
      have hafterwards := shelved.addsFolders hadds (Nat.le_refl 2)
      refine ⟨?_, ?_, hsame.trans hroot, hafterwards, ?_, fun p _ => ?_⟩
      · rw [hfetches, Visit.servedOn, hdelivery]
      · rw [Visit.servedOn, hdelivery]
        rfl
      · rw [hadds.file?_eq, hstored, Delivery.whole?, hdelivery]
        rfl
      · exact hadds.file?_eq p

/-- A visit with a question about an identity with a place comes to what the file says that was
brought before or is brought now, and no other file changes. -/
theorem Kept.visit_of_question (kept : Kept root h) (hv : v.question? = some question) :
    (h.visit v).served = h.served
        ++ [v.servedOn root question (brought? (relativePath question.identity) h.served)] ∧
      Kept root (h.visit v) := by
  obtain ⟨-, hcheck⟩ := Visit.question?_eq_some_iff.1 hv
  obtain ⟨hfetches, hresponse, hroot, hshelved, hown, hothers⟩ :=
    handleIn_of_shelved hv kept.root kept.shelved
  rw [kept.files question.identity hcheck] at hfetches hresponse hown
  have hserved : (h.visit v).served = h.served
      ++ [v.servedOn root question (brought? (relativePath question.identity) h.served)] := by
    rw [History.visit]
    dsimp only
    rw [hfetches, hresponse, Nat.add_sub_cancel_left]
    congr 2
    ext
    · exact (Visit.visit_servedOn root v question _).symm
    · rfl
    · rfl
  refine ⟨hserved, hroot, hshelved, fun id hid => ?_⟩
  rw [hserved, brought?_concat, brought?_servedOn hv]
  by_cases hkey : relativePath question.identity = relativePath id
  · have hplace : place id = place question.identity := (Cache.place_eq_iff hid hcheck).2 hkey.symm
    show (handleIn v.meets h.cache v.request).1.directory.file? (place id) = _
    rw [hplace, hown, hkey]
    cases brought? (relativePath id) h.served with
    | some bytes => rfl
    | none => simp
  · have hplace : place id ≠ place question.identity :=
      fun heq => hkey (Cache.key_eq_of_place_eq heq).symm
    show (handleIn v.meets h.cache v.request).1.directory.file? (place id) = _
    rw [hothers _ hplace, kept.files id hid, if_neg fun hs => hkey hs.1, Option.or_none]

/-- What comes of a visit behind earlier ones: nothing is asked of the archive for a request that is
refused, and a question is answered from what was brought for its key. -/
structure ComesOf (root : String) (earlier : List Served) (s : Served) : Prop where
  refused : s.visit.question? = none → s.fetches = 0
  answered : ∀ question, s.visit.question? = some question →
    s = s.visit.servedOn root question (brought? (relativePath question.identity) earlier)

/-- One visit, whatever it is, comes of the earlier ones, and the cache keeps what was brought
first. -/
theorem Kept.visit (kept : Kept root h) (v : Visit) :
    Kept root (h.visit v) ∧
      ∃ s, s.visit = v ∧ (h.visit v).served = h.served ++ [s] ∧ ComesOf root h.served s := by
  cases hv : v.question? with
  | some question =>
    obtain ⟨hserved, hkept⟩ := kept.visit_of_question hv
    refine ⟨hkept, _, v.visit_servedOn root question _, hserved, ?refused, ?answered⟩
    case refused =>
      intro hnone
      rw [Visit.visit_servedOn, hv] at hnone
      cases hnone
    case answered =>
      intro other hother
      rw [Visit.visit_servedOn] at hother ⊢
      obtain rfl := Option.some.inj (hv.symm.trans hother)
      rfl
  | none =>
    obtain ⟨hcache, response, hserved⟩ := visit_of_refused (h := h) hv
    have hbrought : ∀ key, brought? key (h.visit v).served = brought? key h.served := by
      intro key
      have hother : ¬Served.isFor key ⟨v, 0, response⟩ = true := by
        simp [Served.isFor, Visit.isFor, hv]
      rw [hserved, brought?_concat, Served.brought?_eq_none_of_not_isFor hother, Option.or_none]
    refine ⟨⟨?_, ?_, ?_⟩, _, rfl, hserved, fun _ => rfl, ?_⟩
    · rw [hcache]
      exact kept.root
    · rw [hcache]
      exact kept.shelved
    · intro id hid
      rw [hcache, hbrought]
      exact kept.files id hid
    · intro question hquestion
      cases hv.symm.trans hquestion

end Visit

/-! ## Whole histories -/

namespace History

variable {root key : String}

theorem kept (root : String) (visits : List Visit) : Kept root (ofVisits root visits) := by
  induction visits using List.reverseRecOn with
  | nil => exact kept_start root
  | append_singleton before v ih =>
    rw [ofVisits_concat]
    exact (ih.visit v).1

/-- Every visit is served, in its turn. -/
theorem map_visit_served (root : String) (visits : List Visit) :
    (ofVisits root visits).served.map Served.visit = visits := by
  induction visits using List.reverseRecOn with
  | nil => rfl
  | append_singleton before v ih =>
    obtain ⟨-, s, hs, hserved, -⟩ := (kept root before).visit v
    rw [ofVisits_concat, hserved, List.map_append, ih, List.map_singleton, hs]

/-- What came of the visits stays when there are more of them. -/
theorem exists_served_append (root : String) (visits more : List Visit) :
    ∃ rest, (ofVisits root (visits ++ more)).served = (ofVisits root visits).served ++ rest := by
  induction more using List.reverseRecOn with
  | nil => exact ⟨[], by simp⟩
  | append_singleton before v ih =>
    obtain ⟨rest, hrest⟩ := ih
    obtain ⟨-, s, -, hserved, -⟩ := (kept root (visits ++ before)).visit v
    refine ⟨rest ++ [s], ?_⟩
    rw [← List.append_assoc, ofVisits_concat, hserved, hrest, List.append_assoc]

/-- Every visit comes of those before it. -/
theorem comesOf {visits : List Visit} {earlier later : List Served} {s : Served}
    (h : (ofVisits root visits).served = earlier ++ s :: later) : ComesOf root earlier s := by
  induction visits using List.reverseRecOn generalizing later with
  | nil => simp [ofVisits, start] at h
  | append_singleton before v ih =>
    obtain ⟨-, last, -, hserved, hlast⟩ := (kept root before).visit v
    rw [ofVisits_concat, hserved] at h
    rcases List.eq_nil_or_concat later with rfl | ⟨between, final, rfl⟩
    · obtain ⟨rfl, hsame⟩ := List.append_inj' h rfl
      obtain rfl := List.head_eq_of_cons_eq hsame
      exact hlast
    · have hsplit : earlier ++ s :: between.concat final
          = (earlier ++ s :: between) ++ [final] := by simp
      rw [hsplit] at h
      exact ih (List.append_inj' h rfl).1

/-- Visits for one key, as if there were no others. -/
def replay (root key : String) (visits : List Visit) : List Served :=
  visits.foldl (fun past v => past ++ (v.question?.map fun question =>
    v.servedOn root question (brought? key past)).toList) []

theorem replay_concat (root key : String) (visits : List Visit) (v : Visit) :
    replay root key (visits ++ [v]) = replay root key visits ++ (v.question?.map fun question =>
      v.servedOn root question (brought? key (replay root key visits))).toList := by
  simp [replay]

/-- What comes of the visits for a key is what comes of them when there are no others. -/
theorem filter_served (root key : String) (visits : List Visit) :
    (ofVisits root visits).served.filter (·.isFor key)
      = replay root key (visits.filter (·.isFor key)) := by
  induction visits using List.reverseRecOn with
  | nil => rfl
  | append_singleton before v ih =>
    obtain ⟨-, s, rfl, hserved, hs⟩ := (kept root before).visit v
    rw [ofVisits_concat, hserved, List.filter_append, List.filter_append]
    by_cases hfor : s.isFor key = true
    · obtain ⟨question, hquestion, rfl⟩ := Visit.exists_question?_of_isFor hfor
      have hvisit : [s.visit].filter (·.isFor (relativePath question.identity)) = [s.visit] :=
        List.filter_cons_of_pos hfor
      rw [List.filter_cons_of_pos hfor, List.filter_nil, hvisit, replay_concat, hquestion, ← ih,
        brought?_filter]
      exact congrArg (_ ++ [·]) (hs.answered question hquestion)
    · have hvisit : [s.visit].filter (·.isFor key) = [] := List.filter_cons_of_neg hfor
      rw [List.filter_cons_of_neg hfor, List.filter_nil, hvisit, List.append_nil, List.append_nil,
        ih]

/-- **Every database by itself.** Requests are served in their turn. Nothing is asked of the archive
for a request that is refused, and for a question once, if its database was not brought before, and
not at all, if it was. From the first fetch that succeeds the file of a database is what was brought
then, and every question is answered from it, whatever it holds; before that, a question fails as
the archive did. What comes of the questions about one database, and its file, are the same in every
history with the same visits for it, such as the one without all other visits. -/
theorem each_database_by_itself (root : String) (visits : List Visit) :
    (ofVisits root visits).served.map Served.visit = visits ∧
    (∀ earlier s later, (ofVisits root visits).served = earlier ++ s :: later →
      ComesOf root earlier s) ∧
    ∀ id, check id = .ok () →
      (ofVisits root visits).cache.directory.file? (place id)
        = brought? (relativePath id) (ofVisits root visits).served ∧
      (∀ bytes more, (ofVisits root visits).cache.directory.file? (place id) = some bytes →
        (ofVisits root (visits ++ more)).cache.directory.file? (place id) = some bytes) ∧
      ∀ others,
        others.filter (·.isFor (relativePath id)) = visits.filter (·.isFor (relativePath id)) →
        (ofVisits root others).served.filter (·.isFor (relativePath id))
            = (ofVisits root visits).served.filter (·.isFor (relativePath id)) ∧
          (ofVisits root others).cache.directory.file? (place id)
            = (ofVisits root visits).cache.directory.file? (place id) := by
  refine ⟨map_visit_served root visits, fun _ _ _ => comesOf, fun id hid => ?_⟩
  have hfile : ∀ visits, (ofVisits root visits).cache.directory.file? (place id)
      = brought? (relativePath id) (ofVisits root visits).served :=
    fun visits => (kept root visits).files id hid
  refine ⟨hfile visits, fun bytes more hbytes => ?stays, fun others hsame => ?apart⟩
  case stays =>
    obtain ⟨rest, hrest⟩ := exists_served_append root visits more
    rw [hfile] at hbytes ⊢
    rw [hrest, brought?, List.findSome?_append, ← brought?, hbytes, Option.some_or]
  case apart =>
    have hserved : (ofVisits root others).served.filter (·.isFor (relativePath id))
        = (ofVisits root visits).served.filter (·.isFor (relativePath id)) := by
      rw [filter_served, filter_served, hsame]
    refine ⟨hserved, ?_⟩
    rw [hfile, hfile, ← brought?_filter, hserved, brought?_filter]

/-- A visit for the database with this name. -/
def visitOf (name : String) (delivery : Delivery) : Visit := ⟨requestOf name, .usual, delivery⟩

theorem question?_visitOf (name : String) (hfits : (bodyOf name).length ≤ bodyLimit)
    (hcheck : check (askedOf name).identity = .ok ()) (delivery : Delivery) :
    (visitOf name delivery).question? = some (.symbols (askedOf name)) :=
  Visit.question?_eq_some_iff.2 ⟨question?_requestOf name hfits, hcheck⟩

/-- The archive breaks off for one database, and delivers another; later it delivers garbage for the
first, and would deliver it whole after that. -/
def mixedVisits : List Visit :=
  [visitOf "a.pdb" (.broken [0x4D] .invalidIdentity), visitOf "b.pdb" (.complete []),
    visitOf "a.pdb" (.complete [0x41, 0x41]), visitOf "a.pdb" (.complete [0x42])]

/-- The garbage stays, with and without the other database. -/
theorem garbage_stays :
    (ofVisits "cache" mixedVisits).served.map Served.fetches = [1, 1, 1, 0] ∧
      (ofVisits "cache" mixedVisits).cache.directory.file? (place (askedOf "a.pdb").identity)
        = some [0x41, 0x41] ∧
      (ofVisits "cache" (mixedVisits.eraseIdx 1)).cache.directory.file?
        (place (askedOf "a.pdb").identity) = some [0x41, 0x41] := by
  have hrun : (ofVisits "cache" mixedVisits).served.map Served.fetches = [1, 1, 1, 0] ∧
      (ofVisits "cache" mixedVisits).cache.directory.file? (place (askedOf "a.pdb").identity)
        = some [0x41, 0x41] := by
    decide +kernel
  have hcheck : check (askedOf "a.pdb").identity = .ok () := by decide +kernel
  have hown : ∀ delivery, (visitOf "a.pdb" delivery).isFor
      (relativePath (askedOf "a.pdb").identity) = true := by
    intro delivery
    have hquestion := question?_visitOf "a.pdb" (by decide +kernel) hcheck delivery
    exact (Visit.isFor_of_question? hquestion).2 rfl
  have hother : ∀ delivery, (visitOf "b.pdb" delivery).isFor
      (relativePath (askedOf "a.pdb").identity) = false := by
    intro delivery
    have hquestion := question?_visitOf "b.pdb" (by decide +kernel) (by decide +kernel) delivery
    have hkey : relativePath (askedOf "b.pdb").identity
        ≠ relativePath (askedOf "a.pdb").identity := by decide +kernel
    exact Bool.eq_false_iff.2 fun h => hkey ((Visit.isFor_of_question? hquestion).1 h)
  obtain ⟨-, -, hfiles⟩ := each_database_by_itself "cache" mixedVisits
  obtain ⟨-, -, hapart⟩ := hfiles (askedOf "a.pdb").identity hcheck
  refine ⟨hrun.1, hrun.2, ?_⟩
  rw [(hapart (mixedVisits.eraseIdx 1) ?_).2]
  · exact hrun.2
  · simp [mixedVisits, hown, hother]

end History

end Gateway

end OffsetService
