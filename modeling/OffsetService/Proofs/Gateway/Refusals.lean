import OffsetService.Proofs.Gateway.Answers

/-!
# The client is blamed for what is refused

A request is refused before anything is looked at when it is no question or when the identity in it
has no place in an archive (`Refused`). Such a request gets a status of the client's and leaves the
cache as it was: nothing is asked of the archive, no file or folder is made and no lock taken.

Every other request is answered, or fails by the service. What comes later than the checks cannot
blame the client any more: a path without a folder, which is refused in the words of an unsafe
identity, does not occur (`Cache.hasFolder_localPath`), and files and databases fail in words of
their own. Only an archive that uses the words of the checks itself is believed
(`blamesClient_iff_refused_or_reported`, `archiveRefuses_unsafe`); the remote archive never does
(`Remote.blameless_source`).
-/

namespace OffsetService

namespace Gateway

/-- A status that blames the client. -/
def BlamesClient (status : Nat) : Prop := 400 ≤ status ∧ status < 500

/-- A request that is refused before anything is looked at. -/
inductive Refused (request : HttpRequest) : Prop where
  /-- There is no such endpoint, or the method, the media type, the size or the body is wrong. -/
  | unasked {rejection : Rejection} (rejected : question? request = .error rejection)
  /-- The identity has no place in an archive. -/
  | misplaced {question : Question} {fault : Fault} (asked : question? request = .ok question)
    (unfit : Archive.check question.identity = .error fault)

variable {request : HttpRequest}

theorem exists_question_of_not_refused (h : ¬Refused request) :
    ∃ question, question? request = .ok question ∧ Archive.check question.identity = .ok () := by
  cases hasked : question? request with
  | error rejection => exact absurd (.unasked hasked) h
  | ok question =>
    cases hcheck : Archive.check question.identity with
    | error fault => exact absurd (.misplaced hasked hcheck) h
    | ok done => exact ⟨question, rfl, hcheck⟩

theorem blamesClient_rejection (rejection : Rejection) :
    BlamesClient rejection.response.status := by
  cases rejection <;> exact ⟨by decide, by decide⟩

/-- The response to a question says how its answering ended. -/
theorem handleIn_of_asked {question : Question} (hasked : question? request = .ok question)
    (meets : Circumstances) (cache : Cache) :
    (handleIn meets cache request).1 = (answer meets cache question).1 ∧
      (handleIn meets cache request).2.2.status
        = match (answer meets cache question).2.outcome with
          | .ok _ => 200
          | .error fault => (Failure.query fault).status := by
  rw [handleIn, hasked]
  dsimp only
  rw [respond]
  cases (answer meets cache question).2.outcome with
  | ok text => exact ⟨rfl, rfl⟩
  | error fault => exact ⟨rfl, rfl⟩

/-- An identity without a place is refused before the cache is touched. -/
theorem answer_of_check_error {question : Question} {fault : Fault}
    (h : Archive.check question.identity = .error fault) (meets : Circumstances) (cache : Cache) :
    (answer meets cache question).1 = cache ∧
      (answer meets cache question).2.outcome = .error fault := by
  have hensured : cache.ensureIn meets question.identity = (cache, .fail fault) := by
    rw [Cache.ensureIn, Cache.ensureUnder, h]
  rw [answer, hensured]
  exact ⟨rfl, rfl⟩

/-- A refused request changes nothing, and the client is to blame for it. -/
theorem Refused.handleIn (h : Refused request) (meets : Circumstances) (cache : Cache) :
    (handleIn meets cache request).1 = cache ∧
      BlamesClient (handleIn meets cache request).2.2.status := by
  cases h with
  | unasked rejected =>
    rw [Gateway.handleIn, rejected]
    exact ⟨rfl, blamesClient_rejection _⟩
  | misplaced asked unfit =>
    obtain ⟨hafter, hstatus⟩ := handleIn_of_asked asked meets cache
    obtain ⟨hcache, houtcome⟩ := answer_of_check_error unfit meets cache
    rw [hafter, hstatus, houtcome]
    dsimp only
    rw [status_of_blamesIdentity (Archive.blamesIdentity_of_check unfit)]
    exact ⟨hcache, by decide, by decide⟩

/-! ## Questions -/

/-- The question for a symbol of the database with this name. -/
def askedOf (name : String) : Request NameSet := ⟨⟨name, "AB", 1⟩, .ofNames ["f"]⟩

/-- That question as the body of a request. -/
def bodyOf (name : String) : Bytes :=
  Utf8.encode (Wire.textOf (Wire.ofRequest Wire.ofNames (askedOf name)))

/-- The request with that body. -/
def requestOf (name : String) : HttpRequest :=
  ⟨"POST", "/" ++ Endpoint.symbols.label, some "application/json", none, bodyOf name⟩

theorem question?_requestOf (name : String) (h : (bodyOf name).length ≤ bodyLimit) :
    question? (requestOf name) = .ok (.symbols (askedOf name)) := by
  have hupper : Wire.received (askedOf name).identity = (askedOf name).identity :=
    (Wire.received_eq_self_iff _).2 (by simp [askedOf])
  have hbody : readBody Wire.symbolRequest (bodyOf name)
      = .ok ⟨Wire.received (askedOf name).identity, (askedOf name).query⟩ :=
    readBody_textOf (Wire.readsWithin_request Wire.readsWithin_nameSet _ (askedOf name))
  rw [requestOf, question?_of_fits .symbols none h, readQuestion, hbody, hupper]
  rfl

end Gateway

end OffsetService
