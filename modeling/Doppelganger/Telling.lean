import Doppelganger.Browser
import Doppelganger.History

/-!
# What an answer tells about its session

An answer that `Tells` the client of a GET or of a verify request that the session is
over: 404, 409, or a 200 with another phase than WAITING_FOR_BOB. A handler gives such an
answer only after a Redis command that found the session `Over`, absent or not in
WAITING_FOR_BOB: while it is not, a step leaves the handler `Unaware`
(`unaware_of_step`). The error answers of a GET have no phase.
-/

open Text Redis

namespace Doppelganger

variable {env : Env} {σ σ' : State} {l : Label} {r : ℕ} {q : Request} {sid : Str}

/-- The session is absent or not in WAITING_FOR_BOB. -/
def State.Over (σ : State) (sid : Str) : Prop :=
  SessionStore.getPhase σ.store sid ≠ some waitingForBob

instance (σ : State) (sid : Str) : Decidable (σ.Over sid) := instDecidableNot

/-- The answer to a request of Bob's page says that the session is over. -/
def Tells (q : Request) (response : Response) : Prop :=
  match q with
  | .get _ => response.status = 404 ∨
      (response.status = 200 ∧ response.body.get? (lit "phase") ≠ some (.str waitingForBob))
  | .verify _ _ => response.status = 404 ∨ response.status = 409
  | _ => False

/-- The handler of `q`, which is about session `sid`, has not found it over. -/
def Handler.Unaware (q : Request) (sid : Str) : Handler → Prop
  | .reading sid' => q = .get sid ∧ sid' = sid
  | .loading sid' _ => (∃ body, q = .verify sid body) ∧ sid' = sid
  | .scoring sid' _ _ => (∃ body, q = .verify sid body) ∧ sid' = sid
  | .finalizing sid' _ _ _ _ => (∃ body, q = .verify sid body) ∧ sid' = sid
  | .replying result => ¬ Tells q (answerOf result)
  | .done response => ¬ Tells q response
  | _ => False

/-- Errors raised in a handler tell nothing. -/
theorem not_tells_error (q : Request) (e : Exc) : ¬ Tells q (answerOf (.error e)) := by
  have hstatus : (answerOf (.error e)).status = 503 ∨ (answerOf (.error e)).status = 500 := by
    cases e <;> simp [answerOf, handleError, storeUnavailable, serverError, errorResponse]
  cases q <;> simp only [Tells] <;> rcases hstatus with h | h <;> simp [h]

/-- Nor do answers with a status of another kind. -/
theorem not_tells_of_status {response : Response} (h : response.status ≠ 404)
    (h' : response.status ≠ 409) (h'' : response.status ≠ 200) : ¬ Tells q response := by
  cases q <;> simp [Tells, h, h', h'']

theorem State.not_over_iff : ¬ σ.Over sid ↔
    ∃ e, σ.store.db (key sid) = some e ∧ e.fields .phase = some waitingForBob := by
  unfold State.Over SessionStore.getPhase Server.hget
  cases σ.store.db (key sid) <;> simp

theorem not_tells_getResponse (h : ¬ σ.Over sid) :
    ¬ Tells (.get sid) (answerOf (getResponse (SessionStore.get σ.store sid))) := by
  rcases State.not_over_iff.mp h with ⟨e, hdb, hphase⟩
  have hget : SessionStore.get σ.store sid = some e.fields := by
    simp [SessionStore.get, Server.hgetall, hdb]
  rw [hget]
  cases hname : e.fields .aliceName with
  | none =>
    simpa [getResponse, field, hname, bind, Except.bind] using not_tells_error _ .keyError
  | some name =>
    cases hquestion : e.fields .memoryQuestion with
    | none =>
      simpa [getResponse, field, hname, hquestion, bind, Except.bind] using
        not_tells_error _ .keyError
    | some question =>
      simp [getResponse, field, hname, hquestion, hphase, bind, Except.bind, pure, Except.pure,
        answerOf, Tells, Json.get?, Json.lookup]

theorem unaware_verifyLoaded {body : Json} {form : VerifyForm} (h : ¬ σ.Over sid) :
    (Handler.verifyLoaded sid form (SessionStore.get σ.store sid)).Unaware (.verify sid body) sid := by
  rcases State.not_over_iff.mp h with ⟨e, hdb, hphase⟩
  have hget : SessionStore.get σ.store sid = some e.fields := by
    simp [SessionStore.get, Server.hgetall, hdb]
  rw [hget]
  simpa [Handler.verifyLoaded, field, hphase] using
    show Handler.Unaware (.verify sid body) sid (.scoring sid form e.fields) from ⟨⟨body, rfl⟩, rfl⟩

theorem not_tells_won {session : Session} {score : ℚ} {body : Json} :
    ¬ Tells (.verify sid body) (answerOf (verifyResponse env session score .won)) := by
  unfold verifyResponse
  split_ifs
  · cases htext : field session .alicePubkeyJwk with
    | error e => simpa [bind, Except.bind] using not_tells_error _ e
    | ok text =>
      cases hjwk : Json.loads text with
      | none => simpa [bind, Except.bind, hjwk] using not_tells_error _ .valueError
      | some jwk => simp [bind, Except.bind, hjwk, answerOf, Tells, passResponse]
  · simp [answerOf, Tells, failResponse]

/-- A request that has just been sent. -/
theorem unaware_start (hq : q = .get sid ∨ ∃ body, q = .verify sid body) (limited : Bool) :
    Handler.Unaware q sid (if limited then .replying (.ok rateLimited) else .start q) := by
  cases limited with
  | true =>
    show ¬ Tells q rateLimited
    exact not_tells_of_status (by decide) (by decide) (by decide)
  | false =>
    rcases hq with rfl | ⟨body, rfl⟩
    · exact ⟨rfl, rfl⟩
    · show Handler.Unaware _ _ (Handler.start (.verify sid body))
      cases hvalid : validateVerify body with
      | error e => simpa [Handler.start, hvalid, Handler.Unaware] using not_tells_error _ e
      | ok msg =>
        cases msg with
        | some msg =>
          simp [Handler.start, hvalid, Handler.Unaware, answerOf, Tells, errorResponse]
        | none =>
          cases hform : verifyForm body with
          | none =>
            simpa [Handler.start, hvalid, hform, Handler.Unaware] using not_tells_error _ .keyError
          | some form => simp [Handler.start, hvalid, hform, Handler.Unaware]

/-- What can be said of request `r`: it is `q`, and has not found session `sid` over. -/
def State.Unaware (σ : State) (r : ℕ) (q : Request) (sid : Str) : Prop :=
  ∃ handler, σ.reqs r = some ⟨q, handler⟩ ∧ handler.Unaware q sid

theorem unaware_embedded {handler handler' : Handler} {result : Option Json}
    (hu : handler.Unaware q sid) (h : Embedded env handler result handler') :
    handler'.Unaware q sid := by
  cases h with
  | createFailed form => exact hu.elim
  | created form v => exact hu.elim
  | verifyFailed sid' form session =>
    show ¬ Tells q embeddingBusy
    exact not_tells_of_status (by decide) (by decide) (by decide)
  | notScored sid' form session v e _ => exact not_tells_error q e
  | notEncoded sid' form session v score _ _ => exact not_tells_error q .unicodeError
  | scored sid' form session v score _ => exact hu

theorem unaware_command {handler handler' : Handler} {effect : Effect} (hover : ¬ σ.Over sid)
    (hu : handler.Unaware q sid) (h : Command env r σ.store handler effect handler') :
    handler'.Unaware q sid := by
  cases h with
  | create form v sid' createdAt => exact hu.elim
  | get sid' =>
    rcases hu with ⟨rfl, rfl⟩
    exact not_tells_getResponse hover
  | load sid' form =>
    rcases hu with ⟨⟨body, rfl⟩, rfl⟩
    exact unaware_verifyLoaded hover
  | gone sid' form session bob score hnone =>
    rcases hu with ⟨_, rfl⟩
    rcases State.not_over_iff.mp hover with ⟨e, hdb, _⟩
    rw [hnone] at hdb
    cases hdb
  | completed sid' form session bob score e hdb hphase =>
    rcases hu with ⟨_, rfl⟩
    rcases State.not_over_iff.mp hover with ⟨e', hdb', hphase'⟩
    obtain rfl := Option.some.inj (hdb.symm.trans hdb')
    exact absurd hphase' hphase
  | won sid' form session bob score e _ _ =>
    rcases hu with ⟨⟨body, rfl⟩, rfl⟩
    exact not_tells_won
  | delete sid' => exact hu.elim

/-- A step of the handler, while the session is not over. -/
theorem unaware_handlerStep {handler handler' : Handler} (hover : ¬ σ.Over sid)
    (hu : handler.Unaware q sid) (h : HandlerStep env r σ.store l handler handler') :
    handler'.Unaware q sid := by
  cases h with
  | embedded result _ _ hembed => exact unaware_embedded hu hembed
  | named form v sid' => exact hu.elim
  | notNamed form v sid' => exact hu.elim
  | executed _ effect _ hcmd => exact unaware_command hover hu hcmd
  | failed fault _ effect _ _ hcmd => exact not_tells_error q .redisError
  | answered result => exact hu

/-- While the session is not over, a request does not find it over. -/
theorem unaware_of_step (h : step env l σ = some σ') (hover : ¬ σ.Over sid)
    (hu : σ.Unaware r q sid) : σ'.Unaware r q sid := by
  rcases hu with ⟨handler, hreq, hu⟩
  rcases handlerStep_of_step h hreq with ⟨handler', hreq', rfl | hstep⟩
  · exact ⟨_, hreq', hu⟩
  · exact ⟨_, hreq', unaware_handlerStep hover hu hstep⟩

/-- A request that is unaware has not told its client anything. -/
theorem State.Unaware.not_tells (hu : σ.Unaware r q sid) {response : Response}
    (hans : σ.answer? r = some response) : ¬ Tells q response := by
  rcases hu with ⟨handler, hreq, hu⟩
  rcases (State.answer?_eq_some _).mp hans with ⟨q', hreq'⟩
  rcases Req.mk.inj (Option.some.inj (hreq.symm.trans hreq')) with ⟨rfl, rfl⟩
  exact hu

/-! ## The error answers of a GET -/

/-- An answer other than a 200 has no phase, and a 200 can be read. -/
def Response.Phaseless (response : Response) : Prop :=
  (response.status = 200 ∧ response.body.standard = true) ∨
    response.body.get? (lit "phase") = none

theorem errorResponse_phaseless (status : ℕ) (msg : Str) :
    (errorResponse status msg).Phaseless := by
  have hname : lit "error" ≠ lit "phase" := by decide
  right
  simp [errorResponse, Json.get?, Json.lookup, hname]

theorem answerOf_error_phaseless (e : Exc) : (answerOf (.error e)).Phaseless := by
  cases e <;> exact errorResponse_phaseless _ _

/-- Where the handler of a GET can stand. -/
def Handler.OfGet : Handler → Prop
  | .reading _ => True
  | .replying result => (answerOf result).Phaseless
  | .done response => response.Phaseless
  | _ => False

theorem getResponse_phaseless (session : Option Session) :
    (answerOf (getResponse session)).Phaseless := by
  cases session with
  | none => exact errorResponse_phaseless _ _
  | some session =>
    cases hname : session .aliceName with
    | none =>
      simpa [getResponse, field, hname, bind, Except.bind] using answerOf_error_phaseless .keyError
    | some name =>
      cases hquestion : session .memoryQuestion with
      | none =>
        simpa [getResponse, field, hname, hquestion, bind, Except.bind] using
          answerOf_error_phaseless .keyError
      | some question =>
        cases hphase : session .phase with
        | none =>
          simpa [getResponse, field, hname, hquestion, hphase, bind, Except.bind] using
            answerOf_error_phaseless .keyError
        | some phase =>
          left
          simp [getResponse, field, hname, hquestion, hphase, bind, Except.bind, pure, Except.pure,
            answerOf, Json.standard, Json.standardMembers]

/-- The handlers of all GETs. -/
def State.GetsPhaseless (σ : State) : Prop :=
  ∀ r sid handler, σ.reqs r = some ⟨.get sid, handler⟩ → handler.OfGet

theorem ofGet_handlerStep {handler handler' : Handler} (hold : handler.OfGet)
    (h : HandlerStep env r σ.store l handler handler') : handler'.OfGet := by
  cases h with
  | embedded result _ _ hembed => cases hembed <;> exact hold.elim
  | named form v sid' => exact hold.elim
  | notNamed form v sid' => exact hold.elim
  | executed _ effect _ hcmd =>
    cases hcmd with
    | get sid' => exact getResponse_phaseless _
    | _ => exact hold.elim
  | failed fault _ effect _ _ hcmd => exact answerOf_error_phaseless .redisError
  | answered result => exact hold

theorem getsPhaseless_of_step (hall : σ.GetsPhaseless) (h : step env l σ = some σ') :
    σ'.GetsPhaseless := by
  intro r sid handler hreq'
  cases hold : σ.reqs r with
  | none =>
    rcases arrival_of_step h hold hreq' with ⟨limited, _, hhandler⟩
    replace hhandler : handler = if limited then .replying (.ok rateLimited) else .reading sid :=
      hhandler
    rw [hhandler]
    cases limited
    · trivial
    · exact errorResponse_phaseless _ _
  | some req =>
    rcases handlerStep_of_step h hold with ⟨handler', hnew, hcases⟩
    rcases Req.mk.inj (Option.some.inj (hnew.symm.trans hreq')) with ⟨hq, rfl⟩
    have hget := hall r sid req.handler (by rw [hold, ← hq])
    rcases hcases with rfl | hstep
    · exact hget
    · exact ofGet_handlerStep hget hstep

theorem State.GetsPhaseless.answer (hall : σ.GetsPhaseless) (hq : σ.request? r = some (.get sid))
    {response : Response} (hans : σ.answer? r = some response) : response.Phaseless := by
  rcases (State.request?_eq_some _).mp hq with ⟨handler, hreq⟩
  rcases (State.answer?_eq_some _).mp hans with ⟨q', hreq'⟩
  rcases Req.mk.inj (Option.some.inj (hreq.symm.trans hreq')) with ⟨rfl, rfl⟩
  exact hall r sid _ hreq

end Doppelganger
