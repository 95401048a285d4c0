import Doppelganger.Scored

/-!
# Create is all or nothing, when the response can be built

`create_session` stores the session in one transaction and builds its response afterwards: the QR
code, the first 40 elements of the vector rounded, their number. What can raise there raises with
the session already stored, and so does a transaction whose time to live is refused.
`create_all_or_nothing_iff` is the exact condition, for any run around the request.
-/

open Text Redis

namespace Doppelganger

/-- `round` accepts the value. -/
def isRoundable : Json → Bool
  | .int _ => true
  | .float _ => true
  | .bool _ => true
  | _ => false

/-- What the response is built from: a link that fits into a QR code, and a list whose first 40
elements are numbers. -/
def Presentable (env : Env) (sid : Str) (v : Json) : Prop :=
  (env.generateQr (linkOf env sid)).isSome = true ∧
    ∃ xs, v = .arr xs ∧ ∀ x ∈ xs.take 40, isRoundable x = true

section
variable {env : Env}

theorem round6_isOk_iff (env : Env) (v : Json) : (∃ x, round6 env v = .ok x) ↔ isRoundable v = true := by
  cases v <;> simp [round6, isRoundable]

theorem mapM_round6_isOk_iff (env : Env) (vs : List Json) :
    (∃ xs, vs.mapM (round6 env) = .ok xs) ↔ ∀ v ∈ vs, isRoundable v = true := by
  induction vs with
  | nil => simp [pure, Except.pure]
  | cons v vs ih =>
    rw [List.forall_mem_cons, ← ih, ← round6_isOk_iff env, List.mapM_cons]
    cases round6 env v with
    | error e => simp [bind, Except.bind]
    | ok x => cases vs.mapM (round6 env) <;> simp [bind, Except.bind, pure, Except.pure]

/-- The response to a create request can be built, or raises. -/
theorem createResponse_isOk_iff (sid : Str) {v : Json} (hv : v.truthy = true) :
    (∃ response, createResponse env sid v = .ok response) ↔ Presentable env sid v := by
  unfold createResponse Presentable
  cases hqr : env.generateQr (linkOf env sid) with
  | none => simp [bind, Except.bind]
  | some qr =>
    cases v with
    | arr xs =>
      have hpreview := mapM_round6_isOk_iff env (xs.take 40)
      cases hm : (xs.take 40).mapM (round6 env) with
      | error e =>
        have hno : ¬ ∀ x ∈ xs.take 40, isRoundable x = true := by
          rw [← hpreview, hm]
          simp
        simpa [vectorPreview, hm, bind, Except.bind] using hno
      | ok ys =>
        have hall := hpreview.mp ⟨ys, hm⟩
        simpa [vectorPreview, hm, lengthOf, bind, Except.bind, pure, Except.pure] using hall
    | str s =>
      have hs : s.isEmpty = false := by simpa [Json.truthy] using hv
      simp [vectorPreview, hs, bind, Except.bind]
    | _ => simp [vectorPreview, bind, Except.bind]

/-- A response that could be built is a 201; what is raised instead is not. -/
theorem status_createResponse (sid : Str) (v : Json) :
    (answerOf (createResponse env sid v)).status = 201 ↔
      ∃ response, createResponse env sid v = .ok response := by
  rcases createResponse_cases env sid v with ⟨e, herror, _⟩ | ⟨_, _, _, _, hanswer⟩
  · rw [herror]
    cases e <;> simp [answerOf, handleError, storeUnavailable, serverError, errorResponse]
  · simp [hanswer, answerOf]

end

/-! ## Created sessions -/

section Created

variable {env : Env} {l : Label} {σ σ' : State}

/-- A request that has arrived. -/
theorem request?_of_arrival {r : ℕ} {q : Request} {limited : Bool}
    (h : step env (.request r q limited) σ = some σ') : σ'.request? r = some q := by
  rcases step_request h with ⟨_, rfl⟩
  simp [State.request?]

/-- An answered create request was refused, or created the session whose id it was answered. -/
def Created (σ : State) : Prop :=
  ∀ r body handler response, σ.reqs r = some ⟨.create body, handler⟩ →
    handler.response? = some response →
    response.isError ∨ ∃ c ∈ σ.creations, c.req = r ∧
      response.body.get? (lit "session_id") = some (.str c.sid)

theorem session_id_of_createResponse (env : Env) (sid : Str) (v : Json) :
    (answerOf (createResponse env sid v)).isError ∨
      (answerOf (createResponse env sid v)).body.get? (lit "session_id") = some (.str sid) := by
  rcases createResponse_cases env sid v with ⟨e, herror, _⟩ | ⟨_, _, _, _, hanswer⟩
  · exact Or.inl (herror ▸ handleError_isError e)
  · exact Or.inr (by rw [hanswer]; rfl)

/-- A create request waits for no other command than its transaction. -/
theorem Inv.creating_of_command (hi : Inv env σ) {r : ℕ} {body : Json} {old handler : Handler}
    {effect : Effect} (hreq : σ.reqs r = some ⟨.create body, old⟩)
    (hcmd : old.redis env r σ.store = some (effect, handler)) :
    ∃ form v sid createdAt, old = .creating form v sid createdAt := by
  have hok := hi.handlers _ _ hreq
  cases command_of_redis hcmd with
  | create form v sid createdAt => exact ⟨form, v, sid, createdAt, rfl⟩
  | get sid => cases hok
  | load sid form =>
    rcases hok with ⟨_, hq, _⟩
    cases hq
  | gone sid form session bob score hdb =>
    rcases hok with ⟨⟨_, hq, _⟩, _⟩
    cases hq
  | completed sid form session bob score e hdb hphase =>
    rcases hok with ⟨⟨_, hq, _⟩, _⟩
    cases hq
  | won sid form session bob score e hdb hphase =>
    rcases hok with ⟨⟨_, hq, _⟩, _⟩
    cases hq
  | delete sid => cases hok

/-- What a create request is answered was answered before, is a refusal, or is built for the session
it has created. -/
theorem createResponse_of_step (hi : Inv env σ) (h : step env l σ = some σ') {r : ℕ} {body : Json}
    {handler : Handler} {response : Response} (hreq : σ'.reqs r = some ⟨.create body, handler⟩)
    (hresp : handler.response? = some response) :
    (∃ handler₀, σ.reqs r = some ⟨.create body, handler₀⟩ ∧ handler₀.response? = some response) ∨
      response.isError ∨
      ∃ c ∈ σ'.creations, c.req = r ∧ ∃ v, response = answerOf (createResponse env c.sid v) := by
  by_cases hr : l.req? = some r
  swap
  · rw [reqs_of_step_ne h hr] at hreq
    exact Or.inl ⟨handler, hreq, hresp⟩
  cases l with
  | request r' q limited =>
    rcases step_request h with ⟨_, rfl⟩
    obtain rfl := Option.some.inj hr
    rw [State.setReq_reqs_self] at hreq
    rcases Req.mk.inj (Option.some.inj hreq) with ⟨rfl, rfl⟩
    refine Or.inr (Or.inl ?_)
    by_cases hl : limited = true
    · simp only [hl, if_true] at hresp
      obtain rfl := Option.some.inj hresp
      decide
    · simp only [hl] at hresp
      rcases start_create body with ⟨result, hstart, hrefused, _⟩ | ⟨form, _, hstart⟩
      · simp only [hstart] at hresp
        obtain rfl := Option.some.inj hresp
        exact hrefused
      · simp [hstart, Handler.response?] at hresp
  | embed r' result =>
    rcases step_embed h with ⟨⟨q, old⟩, handler', hreq', hstep, rfl⟩
    obtain rfl := Option.some.inj hr
    rw [State.setReq_reqs_self] at hreq
    rcases Req.mk.inj (Option.some.inj hreq) with ⟨rfl, rfl⟩
    refine Or.inr (Or.inl ?_)
    cases embedded_of_embed hstep with
    | createFailed form =>
      obtain rfl := Option.some.inj hresp
      decide
    | verifyFailed sid form session =>
      obtain rfl := Option.some.inj hresp
      decide
    | notScored sid form session v e hs =>
      obtain rfl := Option.some.inj hresp
      exact handleError_isError e
    | notEncoded sid form session v score hs hw =>
      obtain rfl := Option.some.inj hresp
      exact handleError_isError _
    | _ => cases hresp
  | name r' sid =>
    rcases step_name h with ⟨⟨q, old⟩, handler', hreq', hstep, _, rfl⟩
    obtain rfl := Option.some.inj hr
    have hself : (σ.setReq r' ⟨q, handler'⟩).reqs r' = some ⟨.create body, handler⟩ := hreq
    rw [State.setReq_reqs_self] at hself
    rcases Req.mk.inj (Option.some.inj hself) with ⟨rfl, rfl⟩
    rcases name_cases hstep with ⟨form, v, rfl, rfl | ⟨_, rfl⟩⟩
    · cases hresp
    · obtain rfl := Option.some.inj hresp
      exact Or.inr (Or.inl (handleError_isError _))
  | redis r' fault =>
    rcases step_redis h with ⟨⟨q, old⟩, effect, handler', hreq', hcmd, hcases⟩
    obtain rfl := Option.some.inj hr
    have hunavailable : storeUnavailable.isError := by decide
    rcases hcases with ⟨rfl, rfl⟩ | ⟨rfl, rfl⟩ | ⟨rfl, rfl⟩ <;>
      rw [State.setReq_reqs_self] at hreq <;>
      rcases Req.mk.inj (Option.some.inj hreq) with ⟨rfl, rfl⟩
    · rcases hi.creating_of_command hreq' hcmd with ⟨form, v, sid, createdAt, rfl⟩
      rcases Prod.mk.inj (Option.some.inj hcmd) with ⟨rfl, rfl⟩
      obtain rfl := Option.some.inj hresp
      right
      rw [createStored_eq]
      split_ifs
      · -- the transaction, which is also where the creation is recorded
        exact Or.inr ⟨⟨r', sid, form, v, createdAt, σ.store.now⟩, by simp, rfl, v, rfl⟩
      · exact Or.inl hunavailable
    · obtain rfl := Option.some.inj hresp
      exact Or.inr (Or.inl hunavailable)
    · obtain rfl := Option.some.inj hresp
      exact Or.inr (Or.inl hunavailable)
  | answer r' =>
    rcases step_answer h with ⟨⟨q, old⟩, result, hreq', hrep, rfl⟩
    obtain rfl := Option.some.inj hr
    rw [State.setReq_reqs_self] at hreq
    rcases Req.mk.inj (Option.some.inj hreq) with ⟨rfl, rfl⟩
    obtain rfl : old = .replying result := hrep
    exact Or.inl ⟨_, hreq', hresp⟩
  | _ => cases hr

theorem Created.of_step (hi : Inv env σ) (hc : Created σ) (h : step env l σ = some σ') :
    Created σ' := by
  intro r body handler response hreq hresp
  rcases createResponse_of_step hi h hreq hresp with ⟨handler₀, hreq₀, hresp₀⟩ | herr |
    ⟨c, hmem, hr, v, rfl⟩
  · rcases hc r body handler₀ response hreq₀ hresp₀ with herr | ⟨c, hmem, hr, hid⟩
    · exact Or.inl herr
    · exact Or.inr ⟨c, (histories_of_step h).1.subset hmem, hr, hid⟩
  · exact Or.inl herr
  · rcases session_id_of_createResponse env c.sid v with herr | hid
    · exact Or.inl herr
    · exact Or.inr ⟨c, hmem, hr, hid⟩

theorem Created.of_run {ok : Lts.Guard State Label} {ls : List Label}
    (h : (server env).Run ok (server env).init ls σ) : Created σ := by
  have hboth : Inv env σ ∧ Created σ := by
    refine h.invariant (P := fun σ => Inv env σ ∧ Created σ) ⟨Inv.init, ?_⟩ ?_
    · intro r body handler response hreq
      cases hreq
    · exact fun l s t _ hs hi => ⟨hi.1.of_step hs, Created.of_step hi.1 hi.2 hs⟩
  exact hboth.2

end Created

/-! ## The value in hand is truthy -/

/-- The embedding a create request goes on with. -/
def Handler.embedding? : Handler → Option Json
  | .naming _ v => some v
  | .creating _ v _ _ => some v
  | _ => none

section
variable {env : Env} {l : Label} {σ σ' : State} {r : ℕ}

theorem embedding_start (q : Request) : (Handler.start q).embedding? = none := by
  cases q with
  | create body => rcases start_create body with ⟨_, hs, _⟩ | ⟨_, _, hs⟩ <;> rw [hs] <;> rfl
  | verify sid body => rcases start_verify sid body with ⟨_, hs, _⟩ | ⟨_, _, hs⟩ <;> rw [hs] <;> rfl
  | get sid => rfl
  | delete sid => rfl

theorem embedding_verifyLoaded (sid : Str) (form : VerifyForm) (session : Option Session) :
    (Handler.verifyLoaded sid form session).embedding? = none := by
  rcases verifyLoaded_cases sid form session with
    ⟨_, hl⟩ | ⟨_, _, _, hl⟩ | ⟨_, _, _, _, _, hl⟩ | ⟨_, _, _, hl⟩ <;> rw [hl] <;> rfl

theorem embedding_handlerStep {hd hd' : Handler} {v : Json}
    (h : HandlerStep env r σ.store l hd hd') (hv : hd'.embedding? = some v) :
    hd.embedding? = some v ∨ l = .embed r (some v) := by
  cases h with
  | embedded result _ _ hembed =>
    cases hembed with
    | created form v' =>
      obtain rfl := Option.some.inj hv
      exact Or.inr rfl
    | _ => cases hv
  | named form v' sid => exact Or.inl hv
  | executed _ effect _ hcmd =>
    cases hcmd with
    | load sid form =>
      rw [embedding_verifyLoaded] at hv
      cases hv
    | _ => cases hv
  | _ => cases hv

/-- No step but an embedding call brings a value into a handler. -/
theorem embedding_of_step (h : step env l σ = some σ') {req : Req} {v : Json}
    (hreq : σ'.reqs r = some req) (hv : req.handler.embedding? = some v) :
    (∃ req₀, σ.reqs r = some req₀ ∧ req₀.handler.embedding? = some v) ∨ l = .embed r (some v) := by
  cases hold : σ.reqs r with
  | none =>
    rcases arrival_of_step h hold hreq with ⟨limited, _, hhandler⟩
    rw [hhandler] at hv
    cases limited with
    | true => cases hv
    | false =>
      rw [if_neg (by decide), embedding_start] at hv
      cases hv
  | some req₀ =>
    rcases handlerStep_of_step h hold with ⟨handler, hnew, hcases⟩
    obtain rfl := Option.some.inj (hnew.symm.trans hreq)
    rcases hcases with rfl | hstep
    · exact Or.inl ⟨req₀, rfl, hv⟩
    · rcases embedding_handlerStep hstep hv with hv₀ | hl
      · exact Or.inl ⟨req₀, rfl, hv₀⟩
      · exact Or.inr hl

theorem truthy_of_reach (h : (server env).Reach served σ) {req : Req} {v : Json}
    (hreq : σ.reqs r = some req) (hv : req.handler.embedding? = some v) : v.truthy = true := by
  have hall : ∀ r req v, σ.reqs r = some req → req.handler.embedding? = some v →
      v.truthy = true := by
    refine h.invariant (P := fun σ => ∀ r req v, σ.reqs r = some req →
      req.handler.embedding? = some v → v.truthy = true) ?_ ?_
    · intro r req v hreq
      cases hreq
    · intro l σ σ' hserved hstep hi r req v hreq hv
      rcases embedding_of_step hstep hreq hv with ⟨req₀, hreq₀, hv₀⟩ | hl
      · exact hi r req₀ v hreq₀ hv₀
      · rcases hserved r (some v) hl with ⟨slot, reply, hembed⟩
        exact EmbeddingClient.embed_truthy hembed.symm
  exact hall r req v hreq hv

/-! ## The transaction -/

/-- What a create request makes of its transaction at time `now`. -/
def createdResult (env : Env) (now : ℕ) (sid : Str) (v : Json) : Result :=
  if Expirable now env.sessionTtlSeconds then createResponse env sid v else .error .redisError

/-- A create request has its transaction executed in this step, and goes on to its response. -/
structure Creates (env : Env) (r : ℕ) (l : Label) (σ σ' : State) (form : CreateForm) (v : Json)
    (sid createdAt : Str) : Prop where
  label : l = .redis r .none
  before : ∃ q, σ.reqs r = some ⟨q, .creating form v sid createdAt⟩
  after : ∃ q, σ'.reqs r = some ⟨q, .replying (createdResult env σ.store.now sid v)⟩
  store : σ'.store = (SessionStore.create σ.store sid form v createdAt env.sessionTtlSeconds).1
  created : σ'.creations = σ.creations ++ [⟨r, sid, form, v, createdAt, σ.store.now⟩]

theorem creates_of_step {q : Request} {form : CreateForm} {v : Json} {sid createdAt : Str}
    (hreq : σ.reqs r = some ⟨q, .creating form v sid createdAt⟩)
    (h : step env (.redis r .none) σ = some σ') :
    Creates env r (.redis r .none) σ σ' form v sid createdAt := by
  rw [(redis_step hreq rfl).1] at h
  obtain rfl := Option.some.inj h
  refine ⟨rfl, ⟨_, hreq⟩, ⟨q, ?_⟩, by simp, by simp⟩
  rw [State.setReq_reqs_self, createStored_eq]
  rfl

/-- Only a transaction adds to the creations. -/
theorem create_of_step (hup : redisUp l σ) (h : step env l σ = some σ') :
    σ'.creations = σ.creations ∨
      ∃ r form v sid createdAt, Creates env r l σ σ' form v sid createdAt := by
  cases l with
  | request _ _ _ | embed _ _ | name _ _ | answer _ =>
    exact Or.inl (sameData_of_step rfl h).creations
  | tick d =>
    obtain rfl := step_tick h
    exact Or.inl rfl
  | redis r' fault =>
    obtain rfl : fault = .none := hup
    rcases step_redis h with ⟨⟨q, old⟩, effect, handler, hold, hcmd, hcases⟩
    cases command_of_redis hcmd with
    | create form v sid createdAt =>
      exact Or.inr ⟨r', form, v, sid, createdAt, creates_of_step hold h⟩
    | _ =>
      left
      rcases hcases with ⟨_, rfl⟩ | ⟨_, rfl⟩ | ⟨_, rfl⟩ <;> simp
  | _ => exact Or.inl (sameCore_of_step rfl h).creations

/-- A step of a create request leaves the store alone, or is its transaction. -/
theorem quiet_or_creates (hi : Inv env σ) (hup : redisUp l σ) (h : step env l σ = some σ')
    (hl : l.req? = some r) {body : Json} (hreq : σ'.request? r = some (.create body)) :
    σ'.store = σ.store ∨ ∃ form v sid createdAt, Creates env r l σ σ' form v sid createdAt := by
  rcases State.request?_eq_some _ |>.mp hreq with ⟨_, hreq⟩
  cases l with
  | request _ _ _ | embed _ _ | name _ _ | answer _ => exact Or.inl (sameData_of_step rfl h).store
  | redis r' fault =>
    obtain rfl : r' = r := by simpa [Label.req?] using hl
    obtain rfl : fault = .none := hup
    rcases step_redis h with ⟨⟨q, old⟩, effect, handler, hold, hcmd, _⟩
    rcases request_of_step h hold with ⟨handler', hreq'⟩
    rcases Req.mk.inj (Option.some.inj (hreq'.symm.trans hreq)) with ⟨rfl, _⟩
    rcases hi.creating_of_command hold hcmd with ⟨form, v, sid, createdAt, rfl⟩
    exact Or.inr ⟨form, v, sid, createdAt, creates_of_step hold h⟩
  | _ => cases hl

/-- The response is settled by the transaction. -/
theorem Creates.answer {form : CreateForm} {v : Json} {sid createdAt : Str}
    (hc : Creates env r l σ σ' form v sid createdAt) {ok : Lts.Guard State Label} {ls : List Label}
    {τ : State} (hrun : (server env).Run ok σ' ls τ) {response : Response}
    (hans : τ.answer? r = some response) :
    response = answerOf (createdResult env σ.store.now sid v) := by
  rcases hc.after with ⟨q, hafter⟩
  have hresp : ∃ handler, τ.reqs r = some ⟨q, handler⟩ ∧
      handler.response? = some (answerOf (createdResult env σ.store.now sid v)) := by
    refine hrun.preserves (P := fun τ => ∃ handler, τ.reqs r = some ⟨q, handler⟩ ∧
      handler.response? = some (answerOf (createdResult env σ.store.now sid v))) ?_ ⟨_, hafter, rfl⟩
    rintro l s t _ hs ⟨handler, hreq, hresp⟩
    exact response_of_step hs hreq hresp
  rcases hresp with ⟨handler, hreq, hresp⟩
  rcases (State.answer?_eq_some _).mp hans with ⟨q', hdone⟩
  rcases Req.mk.inj (Option.some.inj (hreq.symm.trans hdone)) with ⟨_, rfl⟩
  exact Option.some.inj hresp

/-- A request that has executed its transaction does not come back to it. -/
theorem Creates.not_again {form form' : CreateForm} {v v' : Json} {sid sid' createdAt createdAt' : Str}
    {l' : Label} {τ τ' : State} (hc : Creates env r l σ σ' form v sid createdAt)
    (hc' : Creates env r l' τ τ' form' v' sid' createdAt') {ls : List Label} :
    ¬ (server env).Run Lts.anyStep σ' ls τ := by
  intro hrun
  rcases hc.after with ⟨q, hafter⟩
  rcases hc'.before with ⟨q', hbefore⟩
  have hresp : ∃ handler, τ.reqs r = some ⟨q, handler⟩ ∧ handler.response? ≠ none := by
    refine hrun.preserves (P := fun τ => ∃ handler, τ.reqs r = some ⟨q, handler⟩ ∧
      handler.response? ≠ none) ?_ ⟨_, hafter, by simp [Handler.response?]⟩
    rintro l s t _ hs ⟨handler, hreq, hresp⟩
    rcases Option.ne_none_iff_exists'.mp hresp with ⟨response, hsome⟩
    rcases response_of_step hs hreq hsome with ⟨handler', hreq', hresp'⟩
    exact ⟨handler', hreq', by simp [hresp']⟩
  rcases hresp with ⟨handler, hreq, hresp⟩
  rcases Req.mk.inj (Option.some.inj (hreq.symm.trans hbefore)) with ⟨_, rfl⟩
  exact hresp rfl

/-- What the transaction does to the store: one new hash, or nothing where no time is left. -/
theorem Creates.store_eq (hi : Inv env σ) {form : CreateForm} {v : Json} {sid createdAt : Str}
    (hc : Creates env r l σ σ' form v sid createdAt) :
    σ.store.db (key sid) = none ∧
    (((Expirable σ.store.now env.sessionTtlSeconds → 0 < env.sessionTtlSeconds) ∧
        ∃ e, σ'.store = σ.store.put (key sid) (some e)) ∨
      (¬ (Expirable σ.store.now env.sessionTtlSeconds → 0 < env.sessionTtlSeconds) ∧
        σ'.store = σ.store)) := by
  rcases hc.before with ⟨q, hbefore⟩
  have habsent := hi.absent_of_creating hbefore
  refine ⟨habsent, ?_⟩
  rw [hc.store, SessionStore.create_of_absent habsent]
  unfold SessionStore.createdEntry
  by_cases hdead : Expirable σ.store.now env.sessionTtlSeconds ∧ env.sessionTtlSeconds ≤ 0
  · refine Or.inr ⟨fun hpos => absurd (hpos hdead.1) (not_lt.mpr hdead.2), ?_⟩
    rw [if_pos hdead, Server.put, ← habsent, Function.update_eq_self]
  · rw [if_neg hdead]
    exact Or.inl ⟨fun hexp => not_le.mp fun hle => hdead ⟨hexp, hle⟩, _, rfl⟩

end

/-! ## All or nothing -/

/-- Whatever else happened in the run `ls`: if request `r` was not answered 201, none of its steps
changed the store; if it was, one of them added a hash under the session id of the answer and no
other changed anything. -/
structure AllOrNothing (env : Env) (ls : List Label) (r : ℕ) (response : Response) : Prop where
  nothing : response.status ≠ 201 → ∀ before l s t, (server env).Took ls before l s t →
    l.req? = some r → t.store = s.store
  all : response.status = 201 → ∃ before l s t sid e, (server env).Took ls before l s t ∧
    l.req? = some r ∧ response.body.get? (lit "session_id") = some (.str sid) ∧
    s.store.db (key sid) = none ∧ t.store = s.store.put (key sid) (some e) ∧
    ∀ before' l' s' t', (server env).Took ls before' l' s' t' → l'.req? = some r →
      before' ≠ before → t'.store = s'.store

section
variable {env : Env} {σ : State} {ls before before' : List Label} {r : ℕ} {body : Json}
  {response : Response} {l l' : Label} {s s' t t' : State} {form form' : CreateForm} {v v' : Json}
  {sid sid' createdAt createdAt' : Str}

/-- A step of a create request is quiet or its transaction. -/
theorem quiet_or_creates_of_took (hrun : (server env).Run redisUp (server env).init ls σ)
    (hreq : σ.request? r = some (.create body)) (took : (server env).Took ls before l s t)
    (hl : l.req? = some r) :
    t.store = s.store ∨ ∃ form v sid createdAt, Creates env r l s t form v sid createdAt := by
  rcases request?_of_own_step took.step hl with ⟨q, hq⟩
  rcases took.rest hrun with ⟨ls', hrest⟩
  have hq' : t.request? r = some (.create body) := by
    rw [hq, ← hreq, (later_of_run hrest).request r q hq]
  exact quiet_or_creates (Inv.of_run took.run) (took.guard hrun) took.step hl hq'

/-- There is one transaction at most. -/
theorem creates_once (h : (server env).Took ls before l s t)
    (h' : (server env).Took ls before' l' s' t') (hc : Creates env r l s t form v sid createdAt)
    (hc' : Creates env r l' s' t' form' v' sid' createdAt') : before = before' ∧ s = s' ∧ t = t' := by
  rcases h.same_or_before h' with ⟨hb, _, hs, ht⟩ | ⟨_, hbetween⟩ | ⟨_, hbetween⟩
  · exact ⟨hb, hs, ht⟩
  · exact absurd hbetween (hc.not_again hc')
  · exact absurd hbetween (hc'.not_again hc)

/-- The answer is a 201 when the time to live is accepted and the response can be built. -/
theorem status_of_creates (hrun : (server env).Run served (server env).init ls σ)
    (hans : σ.answer? r = some response) (took : (server env).Took ls before l s t)
    (hc : Creates env r l s t form v sid createdAt) :
    response.status = 201 ↔
      Expirable s.store.now env.sessionTtlSeconds ∧ Presentable env sid v := by
  rcases hc.before with ⟨q, hbefore⟩
  rcases took.rest hrun with ⟨ls', hrest⟩
  have htruthy := truthy_of_reach ⟨_, took.run_before hrun⟩ hbefore rfl
  rw [hc.answer hrest hans]
  unfold createdResult
  split_ifs with hexp
  · rw [status_createResponse, createResponse_isOk_iff sid htruthy]
    simp [hexp]
  · have hunavailable : (answerOf (.error .redisError)).status ≠ 201 := by decide
    exact iff_of_false hunavailable fun h => hexp h.1

/-- A request that is answered 201 has executed its transaction. -/
theorem creates_of_status (hrun : (server env).Run redisUp (server env).init ls σ)
    (hreq : σ.request? r = some (.create body)) (hans : σ.answer? r = some response)
    (h201 : response.status = 201) :
    ∃ before l s t form v sid createdAt, (server env).Took ls before l s t ∧
      Creates env r l s t form v sid createdAt ∧
      response.body.get? (lit "session_id") = some (.str sid) := by
  rcases (State.answer?_eq_some _).mp hans with ⟨q, hdone⟩
  obtain rfl : q = .create body := by simpa [State.request?, hdone] using hreq
  have herr : ¬ response.isError := by simp [Response.isError, h201]
  rcases (Created.of_run hrun r body _ _ hdone rfl).resolve_left herr with ⟨c, hmem, hcr, hid⟩
  -- the transaction is the step that brought the creation in
  obtain ⟨before, l, s, t, took, hno, hyes⟩ := hrun.exists_took (P := fun τ => c ∈ τ.creations)
    (by simp [server, State.init]) hmem
  obtain hsame | ⟨r', form, v, sid, createdAt, hc⟩ := create_of_step (took.guard hrun) took.step
  · exact absurd (hsame ▸ hyes) hno
  · obtain rfl : c = ⟨r', sid, form, v, createdAt, s.store.now⟩ := by
      rw [hc.created] at hyes
      simpa [hno] using hyes
    obtain rfl : r' = r := hcr
    exact ⟨before, l, s, t, form, v, sid, createdAt, took, hc, hid⟩

/-- The transaction changes the store unless the session is given no time to live. -/
theorem Creates.store_ne_iff (hi : Inv env s) (hc : Creates env r l s t form v sid createdAt) :
    t.store ≠ s.store ↔
      (Expirable s.store.now env.sessionTtlSeconds → 0 < env.sessionTtlSeconds) := by
  rcases hc.store_eq hi with ⟨habsent, ⟨httl, e, hput⟩ | ⟨httl, hsame⟩⟩
  · refine iff_of_true ?_ httl
    rw [hput]
    exact Redis.Server.put_ne habsent e
  · exact iff_of_false (not_not.mpr hsame) httl

end

/-- In every run on replies of the embedding service in which Redis does not fail, a create request
is all or nothing exactly when its transaction is never executed, or is executed with a time to live
that is accepted and a value that the response can be built from. (A time to live that is not
positive turns the latter around.) -/
theorem create_all_or_nothing_iff {env : Env} {σ : State} {ls : List Label} {r : ℕ} {body : Json}
    {response : Response}
    (hrun : (server env).Run (fun l σ => served l σ ∧ redisUp l σ) (server env).init ls σ)
    (hreq : σ.request? r = some (.create body)) (hans : σ.answer? r = some response) :
    AllOrNothing env ls r response ↔
      ∀ before s t q form v sid createdAt, (server env).Took ls before (.redis r .none) s t →
        s.reqs r = some ⟨q, .creating form v sid createdAt⟩ →
        Expirable s.store.now env.sessionTtlSeconds ∧
          (Presentable env sid v ↔ 0 < env.sessionTtlSeconds) := by
  have hserved := hrun.mono fun l s h => h.1
  have hup := hrun.mono fun l s h => h.2
  constructor
  · intro hP before s t q form v sid createdAt took hbefore
    have hc := creates_of_step hbefore took.step
    have hiff : response.status = 201 ↔ t.store ≠ s.store := by
      constructor
      · intro h201
        rcases hP.all h201 with ⟨_, _, s', t', sid', e, took', hl', _, habsent', hput, _⟩
        -- the step that added the hash can only be the transaction
        have hchanged : t'.store ≠ s'.store := hput ▸ Redis.Server.put_ne habsent' e
        obtain hquiet | ⟨_, _, _, _, hc'⟩ := quiet_or_creates_of_took hup hreq took' hl'
        · exact absurd hquiet hchanged
        · rcases creates_once took took' hc hc' with ⟨_, rfl, rfl⟩
          exact hchanged
      · intro hchanged
        by_contra h201
        exact hchanged (hP.nothing h201 _ _ _ _ took rfl)
    rw [status_of_creates hserved hans took hc, hc.store_ne_iff (Inv.of_run took.run)] at hiff
    -- a refused time to live leaves the hash without an answer
    have hexp : Expirable s.store.now env.sessionTtlSeconds := by
      by_contra hrefused
      exact hrefused (hiff.mpr fun h => absurd h hrefused).1
    simpa [hexp] using hiff
  · intro hcond
    have hcond' : ∀ {before l s t form v sid createdAt}, (server env).Took ls before l s t →
        Creates env r l s t form v sid createdAt → (response.status = 201 ↔ t.store ≠ s.store) := by
      intro before l s t form v sid createdAt took hc
      rcases hc.before with ⟨q, hbefore⟩
      obtain rfl := hc.label
      rcases hcond _ _ _ _ _ _ _ _ took hbefore with ⟨hexp, hiff⟩
      rw [status_of_creates hserved hans took hc, hc.store_ne_iff (Inv.of_run took.run)]
      simpa [hexp] using hiff
    constructor
    · intro h201 before l s t took hl
      obtain hquiet | ⟨form, v, sid, createdAt, hc⟩ := quiet_or_creates_of_took hup hreq took hl
      · exact hquiet
      · by_contra hchanged
        exact h201 ((hcond' took hc).mpr hchanged)
    · intro h201
      obtain ⟨before, l, s, t, form, v, sid, createdAt, took, hc, hid⟩ :=
        creates_of_status hup hreq hans h201
      rcases hc.store_eq (Inv.of_run took.run) with ⟨habsent, hstore⟩
      have hchanged := (hcond' took hc).mp h201
      rcases hstore.resolve_right fun h => hchanged h.2 with ⟨_, e, hput⟩
      have hl : l.req? = some r := by rw [hc.label]; rfl
      refine ⟨before, l, s, t, sid, e, took, hl, hid, habsent, hput, ?_⟩
      intro before' l' s' t' took' hl' hne
      obtain hquiet | ⟨_, _, _, _, hc'⟩ := quiet_or_creates_of_took hup hreq took' hl'
      · exact hquiet
      · exact absurd (creates_once took' took hc' hc).1 hne

namespace Sample

/-- Request 0 is sent a vector that is a list of a word, with `config` as it is. -/
def wordVector : Json := .arr [.str (lit "word")]

def createWith (v : Json) : List Label :=
  [.request 0 (.create (createBody (jwk (lit "alice")))) false, .embed 0 (some v), .name 0 sid,
    .redis 0 .none, .answer 0]

theorem create_served {v : Json} (hv : v.truthy = true)
    (hrun : ((server config).exec (createWith v) (server config).init).isSome = true) :
    (server config).Run (fun l σ => served l σ ∧ redisUp l σ) (server config).init (createWith v)
      ((server config).after (createWith v)) := by
  have hlabels : ∀ l ∈ createWith v, (∀ r result, l = .embed r result → result = some v) ∧
      ∀ r fault, l = .redis r fault → fault = .none := by
    simp [createWith]
  refine ((Lts.run_after _ _ hrun).of_labels hlabels).mono ?_
  rintro l s ⟨_, hembed, hredis⟩
  constructor
  · rintro r result rfl
    refine ⟨true, EmbeddingClient.sends v, ?_⟩
    rw [EmbeddingClient.embed_sends hv, hembed r result rfl]
  · cases l with
    | redis r fault => exact hredis r fault rfl
    | _ => trivial

end Sample

/-- It applies to a create request that is answered 201. -/
theorem create_all_or_nothing_sample :
    ∃ response, ((server Sample.config).after (Sample.createWith Sample.vector)).answer? 0 =
        some response ∧ response.status = 201 ∧
      AllOrNothing Sample.config (Sample.createWith Sample.vector) 0 response := by
  have hrun := Sample.create_served (v := Sample.vector) rfl (by decide +kernel)
  have hreq : ((server Sample.config).after (Sample.createWith Sample.vector)).request? 0 =
      some (.create (Sample.createBody (Sample.jwk (lit "alice")))) := by decide +kernel
  have hstatus : (((server Sample.config).after (Sample.createWith Sample.vector)).answer? 0).map
      Response.status = some 201 := by decide +kernel
  rcases Option.map_eq_some_iff.mp hstatus with ⟨response, hans, h201⟩
  refine ⟨response, hans, h201, (create_all_or_nothing_iff hrun hreq hans).mpr ?_⟩
  intro before s t q form v sid createdAt took hbefore
  -- the only Redis command is the fourth label
  have hlength : before.length = 3 := by
    have hget := took.getElem?
    match h : before.length, hget with
    | 3, _ => rfl
    | 0, hget | 1, hget | 2, hget | 4, hget => cases hget
    | n + 5, hget => cases hget
  have hexec := took.reached
  rw [took.before_eq, hlength] at hexec
  have hvalue : ((server Sample.config).exec ((Sample.createWith Sample.vector).take 3)
      (server Sample.config).init).bind (fun s => (s.reqs 0).bind fun req =>
        req.handler.embedding?) = some Sample.vector := by decide +kernel
  rw [hexec] at hvalue
  obtain rfl : v = Sample.vector := by simpa [hbefore, Handler.embedding?] using hvalue
  have hnow : ((server Sample.config).exec ((Sample.createWith Sample.vector).take 3)
      (server Sample.config).init).map (fun s => s.store.now) = some 0 := by decide +kernel
  rw [hexec] at hnow
  have hstart : s.store.now = 0 := Option.some.inj hnow
  refine ⟨?_, iff_of_true ⟨rfl, _, rfl, by decide⟩ (by decide)⟩
  rw [hstart]
  decide

/-- The service sends a list of a word: the request is answered 500, and the session is stored. -/
theorem create_error_leaves_session :
    let σ := (server Sample.config).after (Sample.createWith Sample.wordVector)
    EmbeddingClient.embed true (EmbeddingClient.sends Sample.wordVector) =
        some Sample.wordVector ∧
      σ.answer? 0 = some serverError ∧ (σ.store.db (key Sample.sid)).isSome = true ∧
      ¬ AllOrNothing Sample.config (Sample.createWith Sample.wordVector) 0 serverError := by
  refine ⟨EmbeddingClient.embed_sends rfl, by decide +kernel, by decide +kernel, ?_⟩
  intro hP
  have took : (server Sample.config).Took (Sample.createWith Sample.wordVector)
      ((Sample.createWith Sample.wordVector).take 3) (.redis 0 .none) _ _ :=
    Lts.Took.of_exec _ ⟨[.answer 0], rfl⟩ (by decide +kernel)
  have hsame := congrArg (fun db => (db.db (key Sample.sid)).isSome)
    (hP.nothing (by decide) _ _ _ _ took rfl)
  revert hsame
  decide +kernel

end Doppelganger
