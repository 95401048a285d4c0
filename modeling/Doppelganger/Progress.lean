import Doppelganger.Linearization

/-!
# Requests get on

Requests hold no locks: nothing that others do, or leave undone, keeps a request from its
answer. `realizable` is the converse of linearizability: what a server could do that handled
one request after the other, this server can do, whatever requests are left standing
halfway.
-/

open Text Redis

namespace Doppelganger

variable {env : Env} {l : Label} {σ σ' τ : State} {r : ℕ} {q : Request} {hd hd' : Handler}

/-! ## A bound on a request's steps -/

/-- How many steps of its own a request may still take. -/
def Handler.rank : Handler → ℕ
  | .embedding _ => 4
  | .naming _ _ => 3
  | .creating _ _ _ _ => 2
  | .reading _ => 2
  | .loading _ _ => 4
  | .scoring _ _ _ => 3
  | .finalizing _ _ _ _ _ => 2
  | .deleting _ => 2
  | .replying _ => 1
  | .done _ => 0

/-- The same for request `r`, its arrival included. -/
def State.rank (r : ℕ) (σ : State) : ℕ :=
  match σ.reqs r with
  | none => 5
  | some req => req.handler.rank

theorem rank_of_reqs {req : Req} (h : σ.reqs r = some req) : σ.rank r = req.handler.rank := by
  simp [State.rank, h]

theorem rank_start (q : Request) : (Handler.start q).rank ≤ 4 := by
  cases q with
  | create body =>
    rcases start_create body with ⟨result, hstart, _⟩ | ⟨form, _, hstart⟩ <;>
      simp [hstart, Handler.rank]
  | verify sid body =>
    rcases start_verify sid body with ⟨result, hstart, _⟩ | ⟨form, _, hstart⟩ <;>
      simp [hstart, Handler.rank]
  | get sid => simp [Handler.start, Handler.rank]
  | delete sid => simp [Handler.start, Handler.rank]

theorem rank_embedded {result : Option Json} (h : Embedded env hd result hd') :
    hd'.rank < hd.rank := by
  cases h <;> simp [Handler.rank]

/-- The reply of a command, or its loss, brings a request closer to its answer. -/
theorem rank_command {db : Store} {effect : Effect} (h : Command env r db hd effect hd') :
    hd'.rank < hd.rank ∧ 1 < hd.rank := by
  cases h with
  | load sid form =>
    refine ⟨?_, by simp [Handler.rank]⟩
    rcases verifyLoaded_cases sid form (SessionStore.get db sid) with ⟨_, hv⟩ | ⟨_, _, _, hv⟩ |
      ⟨_, _, _, _, _, hv⟩ | ⟨_, _, _, hv⟩ <;> simp [hv, Handler.rank]
  | _ => simp [Handler.rank]

/-- Each step of a request lowers its rank. -/
theorem rank_of_own_step (h : step env l σ = some σ') (hl : l.req? = some r) :
    σ'.rank r < σ.rank r := by
  -- the handler after the step has the lower rank
  have hset : ∀ {τ : State} {req : Req} {hd' : Handler}, σ.reqs r = some req →
      hd'.rank < req.handler.rank → (τ.setReq r { req with handler := hd' }).rank r < σ.rank r := by
    intro τ req hd' hreq hlt
    rw [rank_of_reqs hreq, rank_of_reqs (State.setReq_reqs_self _ _ _)]
    exact hlt
  cases l with
  | request r' q limited =>
    obtain rfl := Option.some.inj hl
    rcases step_request h with ⟨hnone, rfl⟩
    have hnew : σ.rank r' = 5 := by simp [State.rank, hnone]
    rw [hnew, rank_of_reqs (State.setReq_reqs_self _ _ _)]
    have hstart := rank_start q
    cases limited with
    | true => simp [Handler.rank]
    | false =>
      simp only [Bool.false_eq_true, if_false]
      omega
  | embed r' result =>
    obtain rfl := Option.some.inj hl
    rcases step_embed h with ⟨req, handler, hreq, hembed, rfl⟩
    exact hset hreq (rank_embedded (embedded_of_embed hembed))
  | name r' sid =>
    obtain rfl := Option.some.inj hl
    rcases step_name h with ⟨req, handler, hreq, hname, _, rfl⟩
    refine hset (τ := σ) hreq ?_
    rcases name_cases hname with ⟨form, v, hreq', hcreating | ⟨_, hreply⟩⟩
    · rw [hreq', hcreating]
      simp [Handler.rank]
    · rw [hreq', hreply]
      simp [Handler.rank]
  | redis r' fault =>
    obtain rfl := Option.some.inj hl
    rcases step_redis h with ⟨req, effect, handler, hreq, hredis, hcases⟩
    have hrank := rank_command (command_of_redis hredis)
    rcases hcases with ⟨_, rfl⟩ | ⟨_, rfl⟩ | ⟨_, rfl⟩
    · exact hset hreq hrank.1
    · exact hset hreq hrank.2
    · exact hset hreq hrank.2
  | answer r' =>
    obtain rfl := Option.some.inj hl
    rcases step_answer h with ⟨req, result, hreq, hreply, rfl⟩
    refine hset hreq ?_
    rw [hreply]
    simp [Handler.rank]
  | _ => cases hl

/-- A request that has not been answered can go on, whatever state the others have left. -/
theorem answered_or_enabled (env : Env) (σ : State) (r : ℕ) :
    (∃ response, σ.answer? r = some response) ∨
      ∃ l σ', l.req? = some r ∧ step env l σ = some σ' := by
  cases hreq : σ.reqs r with
  | none => exact Or.inr ⟨.request r (.get []) false, _, rfl, request_step hreq _ _⟩
  | some req =>
    rcases req with ⟨q, handler⟩
    have hcommand : (handler.redis env r σ.store).isSome = true →
        ∃ l σ', l.req? = some r ∧ step env l σ = some σ' := by
      intro hsome
      rcases Option.isSome_iff_exists.mp hsome with ⟨⟨effect, next⟩, hredis⟩
      exact ⟨.redis r .none, _, rfl, (redis_step hreq hredis).1⟩
    cases handler with
    | embedding form => exact Or.inr ⟨.embed r none, _, rfl, embed_step hreq rfl⟩
    | scoring sid form session => exact Or.inr ⟨.embed r none, _, rfl, embed_step hreq rfl⟩
    | naming form v =>
      -- there are more names than have been drawn
      rcases Infinite.exists_notMem_finset σ.ids.toFinset with ⟨sid, hsid⟩
      have hfresh : sid ∉ σ.ids := by simpa using hsid
      have hname : ∃ next, (Handler.naming form v).name σ.store.now sid = some next := by
        by_cases hw : (wellFormed form.aliceName && wellFormed form.memoryQuestion) = true
        · exact ⟨_, by simp only [Handler.name, hw, if_true]; rfl⟩
        · exact ⟨_, by simp only [Handler.name, hw]; rfl⟩
      rcases hname with ⟨next, hnext⟩
      exact Or.inr ⟨.name r sid, _, rfl, name_step hreq hnext hfresh⟩
    | replying result => exact Or.inr ⟨.answer r, _, rfl, answer_step hreq rfl⟩
    | done response => exact Or.inl ⟨response, by simp [State.answer?, hreq, Handler.sent?]⟩
    | creating | reading | loading | finalizing | deleting => exact Or.inr (hcommand rfl)

/-- So it can be brought to its answer by its own steps. -/
theorem can_be_answered (env : Env) (σ : State) (r : ℕ) :
    ∃ ls σ' response, (server env).Run (fun l _ => l.req? = some r) σ ls σ' ∧
      σ'.answer? r = some response := by
  induction hn : σ.rank r using Nat.strongRecOn generalizing σ with
  | ind n ih =>
    rcases answered_or_enabled env σ r with ⟨response, hans⟩ | ⟨l, τ, hl, hs⟩
    · exact ⟨[], σ, response, .nil σ, hans⟩
    · rcases ih _ (hn ▸ rank_of_own_step hs hl) τ rfl with ⟨ls, σ', response, hrun, hans⟩
      exact ⟨l :: ls, σ', response, .cons hl hs hrun, hans⟩

/-- There are requests that have not arrived. -/
def State.Unbounded (σ : State) : Prop := ∃ n, ∀ r, n ≤ r → σ.reqs r = none

theorem State.Unbounded.of_step (hσ : σ.Unbounded) (h : step env l σ = some σ') : σ'.Unbounded := by
  rcases hσ with ⟨n, hn⟩
  cases hl : l.req? with
  | none =>
    refine ⟨n, fun r hr => ?_⟩
    rw [reqs_of_step_ne h (by simp [hl])]
    exact hn r hr
  | some r' =>
    refine ⟨max n (r' + 1), fun r hr => ?_⟩
    have hne : l.req? ≠ some r := by
      rw [hl]
      simp only [ne_eq, Option.some.injEq]
      omega
    rw [reqs_of_step_ne h hne]
    exact hn r (by omega)

/-! ## A request alone -/

/-- A step of request `r`. -/
def ownStep (r : ℕ) : Lts.Guard State Label := fun l σ => l.req? = some r ∧ replied l σ

def Request.Creates : Request → Prop
  | .create _ => True
  | _ => False

/-- From `σ` to `σ'` request `r` has done what it does in one step of a server without concurrency,
and nothing else has happened but that it may have drawn the id `sid`. -/
structure Does (σ : State) (r : ℕ) (q : Request) (sid : Str)
    (out : (Store × List Message) × Response) (σ' : State) : Prop where
  request : σ'.request? r = some q
  store : σ'.store = out.1.1
  published : σ'.published = σ.published ++ out.1.2
  answer : σ'.answer? r = some out.2
  others : ∀ r', r' ≠ r → σ'.reqs r' = σ.reqs r'
  streams : σ'.streams = σ.streams
  ids : ∀ x ∈ σ'.ids, x ∈ σ.ids ∨ q.Creates ∧ x = sid

/-- Alone, request `r` gets from `σ` to its answer. -/
def Finishes (env : Env) (σ : State) (r : ℕ) (q : Request) (sid : Str)
    (out : (Store × List Message) × Response) : Prop :=
  ∃ ls σ', (server env).Run (ownStep r) σ ls σ' ∧ Does σ r q sid out σ'

section Alone

variable {sid : Str} {out : (Store × List Message) × Response} {result : Result}

/-- A step by which only the request itself goes on. -/
theorem Finishes.cons (hl : l.req? = some r) (hok : replied l σ) (hs : step env l σ = some τ)
    (hpub : τ.published = σ.published) (hstreams : τ.streams = σ.streams)
    (hids : ∀ x ∈ τ.ids, x ∈ σ.ids ∨ q.Creates ∧ x = sid) (h : Finishes env τ r q sid out) :
    Finishes env σ r q sid out := by
  rcases h with ⟨ls, σ', hrun, hdoes⟩
  refine ⟨l :: ls, σ', .cons ⟨hl, hok⟩ hs hrun, ?_⟩
  refine ⟨hdoes.request, hdoes.store, by rw [hdoes.published, hpub], hdoes.answer, ?_,
    hdoes.streams.trans hstreams, ?_⟩
  · intro r' hr'
    have hother : l.req? ≠ some r' := by
      rw [hl]
      simpa using Ne.symm hr'
    rw [hdoes.others r' hr', reqs_of_step_ne hs hother]
  · intro x hx
    rcases hdoes.ids x hx with hx | hdrawn
    · exact hids x hx
    · exact Or.inr hdrawn

theorem finishes_replying (hreq : σ.reqs r = some ⟨q, .replying result⟩) :
    Finishes env σ r q sid ((σ.store, []), answerOf result) := by
  have hanswer : step env (.answer r) σ = some (σ.setReq r ⟨q, .done (answerOf result)⟩) :=
    answer_step hreq rfl
  refine ⟨[.answer r], _, .single ⟨rfl, by simp [replied]⟩ hanswer, ?_⟩
  refine ⟨by simp [State.request?], rfl, by simp, by simp [State.answer?, Handler.sent?], ?_, rfl,
    fun x hx => Or.inl hx⟩
  intro r' hr'
  exact State.setReq_reqs_ne _ hr' _

/-- The command after which the request replies. -/
theorem finishes_command (hreq : σ.reqs r = some ⟨q, hd⟩) {effect : Effect}
    (hredis : hd.redis env r σ.store = some (effect, .replying result)) :
    Finishes env σ r q sid ((effect.store, effect.published), answerOf result) := by
  have hstep := (redis_step hreq hredis).1
  have hanswer : step env (.answer r) ((σ.apply effect).setReq r ⟨q, .replying result⟩) =
      some (((σ.apply effect).setReq r ⟨q, .replying result⟩).setReq r
        ⟨q, .done (answerOf result)⟩) := answer_step (State.setReq_reqs_self _ _ _) rfl
  refine ⟨[.redis r .none, .answer r], _, .cons ⟨rfl, by simp [replied]⟩ hstep <|
    .single ⟨rfl, by simp [replied]⟩ hanswer, ?_⟩
  refine ⟨by simp [State.request?], rfl, by simp, by simp [State.answer?, Handler.sent?], ?_, rfl,
    fun x hx => Or.inl hx⟩
  intro r' hr'
  rw [State.setReq_reqs_ne _ hr', State.setReq_reqs_ne _ hr', State.apply_reqs]

/-- The embedding service answers. -/
theorem Finishes.embed (hreq : σ.reqs r = some ⟨q, hd⟩) {bob : Option Json}
    (hembed : hd.embed env bob = some hd')
    (h : Finishes env (σ.setReq r ⟨q, hd'⟩) r q sid out) : Finishes env σ r q sid out :=
  h.cons rfl (by simp [replied]) (embed_step hreq hembed) rfl rfl fun _ hx => Or.inl hx

/-- A read that leaves the request waiting. -/
theorem Finishes.load (hreq : σ.reqs r = some ⟨q, hd⟩)
    (hredis : hd.redis env r σ.store = some ({ store := σ.store }, hd'))
    (h : Finishes env (σ.setReq r ⟨q, hd'⟩) r q sid out) : Finishes env σ r q sid out := by
  have hstep := (redis_step hreq hredis).1
  rw [State.apply_store_only] at hstep
  exact h.cons rfl (by simp [replied]) hstep rfl rfl fun _ hx => Or.inl hx

/-- A verify request, from its snapshot on. -/
theorem finishes_verify (hi : Inv env σ) {form : VerifyForm} {s : Str} {bob : Option Json}
    (hwf : wellFormed form.bobName = true) (hreq : σ.reqs r = some ⟨q, .loading s form⟩) :
    Finishes env σ r q sid (Atomic.verify env σ.store s form bob) := by
  have hload : ∀ {next}, Handler.verifyLoaded s form (SessionStore.get σ.store s) = next →
      (Handler.loading s form).redis env r σ.store = some ({ store := σ.store }, next) := by
    rintro next rfl
    rfl
  rcases verifyLoaded_cases s form (SessionStore.get σ.store s) with ⟨hsnap, hv⟩ |
    ⟨session, hsnap, hphase, hv⟩ | ⟨session, phase, hsnap, hphase, hne, hv⟩ |
    ⟨session, hsnap, hphase, hv⟩
  · have hdb : σ.store.db (key s) = none := by
      simpa [SessionStore.get, Server.hgetall] using hsnap
    rw [verify_of_none hdb]
    exact finishes_command hreq (hload hv)
  · -- a stored session has its phase
    rcases Option.map_eq_some_iff.mp hsnap with ⟨e, hdb, rfl⟩
    rcases hi.entry_of_stored hdb with ⟨c, _, _, rfl⟩
    have hfull := c.fields_full env (σ.winner s) .phase
    rw [show c.fields env (σ.winner s) .phase = none from hphase] at hfull
    cases hfull
  · rcases Option.map_eq_some_iff.mp hsnap with ⟨e, hdb, rfl⟩
    rw [verify_of_completed hdb (by simpa [hphase] using hne)]
    exact finishes_command hreq (hload hv)
  · rcases Option.map_eq_some_iff.mp hsnap with ⟨⟨fields, deadline⟩, hdb, rfl⟩
    refine Finishes.load hreq (hload hv) ?_
    have hreq' := State.setReq_reqs_self (σ := σ) r ⟨q, .scoring s form fields⟩
    cases bob with
    | none =>
      rw [verify_of_not_embedded hdb hphase]
      have hembed : (Handler.scoring s form fields).embed env none =
          some (.replying (.ok embeddingBusy)) := rfl
      exact Finishes.embed hreq' hembed (finishes_replying (State.setReq_reqs_self _ _ _))
    | some v =>
      cases hscore : scoreOf env fields v with
      | error e =>
        rw [verify_of_not_scored hdb hphase hscore]
        have hembed : (Handler.scoring s form fields).embed env (some v) =
            some (.replying (.error e)) := by simp [Handler.embed, Handler.verifyScored, hscore]
        exact Finishes.embed hreq' hembed (finishes_replying (State.setReq_reqs_self _ _ _))
      | ok score =>
        -- the hash is the one of the snapshot, so the script wins
        rw [verify_of_scored hdb hphase hscore]
        have hwinner := (hi.waiting_iff hdb).mp hphase
        rcases hi.entry_of_stored hdb with ⟨c, _, _, he⟩
        rw [hwinner] at he
        obtain rfl : fields = c.session := congrArg Entry.fields he
        have hembed : (Handler.scoring s form c.session).embed env (some v) =
            some (.finalizing s form c.session v score) := by
          simp [Handler.embed, Handler.verifyScored, hscore, hwf]
        refine Finishes.embed hreq' hembed ?_
        have hfin := State.setReq_reqs_self (σ := σ.setReq r ⟨q, .scoring s form c.session⟩) r
          ⟨q, .finalizing s form c.session v score⟩
        have hredis : (Handler.finalizing s form c.session v score).redis env r σ.store =
            some ({ store := σ.store.put (key s) (some ⟨c.session.write (updates env form score),
                      deadline⟩),
                    published := [⟨channel s, (event env form score).dumps⟩],
                    committed := some ⟨r, s, form, score⟩ },
              .replying (.ok (Atomic.outcome env c.session score))) := by
          rw [← c.outcome_eq]
          simp [Handler.redis, SessionStore.finalize_of_waiting hdb hphase]
        exact finishes_command hfin hredis

/-- A create request, from the embedding call on. -/
theorem finishes_create {form : CreateForm} {c : Choice}
    (hwf : wellFormed form.aliceName = true ∧ wellFormed form.memoryQuestion = true)
    (hq : q.Creates) (hsid : c.sid ∉ σ.ids) (hat : c.createdAt = natText (σ.store.now / 1000))
    (hreq : σ.reqs r = some ⟨q, .embedding form⟩) : Finishes env σ r q c.sid
      (match c.embedding with
      | some v =>
        (((SessionStore.create σ.store c.sid form v c.createdAt env.sessionTtlSeconds).1, []),
          answerOf (createStored env c.sid v
            (SessionStore.create σ.store c.sid form v c.createdAt env.sessionTtlSeconds).2))
      | none => ((σ.store, []), embeddingUnavailable)) := by
  cases hbob : c.embedding with
  | none =>
    have hembed : (Handler.embedding form).embed env none =
        some (.replying (.ok embeddingUnavailable)) := rfl
    exact Finishes.embed hreq hembed (finishes_replying (State.setReq_reqs_self _ _ _))
  | some v =>
    have hembed : (Handler.embedding form).embed env (some v) = some (.naming form v) := rfl
    refine Finishes.embed hreq hembed ?_
    have hnaming := State.setReq_reqs_self (σ := σ) r ⟨q, .naming form v⟩
    have hname : (Handler.naming form v).name σ.store.now c.sid =
        some (.creating form v c.sid c.createdAt) := by
      simp [Handler.name, hwf.1, hwf.2, hat]
    -- once the id is drawn the session is stored
    have hcreating : ∀ τ : State, τ.reqs r = some ⟨q, .creating form v c.sid c.createdAt⟩ →
        τ.store = σ.store → Finishes env τ r q c.sid
          (((SessionStore.create σ.store c.sid form v c.createdAt env.sessionTtlSeconds).1, []),
            answerOf (createStored env c.sid v (SessionStore.create σ.store c.sid form v c.createdAt
              env.sessionTtlSeconds).2)) := by
      intro τ hreq' hstore
      rw [← hstore]
      exact finishes_command hreq' rfl
    refine Finishes.cons rfl (by simp [replied]) (name_step hnaming hname hsid) rfl rfl ?_
      (hcreating _ (State.setReq_reqs_self _ _ _) rfl)
    intro x hx
    rcases List.mem_cons.mp hx with rfl | hx
    · exact Or.inr ⟨hq, rfl⟩
    · exact Or.inl hx

end Alone

/-! ## What the atomic server does, this one can do -/

/-- A request that arrives and then runs alone does what an atomic request does. -/
theorem finishes_request (hi : Inv env σ) (hnone : σ.reqs r = none) (hwf : q.WellFormed)
    {c : Choice} (hdraw : q.Creates → c.sid ∉ σ.ids ∧ c.createdAt = natText (σ.store.now / 1000)) :
    Finishes env σ r q c.sid (Atomic.request env q c σ.store) := by
  have hstep : step env (.request r q c.limited) σ =
      some (σ.setReq r ⟨q, if c.limited then .replying (.ok rateLimited) else .start q⟩) :=
    request_step hnone q c.limited
  have hi' := hi.of_step hstep
  have hok : replied (.request r q c.limited) σ := by
    refine ⟨by simp, ?_⟩
    rintro _ _ _ ⟨⟩
    exact hwf
  refine Finishes.cons rfl hok hstep rfl rfl (fun _ hx => Or.inl hx) ?_
  cases hc : c.limited with
  | true =>
    have hatomic : Atomic.request env q c σ.store = ((σ.store, []), rateLimited) := by
      simp [Atomic.request, hc]
    rw [hatomic]
    exact finishes_replying (State.setReq_reqs_self _ _ _)
  | false =>
    rw [hc] at hi'
    simp only [Bool.false_eq_true, if_false] at hi' ⊢
    have hreq := State.setReq_reqs_self (σ := σ) r ⟨q, Handler.start q⟩
    have hrefused : ∀ {result}, Handler.start q = .replying result →
        Finishes env (σ.setReq r ⟨q, Handler.start q⟩) r q c.sid
          (Atomic.request env q c σ.store) := by
      intro result hstart
      rw [request_of_start hstart hc]
      rw [hstart] at hreq ⊢
      exact finishes_replying hreq
    cases q with
    | create body =>
      rcases start_create body with ⟨result, hstart, _⟩ | ⟨form, hform, hstart⟩
      · exact hrefused hstart
      · rw [hstart] at hreq ⊢
        rw [request_create hform hc]
        rcases hdraw trivial with ⟨hsid, hat⟩
        exact finishes_create (hwf form hform.2) trivial hsid hat hreq
    | get sid =>
      have hatomic : Atomic.request env (.get sid) c σ.store =
          ((σ.store, []), answerOf (getResponse (SessionStore.get σ.store sid))) := by
        simp [Atomic.request, hc]
      rw [hatomic]
      exact finishes_command hreq rfl
    | delete sid =>
      have hatomic : Atomic.request env (.delete sid) c σ.store =
          ((SessionStore.delete σ.store sid, []), deleteResponse) := by
        simp [Atomic.request, hc]
      rw [hatomic]
      exact finishes_command hreq rfl
    | verify sid body =>
      rcases start_verify sid body with ⟨result, hstart, _⟩ | ⟨form, hform, hstart⟩
      · exact hrefused hstart
      · rw [hstart] at hreq hi' ⊢
        rw [request_verify hform hc]
        exact finishes_verify hi' (hwf form hform.2) hreq

/-- A history of requests that a server in state `σ` could be sent: their texts are well-formed, no
request is sent twice, and a session that is created gets an id never drawn before and the time of
the clock. -/
structure Plausible (env : Env) (σ : State) (h : List (Option Atomic.Op)) : Prop where
  wellFormed : ∀ (i : ℕ) r q c, h[i]? = some (some (Atomic.Op.act r q c)) → q.WellFormed
  fresh : ∀ (i : ℕ) r q c, h[i]? = some (some (Atomic.Op.act r q c)) → σ.reqs r = none
  once : ∀ (i j : ℕ) r q q' c c', h[i]? = some (some (Atomic.Op.act r q c)) →
    h[j]? = some (some (Atomic.Op.act r q' c')) → i = j
  drawn : ∀ (i : ℕ) r q c, h[i]? = some (some (Atomic.Op.act r q c)) → q.Creates →
    c.sid ∉ σ.ids ∧ c.createdAt =
      natText (((Atomic.object env).stateAt h (σ.store, σ.published) i).1.now / 1000)
  distinct : ∀ (i j : ℕ) r r' q q' c c', h[i]? = some (some (Atomic.Op.act r q c)) → q.Creates →
    h[j]? = some (some (Atomic.Op.act r' q' c')) → q'.Creates → c.sid = c'.sid → i = j

/-- From `σ` to `σ'` the server has done what the history says: the same store, the same messages
and the same answers. Requests that are not in the history, and streams, stand where they stood. -/
structure Realizes (env : Env) (σ : State) (h : List (Option Atomic.Op)) (σ' : State) : Prop where
  state : (Atomic.object env).state h (σ.store, σ.published) = (σ'.store, σ'.published)
  answers : ∀ i r q c response,
    (Atomic.object env).Performs h (σ.store, σ.published) i (.act r q c) (some response) →
      σ'.request? r = some q ∧ σ'.answer? r = some response
  others : ∀ r, (∀ (i : ℕ) q c, h[i]? ≠ some (some (Atomic.Op.act r q c))) →
    σ'.reqs r = σ.reqs r
  streams : σ'.streams = σ.streams
  ids : ∀ x ∈ σ'.ids, x ∈ σ.ids ∨ ∃ (i : ℕ) (r : ℕ) (q : Request) (c : Choice),
    h[i]? = some (some (Atomic.Op.act r q c)) ∧ q.Creates ∧ c.sid = x

section Realizes

variable {h : List (Option Atomic.Op)} {a : Option Atomic.Op}

theorem getElem?_concat_of_some {α : Type} {h : List α} {a b : α} {i : ℕ} (hi : h[i]? = some b) :
    (h ++ [a])[i]? = some b := by
  rw [List.getElem?_append_left (List.getElem?_eq_some_iff.mp hi).1, hi]

theorem Plausible.of_concat (hp : Plausible env σ (h ++ [a])) : Plausible env σ h where
  wellFormed i r q c hi := hp.wellFormed i r q c (getElem?_concat_of_some hi)
  fresh i r q c hi := hp.fresh i r q c (getElem?_concat_of_some hi)
  once i j r q q' c c' hi hj :=
    hp.once i j r q q' c c' (getElem?_concat_of_some hi) (getElem?_concat_of_some hj)
  drawn := by
    intro i r q c hi hq
    have hlt := (List.getElem?_eq_some_iff.mp hi).1
    have hat : (Atomic.object env).stateAt (h ++ [a]) (σ.store, σ.published) i =
        (Atomic.object env).stateAt h (σ.store, σ.published) i :=
      AtomicObject.stateAt_append hlt.le
    rw [← hat]
    exact hp.drawn i r q c (getElem?_concat_of_some hi) hq
  distinct i j r r' q q' c c' hi hq hj hq' hsid :=
    hp.distinct i j r r' q q' c c' (getElem?_concat_of_some hi) hq (getElem?_concat_of_some hj) hq'
      hsid

theorem Realizes.nil (env : Env) (σ : State) : Realizes env σ [] σ where
  state := rfl
  answers := by
    rintro i r q c response ⟨hi, _⟩
    cases hi
  others _ _ := rfl
  streams := rfl
  ids _ hx := Or.inl hx

/-- Nothing is done for an instant. -/
theorem Realizes.idle (h₁ : Realizes env σ h σ') : Realizes env σ (h ++ [none]) σ' where
  state := by rw [AtomicObject.state_concat_none, h₁.state]
  answers := by
    intro i r q c response hperf
    rcases hperf.of_concat with hold | ⟨_, hnew, _⟩
    · exact h₁.answers i r q c response hold
    · cases hnew
  others r hr := h₁.others r fun i q c hi => hr i q c (getElem?_concat_of_some hi)
  streams := h₁.streams
  ids x hx := (h₁.ids x hx).imp_right fun ⟨i, r, q, c, hi, hq⟩ =>
    ⟨i, r, q, c, getElem?_concat_of_some hi, hq⟩

/-- The clock moves on. -/
theorem Realizes.tick (h₁ : Realizes env σ h σ') (d : ℕ) :
    Realizes env σ (h ++ [some (.tick d)]) { σ' with store := σ'.store.tick d } where
  state := by
    rw [AtomicObject.state_concat_some, h₁.state]
    rfl
  answers := by
    intro i r q c response hperf
    rcases hperf.of_concat with hold | ⟨_, hnew, _⟩
    · exact h₁.answers i r q c response hold
    · cases hnew
  others r hr := h₁.others r fun i q c hi => hr i q c (getElem?_concat_of_some hi)
  streams := h₁.streams
  ids x hx := (h₁.ids x hx).imp_right fun ⟨i, r, q, c, hi, hq⟩ =>
    ⟨i, r, q, c, getElem?_concat_of_some hi, hq⟩

/-- One more request is handled, alone. -/
theorem Realizes.act (h₁ : Realizes env σ h σ') {c : Choice}
    (hp : Plausible env σ (h ++ [some (.act r q c)]))
    (hdoes : Does σ' r q c.sid (Atomic.request env q c σ'.store) τ) :
    Realizes env σ (h ++ [some (.act r q c)]) τ where
  state := by
    rw [AtomicObject.state_concat_some, h₁.state, hdoes.store, hdoes.published]
    rfl
  answers := by
    intro i r' q' c' response hperf
    rcases hperf.of_concat with hold | ⟨rfl, hnew, hout⟩
    · -- what was answered before is left alone
      have hne : r' ≠ r := by
        rintro rfl
        have hi := hp.once i h.length r' q' q c' c (getElem?_concat_of_some hold.1) (by simp)
        exact absurd hold.lt (by omega)
      rcases h₁.answers i r' q' c' response hold with ⟨hrequest, hanswer⟩
      have hsame := hdoes.others r' hne
      exact ⟨by rwa [State.request?, hsame], by rwa [State.answer?, hsame]⟩
    · rcases Atomic.Op.act.inj (Option.some.inj hnew) with ⟨rfl, rfl, rfl⟩
      rw [h₁.state] at hout
      obtain rfl := Option.some.inj hout
      exact ⟨hdoes.request, hdoes.answer⟩
  others := by
    intro r' hr'
    have hne : r' ≠ r := by
      rintro rfl
      exact hr' h.length q c (by simp)
    rw [hdoes.others r' hne]
    exact h₁.others r' fun i q c hi => hr' i q c (getElem?_concat_of_some hi)
  streams := hdoes.streams.trans h₁.streams
  ids := by
    intro x hx
    rcases hdoes.ids x hx with hx | ⟨hq, rfl⟩
    · rcases h₁.ids x hx with hold | ⟨i, r', q', c', hi, hq⟩
      · exact Or.inl hold
      · exact Or.inr ⟨i, r', q', c', getElem?_concat_of_some hi, hq⟩
    · exact Or.inr ⟨h.length, r, q, c, by simp, hq, rfl⟩

/-- From every state the server can be in, whatever requests and streams are left standing halfway,
it can be sent every plausible history of requests one after the other, and does what a server
without concurrency does: same answers, same store, same messages. -/
theorem realizable {ls₀ : List Label} (h₀ : (server env).Run Lts.anyStep (server env).init ls₀ σ)
    (hp : Plausible env σ h) :
    ∃ ls σ', (server env).Run replied σ ls σ' ∧ Realizes env σ h σ' := by
  have hi : Inv env σ := h₀.invariant Inv.init fun _ _ _ _ hs hi => hi.of_step hs
  induction h using List.reverseRecOn with
  | nil => exact ⟨[], σ, .nil σ, .nil env σ⟩
  | append_singleton h a ih =>
    rcases ih hp.of_concat with ⟨ls, σ', hrun, h₁⟩
    match a with
    | none => exact ⟨ls, σ', hrun, h₁.idle⟩
    | some (.tick d) =>
      refine ⟨ls ++ [.tick d], _, hrun.append (.single ?_ rfl), h₁.tick d⟩
      simp [replied]
    | some (.act r q c) =>
      have hlast : (h ++ [some (Atomic.Op.act r q c)])[h.length]? = some (some (.act r q c)) := by
        simp
      -- the request has not been sent before
      have hnone : σ'.reqs r = none := by
        rw [h₁.others r ?_]
        · exact hp.fresh _ r q c hlast
        · intro i q' c' hget
          have heq := hp.once i _ r q' q c' c (getElem?_concat_of_some hget) hlast
          have hlt := (List.getElem?_eq_some_iff.mp hget).1
          omega
      have hdraw : q.Creates → c.sid ∉ σ'.ids ∧ c.createdAt = natText (σ'.store.now / 1000) := by
        intro hq
        rcases hp.drawn _ r q c hlast hq with ⟨hsid, hat⟩
        rw [AtomicObject.stateAt_append le_rfl, AtomicObject.stateAt_length, h₁.state] at hat
        refine ⟨?_, hat⟩
        intro hmem
        rcases h₁.ids c.sid hmem with hold | ⟨i, r', q', c', hget, hq', hsid'⟩
        · exact hsid hold
        · have heq := hp.distinct i _ r' r q' q c' c (getElem?_concat_of_some hget) hq' hlast hq
              hsid'
          have hlt := (List.getElem?_eq_some_iff.mp hget).1
          omega
      have hi' : Inv env σ' := hrun.preserves (fun _ _ _ _ hs hi => hi.of_step hs) hi
      rcases finishes_request hi' hnone (hp.wellFormed _ r q c hlast) hdraw with
        ⟨ls', τ, hrun', hdoes⟩
      exact ⟨ls ++ ls', τ, hrun.append (hrun'.mono fun _ _ hok => hok.2), h₁.act hp hdoes⟩

/-- It applies where the answer of request 1 is scored and not yet stored: request 2 can be sent
after it, and passes. -/
theorem realizable_sample :
    let σ := (server Sample.config).after
      (Sample.create ++ Sample.score 1 (lit "eve") Sample.otherVector)
    ∃ ls σ', (server Sample.config).Run replied σ ls σ' ∧
      σ'.answer? 2 = some (passResponse 1 (Sample.jwk (lit "alice"))) ∧ σ'.reqs 1 = σ.reqs 1 := by
  intro σ
  let q : Request := .verify Sample.sid (Sample.verifyBody (lit "bob"))
  let c : Choice := ⟨false, some Sample.vector, [], []⟩
  have hone : ∀ {i : ℕ} {r q' c'}, ([some (Atomic.Op.act 2 q c)])[i]? =
      some (some (Atomic.Op.act r q' c')) → i = 0 ∧ r = 2 ∧ q' = q := by
    intro i r q' c' hi
    match i with
    | 0 =>
      rcases Atomic.Op.act.inj (Option.some.inj (Option.some.inj hi)) with ⟨rfl, rfl, rfl⟩
      exact ⟨rfl, rfl, rfl⟩
  have hwf : q.WellFormed := by
    rintro form ⟨⟩
    decide
  have hp : Plausible Sample.config σ [some (.act 2 q c)] := by
    refine ⟨?_, ?_, ?_, ?_, ?_⟩
    · intro i r q' c' hi
      rwa [(hone hi).2.2]
    · intro i r q' c' hi
      rw [(hone hi).2.1]
      exact Option.isNone_iff_eq_none.mp (by decide +kernel)
    · intro i j r q₁ q₂ c₁ c₂ hi hj
      rw [(hone hi).1, (hone hj).1]
    · intro i r q' c' hi hq
      rw [(hone hi).2.2] at hq
      exact hq.elim
    · intro i j r r' q₁ q₂ c₁ c₂ hi _ hj _ _
      rw [(hone hi).1, (hone hj).1]
  rcases realizable (Lts.run_after _ _ (by decide +kernel)) hp with ⟨ls, σ', hrun, hreal⟩
  refine ⟨ls, σ', hrun, (hreal.answers 0 2 q c _ ⟨rfl, ?_⟩).2, hreal.others 1 ?_⟩
  · decide +kernel
  · intro i q' c' hi
    exact absurd (hone hi).2.1 (by decide)

end Realizes

end Doppelganger
