import Doppelganger.TwoRuns

/-!
# Answers that do not pass

What Bob sends with an answer is his name, his public key and the answer. Only a PASS puts the
name and the key into the hash and into the event. Two runs on one schedule that differ in the
bodies of verify requests that do not pass, and are given the same embeddings, are in the same
state up to the forms still held by their handlers (`States`, `failed_answers_leave_no_trace`).
-/

open Text Redis

namespace Doppelganger

namespace FailedAnswers

/-- A body that passes its validator, with a name that can be encoded. -/
def Sendable (body : Json) : Prop :=
  ∃ form, AcceptsVerify body form ∧ wellFormed form.bobName = true

/-- The labels of two runs that differ in what is sent by the verify requests in `D`. -/
inductive Labels (D : ℕ → Prop) : Label → Label → Prop
  | verify (r : ℕ) (sid : Str) (body body' : Json) (limited : Bool) : D r → Sendable body →
      Sendable body' →
      Labels D (.request r (.verify sid body) limited) (.request r (.verify sid body') limited)
  | same (l : Label) : Labels D l l

/-- The same handler, up to a form. -/
inductive Handlers : Handler → Handler → Prop
  | loading (sid : Str) (form form' : VerifyForm) : wellFormed form.bobName = true →
      wellFormed form'.bobName = true → Handlers (.loading sid form) (.loading sid form')
  | scoring (sid : Str) (form form' : VerifyForm) (session : Session) :
      wellFormed form.bobName = true → wellFormed form'.bobName = true →
      Handlers (.scoring sid form session) (.scoring sid form' session)
  | finalizing (sid : Str) (form form' : VerifyForm) (session : Session) (bob : Json) (score : ℚ) :
      Handlers (.finalizing sid form session bob score) (.finalizing sid form' session bob score)
  | same (hd : Handler) : Handlers hd hd

/-- The requests with number `r`. -/
inductive Reqs (D : ℕ → Prop) (r : ℕ) : Option Req → Option Req → Prop
  | differ (q q' : Request) (hd hd' : Handler) : D r → Handlers hd hd' →
      Reqs D r (some ⟨q, hd⟩) (some ⟨q', hd'⟩)
  | same (req : Option Req) : Reqs D r req req

/-- The second state has other requests and nothing else that is other; `commits` is a history. -/
structure States (D : ℕ → Prop) (σ σ' : State) : Prop where
  eq : σ' = { σ with reqs := σ'.reqs, commits := σ'.commits }
  reqs : ∀ r, Reqs D r (σ.reqs r) (σ'.reqs r)

/-- No request in `D` passes at this step. -/
def Unpassed (env : Env) (D : ℕ → Prop) : Lts.Guard State Label := fun l σ =>
  ∀ r fault q sid form session bob score e, l = .redis r fault → fault ≠ .before → D r →
    σ.reqs r = some ⟨q, .finalizing sid form session bob score⟩ → σ.store.db (key sid) = some e →
      e.fields .phase = some waitingForBob → passed env score = false

variable {env : Env} {D : ℕ → Prop} {σ σ' τ : State} {l l' : Label} {r : ℕ}

namespace States

theorem refl (σ : State) : States D σ σ := ⟨rfl, fun _ => .same _⟩

theorem store (h : States D σ σ') : σ'.store = σ.store := by rw [h.eq]

theorem ids (h : States D σ σ') : σ'.ids = σ.ids := by rw [h.eq]

theorem req_none (h : States D σ σ') (hreq : σ.reqs r = none) : σ'.reqs r = none := by
  have hr := h.reqs r
  rw [hreq] at hr
  generalize σ'.reqs r = o at hr
  cases hr
  rfl

/-- The handlers of a request that is there. -/
theorem req (h : States D σ σ') {req : Req} (hreq : σ.reqs r = some req) :
    ∃ q' hd', σ'.reqs r = some ⟨q', hd'⟩ ∧ Handlers req.handler hd' ∧
      (D r ∨ (q' = req.request ∧ hd' = req.handler)) := by
  have hr := h.reqs r
  rw [hreq] at hr
  generalize σ'.reqs r = o at hr
  cases hr with
  | differ q q' hd hd' hD hh => exact ⟨q', hd', rfl, hh, Or.inl hD⟩
  | same => exact ⟨req.request, req.handler, rfl, .same _, Or.inr ⟨rfl, rfl⟩⟩

theorem setReq (h : States D σ σ') {q q' : Request} {hd hd' : Handler}
    (hr : Reqs D r (some ⟨q, hd⟩) (some ⟨q', hd'⟩)) :
    States D (σ.setReq r ⟨q, hd⟩) (σ'.setReq r ⟨q', hd'⟩) := by
  constructor
  · rw [h.eq]
    rfl
  · intro r'
    by_cases hr' : r' = r
    · rw [hr', State.setReq_reqs_self, State.setReq_reqs_self]
      exact hr
    · rw [State.setReq_reqs_ne _ hr', State.setReq_reqs_ne _ hr']
      exact h.reqs r'

/-- A request goes on in both runs. -/
theorem goOn (h : States D σ σ') {req : Req} {q' : Request} {hd hd₁ hd' : Handler}
    (hsame : D r ∨ (q' = req.request ∧ hd' = req.handler)) (hh : Handlers hd hd₁)
    (hfix : ¬ D r → hd₁ = hd) :
    States D (σ.setReq r { req with handler := hd }) (σ'.setReq r ⟨q', hd₁⟩) := by
  refine h.setReq ?_
  by_cases hD : D r
  · exact .differ _ _ _ _ hD hh
  · rcases hsame with hD' | ⟨rfl, _⟩
    · exact absurd hD' hD
    · rw [hfix hD]
      exact .same _

theorem apply (h : States D σ σ') {e e' : Effect} (hstore : e'.store = e.store)
    (hpublished : e'.published = e.published) (hcreated : e'.created = e.created) :
    States D (σ.apply e) (σ'.apply e') := by
  constructor
  · rw [h.eq]
    simp only [State.apply, hstore, hpublished, hcreated]
  · exact h.reqs

end States

/-- Streams, listeners and the clock do not read the requests. -/
theorem step_of_stream (hl : l.ofStream = true ∨ ∃ d, l = .tick d) (h : step env l σ = some τ)
    (reqs : ℕ → Option Req) (commits : List Commit) :
    step env l { σ with reqs, commits } = some { τ with reqs, commits } := by
  cases l with
  | stream i sid w =>
    rcases step_stream h with ⟨hnone, rfl⟩
    simp [step, hnone, State.setStream]
  | read i fault =>
    rcases step_read h with ⟨st, st', hst, rfl, ⟨rfl, hread⟩ | ⟨hne, hfail⟩⟩
    · simp [step, hst, hread, State.setStream]
    · cases fault with
      | none => exact absurd rfl hne
      | _ => simp [step, hst, hfail, State.setStream]
  | advance i =>
    rcases step_advance h with ⟨st, st', hst, hadv, rfl⟩
    simp [step, hst, hadv, State.setStream, State.setWorker]
  | close i =>
    rcases step_close h with ⟨st, st', hst, hclose, rfl⟩
    simp [step, hst, hclose, State.setStream]
  | deliver w =>
    rcases step_deliver h with ⟨m, rest, hm, rfl⟩
    simp [step, hm, State.deliverTo, State.setWorker]
  | listen w =>
    obtain rfl := step_listen h
    rfl
  | disconnect w =>
    obtain rfl := step_disconnect h
    rfl
  | lose w n =>
    obtain rfl := step_lose h
    rfl
  | tick d =>
    obtain rfl := step_tick h
    rfl
  | _ => simp [Label.ofStream] at hl

/-- A verify request that is sent goes on with what it carries. -/
theorem start_of_sendable {body : Json} (h : Sendable body) (sid : Str) :
    ∃ form, Handler.start (.verify sid body) = .loading sid form ∧
      wellFormed form.bobName = true := by
  rcases h with ⟨form, ⟨hvalid, hform⟩, hname⟩
  exact ⟨form, by simp [Handler.start, hvalid, hform], hname⟩

/-- The embedding call returns to both handlers. -/
theorem embed_of_embed {result : Option Json} {hd hd' hd₁ : Handler} (hh : Handlers hd hd')
    (h : hd.embed env result = some hd₁) :
    ∃ hd₁', hd'.embed env result = some hd₁' ∧ Handlers hd₁ hd₁' := by
  cases hh with
  | same => exact ⟨hd₁, h, .same _⟩
  | scoring sid form form' session hname hname' =>
    cases result with
    | none =>
      obtain rfl := Option.some.inj h
      exact ⟨_, rfl, .same _⟩
    | some v =>
      obtain rfl := Option.some.inj h
      refine ⟨_, rfl, ?_⟩
      simp only [Handler.verifyScored]
      cases scoreOf env session v with
      | error e => exact .same _
      | ok score =>
        simp only [hname, hname', Bool.not_true, Bool.and_false]
        exact .finalizing sid form form' session v score
  | _ => cases h

/-- Both handlers wait for a command, or none does. -/
theorem exists_redis {db : Store} {hd hd' hd₁ : Handler} {effect : Effect} (hh : Handlers hd hd')
    (hcmd : hd.redis env r db = some (effect, hd₁)) :
    ∃ effect' hd₁', hd'.redis env r db = some (effect', hd₁') := by
  cases hh with
  | same => exact ⟨effect, hd₁, hcmd⟩
  | scoring => cases hcmd
  | _ => exact ⟨_, _, rfl⟩

/-- The command of both handlers, unless it is a PASS. -/
theorem redis_of_redis {db : Store} {hd hd' hd₁ : Handler} {effect : Effect}
    (hh : Handlers hd hd') (hcmd : hd.redis env r db = some (effect, hd₁))
    (hfail : hd' ≠ hd → ∀ sid form session bob score e,
      hd = .finalizing sid form session bob score → db.db (key sid) = some e →
        e.fields .phase = some waitingForBob → passed env score = false) :
    ∃ effect' hd₁', hd'.redis env r db = some (effect', hd₁') ∧ Handlers hd₁ hd₁' ∧
      effect'.store = effect.store ∧ effect'.published = effect.published ∧
      effect'.created = effect.created := by
  by_cases hsame : hd' = hd
  · rw [hsame]
    exact ⟨effect, hd₁, hcmd, .same _, rfl, rfl, rfl⟩
  · cases hh with
    | same => exact absurd rfl hsame
    | loading sid form form' hname hname' =>
      rcases Prod.mk.inj (Option.some.inj hcmd) with ⟨rfl, rfl⟩
      refine ⟨_, _, rfl, ?_, rfl, rfl, rfl⟩
      unfold Handler.verifyLoaded
      cases SessionStore.get db sid with
      | none => exact .same _
      | some session =>
        dsimp only
        cases field session .phase with
        | error e => exact .same _
        | ok phase =>
          dsimp only
          split_ifs
          · exact .same _
          · exact .scoring sid form form' session hname hname'
    | scoring => cases hcmd
    | finalizing sid form form' session bob score =>
      cases hdb : db.db (key sid) with
      | none =>
        simp only [Handler.redis, SessionStore.finalize_of_none hdb] at hcmd ⊢
        rcases Prod.mk.inj (Option.some.inj hcmd) with ⟨rfl, rfl⟩
        exact ⟨_, _, rfl, .same _, rfl, rfl, rfl⟩
      | some e =>
        by_cases hp : e.fields .phase = some waitingForBob
        · -- the script wins with a FAIL, which names nobody
          have hnot := hfail hsame sid form session bob score e rfl hdb hp
          have hup : updates env form' score = updates env form score := by simp [updates, hnot]
          have hev : event env form' score = event env form score := by simp [event, hnot]
          simp only [Handler.redis, SessionStore.finalize_of_waiting hdb hp, hup, hev] at hcmd ⊢
          rcases Prod.mk.inj (Option.some.inj hcmd) with ⟨rfl, rfl⟩
          exact ⟨_, _, rfl, .same _, rfl, rfl, rfl⟩
        · simp only [Handler.redis, SessionStore.finalize_of_completed hdb hp] at hcmd ⊢
          rcases Prod.mk.inj (Option.some.inj hcmd) with ⟨rfl, rfl⟩
          exact ⟨_, _, rfl, .same _, rfl, rfl, rfl⟩

/-- Labels of which only one kind differs. -/
theorem Labels.eq_of_ne (h : Labels D l l') (hl : ∀ r q limited, l ≠ .request r q limited) :
    l' = l := by
  cases h with
  | verify r sid body body' limited => exact absurd rfl (hl _ _ _)
  | same => rfl

theorem step_of_step (hl : Labels D l l') (h : States D σ σ') (hfail : Unpassed env D l σ)
    (hs : step env l σ = some τ) : ∃ τ', step env l' σ' = some τ' ∧ States D τ τ' := by
  cases l with
  | request r q limited =>
    rcases step_request hs with ⟨hnone, rfl⟩
    have hnone' := h.req_none hnone
    cases hl with
    | verify _ sid body body' _ hD hbody hbody' =>
      refine ⟨_, request_step hnone' _ _, h.setReq (.differ _ _ _ _ hD ?_)⟩
      rcases start_of_sendable hbody sid with ⟨form, hstart, hname⟩
      rcases start_of_sendable hbody' sid with ⟨form', hstart', hname'⟩
      cases limited with
      | true => exact .same _
      | false =>
        simp only [hstart, hstart']
        exact .loading sid form form' hname hname'
    | same => exact ⟨_, request_step hnone' _ _, h.setReq (.same _)⟩
  | embed r result =>
    obtain rfl := hl.eq_of_ne (by simp)
    rcases step_embed hs with ⟨req, hd, hreq, hembed, rfl⟩
    rcases h.req hreq with ⟨q', hd', hreq', hh, hsame⟩
    rcases embed_of_embed hh hembed with ⟨hd₁, hembed', hh₁⟩
    refine ⟨_, embed_step hreq' hembed', h.goOn hsame hh₁ ?_⟩
    intro hD
    rcases hsame with hD' | ⟨_, rfl⟩
    · exact absurd hD' hD
    · exact Option.some.inj (hembed'.symm.trans hembed)
  | name r sid =>
    obtain rfl := hl.eq_of_ne (by simp)
    rcases step_name hs with ⟨req, hd, hreq, hname, hfresh, rfl⟩
    rcases h.req hreq with ⟨q', hd', hreq', hh, hsame⟩
    -- the handler is one of a create request, so it is the same
    have hd_eq : hd' = req.handler := by
      rcases name_cases hname with ⟨form, v, hold, _⟩
      rw [hold] at hh ⊢
      cases hh
      rfl
    subst hd_eq
    rw [← h.store] at hname
    rw [← h.ids] at hfresh
    refine ⟨_, name_step hreq' hname hfresh, ?_⟩
    have hset := h.goOn hsame (Handlers.same hd) fun _ => rfl
    constructor
    · rw [h.eq]
      rfl
    · exact hset.reqs
  | redis r fault =>
    obtain rfl := hl.eq_of_ne (by simp)
    rcases step_redis hs with ⟨req, effect, hd, hreq, hredis, hcases⟩
    rcases h.req hreq with ⟨q', hd', hreq', hh, hsame⟩
    by_cases hfault : fault = .before
    · subst hfault
      rcases hcases with ⟨hf, _⟩ | ⟨_, rfl⟩ | ⟨hf, _⟩
      · cases hf
      · rcases exists_redis hh hredis with ⟨effect', hd₁, hredis'⟩
        rw [← h.store] at hredis'
        exact ⟨_, (redis_step hreq' hredis').2.1, h.goOn hsame (.same _) fun _ => rfl⟩
      · cases hf
    · have hcmd := redis_of_redis hh hredis ?_
      · rcases hcmd with ⟨effect', hd₁, hredis', hh₁, hstore, hpublished, hcreated⟩
        have hfix : ¬ D r → hd₁ = hd := by
          intro hD
          rcases hsame with hD' | ⟨_, rfl⟩
          · exact absurd hD' hD
          · exact (Prod.mk.inj (Option.some.inj (hredis'.symm.trans hredis))).2
        have happly := h.apply hstore hpublished hcreated
        rw [← h.store] at hredis'
        rcases redis_step hreq' hredis' with ⟨hnone, _, hafter⟩
        rcases hcases with ⟨rfl, rfl⟩ | ⟨rfl, _⟩ | ⟨rfl, rfl⟩
        · exact ⟨_, hnone, happly.goOn hsame hh₁ hfix⟩
        · exact absurd rfl hfault
        · exact ⟨_, hafter, happly.goOn hsame (.same _) fun _ => rfl⟩
      · intro hne sid form session bob score e hold hdb hp
        rcases hsame with hD | ⟨_, rfl⟩
        · rcases req with ⟨q, hd₀⟩
          obtain rfl : hd₀ = _ := hold
          exact hfail r fault q sid form session bob score e rfl hfault hD hreq hdb hp
        · exact absurd rfl hne
  | answer r =>
    obtain rfl := hl.eq_of_ne (by simp)
    rcases step_answer hs with ⟨req, result, hreq, hreply, rfl⟩
    rcases h.req hreq with ⟨q', hd', hreq', hh, hsame⟩
    rw [hreply] at hh
    cases hh
    exact ⟨_, answer_step hreq' rfl, h.goOn hsame (.same _) fun _ => rfl⟩
  | _ =>
    obtain rfl := hl.eq_of_ne (by simp)
    have hs' := step_of_stream (by simp [Label.ofStream]) hs σ'.reqs σ'.commits
    rw [← h.eq] at hs'
    refine ⟨_, hs', rfl, ?_⟩
    intro r
    have hreqs := reqs_of_step_ne (r := r) hs (by simp [Label.req?])
    rw [hreqs]
    exact h.reqs r

/-- What verify requests that do not pass have sent (name, key and answer) shows nowhere: two runs
that differ in it, and are given the same embeddings, have the same store, the same messages, the
same streams and workers, and every request is answered the same. -/
theorem failed_answers_leave_no_trace {ls ls' : List Label}
    (h : (server env).Run Lts.anyStep State.init ls σ) (hls : List.Forall₂ (Labels D) ls ls')
    (hfail : ∀ k ∈ σ.commits, D k.req → passed env k.score = false) :
    ∃ σ', (server env).Run Lts.anyStep State.init ls' σ' ∧ σ'.store = σ.store ∧
      σ'.published = σ.published ∧ σ'.streams = σ.streams ∧ σ'.workers = σ.workers ∧
      ∀ r, σ'.answer? r = σ.answer? r := by
  have hguard : (server env).Run (Unpassed env D) State.init ls σ := by
    refine h.strengthen ?_
    rintro ls₁ l ls₂ s rfl hrun r fault q sid form session bob score e rfl hfault hD hreq hdb hp
    rcases h.split with ⟨s', hrun', hrest⟩
    obtain rfl := hrun.deterministic hrun'
    rcases Lts.run_cons_iff.mp hrest with ⟨_, t, hs, hrest⟩
    -- the script wins, so the run has its commit
    refine hfail ⟨r, sid, form, score⟩ ((later_of_run hrest).commits.subset ?_) hD
    replace hs : step env (.redis r fault) s = some t := hs
    rcases step_redis hs with ⟨req, effect, hd, hreq', hredis, hcases⟩
    obtain rfl := Option.some.inj (hreq.symm.trans hreq')
    simp only [Handler.redis, SessionStore.finalize_of_waiting hdb hp, if_true] at hredis
    rcases Prod.mk.inj (Option.some.inj hredis) with ⟨rfl, _⟩
    rcases hcases with ⟨_, rfl⟩ | ⟨rfl, _⟩ | ⟨_, rfl⟩
    · simp
    · exact absurd rfl hfault
    · simp
  have hsim : ∃ σ', (server env).Run Lts.anyStep State.init ls' σ' ∧ States D σ σ' := by
    refine hguard.simulate ?_ (States.refl State.init) hls
    intro l l' s s' t hl hR hok hs
    rcases step_of_step hl hR hok hs with ⟨t', hs', hR'⟩
    exact ⟨trivial, t', hs', hR'⟩
  rcases hsim with ⟨σ', hrun', hstates⟩
  refine ⟨σ', hrun', hstates.store, by rw [hstates.eq], by rw [hstates.eq], by rw [hstates.eq], ?_⟩
  intro r
  have hr := hstates.reqs r
  unfold State.answer?
  generalize σ.reqs r = o at hr ⊢
  generalize σ'.reqs r = o' at hr ⊢
  cases hr with
  | differ q q' hd hd' _ hh => cases hh <;> rfl
  | same => rfl

namespace Sample

open Doppelganger.Sample

/-- Request 1 fails the challenge. -/
def failing (name : Str) : List Label :=
  subscribed ++ score 1 name otherVector ++ [.redis 1 .none, .answer 1, .deliver 0]

end Sample

/-- It applies to a Bob who fails, and might have had another name. -/
theorem failed_answers_leave_no_trace_sample : ∃ σ',
    (server Doppelganger.Sample.config).Run Lts.anyStep State.init (Sample.failing (lit "Eve")) σ' ∧
      σ'.store =
        ((server Doppelganger.Sample.config).after (Sample.failing (lit "bob"))).store := by
  have hrun := Lts.run_after (server Doppelganger.Sample.config) (Sample.failing (lit "bob"))
    (by decide +kernel)
  have hcommits : (((server Doppelganger.Sample.config).after
      (Sample.failing (lit "bob"))).commits.all fun k =>
        !passed Doppelganger.Sample.config k.score) = true := by decide +kernel
  have hbob : Sendable (Doppelganger.Sample.verifyBody (lit "bob")) :=
    ⟨⟨lit "bob", lit "porto", Doppelganger.Sample.jwk (lit "bob")⟩,
      ⟨by decide +kernel, by decide +kernel⟩, by decide +kernel⟩
  have heve : Sendable (Doppelganger.Sample.verifyBody (lit "Eve")) :=
    ⟨⟨lit "Eve", lit "porto", Doppelganger.Sample.jwk (lit "Eve")⟩,
      ⟨by decide +kernel, by decide +kernel⟩, by decide +kernel⟩
  have hls : List.Forall₂ (Labels fun r => r = 1) (Sample.failing (lit "bob"))
      (Sample.failing (lit "Eve")) := by
    have hsame : ∀ ls, List.Forall₂ (Labels fun r => r = 1) ls ls :=
      fun ls => List.forall₂_same.mpr fun l _ => .same l
    refine List.rel_append (List.rel_append (hsame _) ?_) (hsame _)
    exact .cons (.verify 1 _ _ _ false rfl hbob heve) (hsame _)
  have hfail : ∀ k ∈ ((server Doppelganger.Sample.config).after
      (Sample.failing (lit "bob"))).commits, k.req = 1 →
        passed Doppelganger.Sample.config k.score = false := by
    intro k hk _
    simpa using List.all_eq_true.mp hcommits k hk
  rcases failed_answers_leave_no_trace hrun hls hfail with ⟨σ', hrun', hstore, _⟩
  exact ⟨σ', hrun', hstore⟩

end FailedAnswers

end Doppelganger
