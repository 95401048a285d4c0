import Doppelganger.History

/-!
# Lost replies

A Redis command can fail before the server executed it, or after. The handlers
answer both with the same 503. For every command but one this is harmless; when
the reply to a finalize script that won is lost, the session is finalized and the
request that did it is told to try again.
-/

open Text Redis

namespace Doppelganger

variable {env : Env} {l : Label} {σ σ' : State}

/-- The reply is lost to a finalize script that finds its session waiting for Bob. -/
def LosesWin (l : Label) (σ : State) : Prop :=
  ∃ r q sid form session bob score, l = .redis r .after ∧
    σ.reqs r = some ⟨q, .finalizing sid form session bob score⟩ ∧
    SessionStore.getPhase σ.store sid = some waitingForBob

/-- Every winning script's reply arrives. -/
def winsArrive : Lts.Guard State Label := fun l σ => ¬ LosesWin l σ

/-- Every winner is answered the outcome it wrote. -/
def Truthful (env : Env) (σ : State) : Prop :=
  ∀ k ∈ σ.commits, ∃ req, ∃ c ∈ σ.creations, σ.reqs k.req = some req ∧ c.sid = k.sid ∧
    req.handler.response? = some (c.response env k)

theorem truthful_step (hi : Inv env σ) (hok : winsArrive l σ) (h : step env l σ = some σ')
    (ht : Truthful env σ) : Truthful env σ' := by
  intro k hk
  have hcreations := (histories_of_step h).1
  -- winners of old keep their answer
  have hold : k ∈ σ.commits → ∃ req, ∃ c ∈ σ'.creations, σ'.reqs k.req = some req ∧
      c.sid = k.sid ∧ req.handler.response? = some (c.response env k) := by
    intro hk
    rcases ht k hk with ⟨req, c, hc, hreq, hs, hresp⟩
    rcases response_of_step h hreq hresp with ⟨handler, hreq', hresp'⟩
    exact ⟨_, c, hcreations.subset hc, hreq', hs, hresp'⟩
  rcases win_of_step h with ⟨hsame, _⟩ | ⟨k', fault, q, session, bob, e, rfl, hfault, hreq, hdb,
    hphase, rfl⟩
  · exact hold (hsame ▸ hk)
  · rcases List.mem_append.mp hk with hk | hk
    · exact hold hk
    · obtain rfl : k = k' := by simpa using hk
      -- the new winner's reply was not lost
      have hnone : fault = .none := by
        cases fault with
        | none => rfl
        | before => exact absurd rfl hfault
        | after =>
          refine absurd ⟨k.req, q, k.sid, k.form, session, bob, k.score, rfl, hreq, ?_⟩ hok
          simp [SessionStore.getPhase, Server.hget_eq hdb, hphase]
      subst hnone
      rcases hi.handlers _ _ hreq with ⟨_, ⟨c, hc, hs, rfl⟩, _⟩
      refine ⟨_, c, hcreations.subset hc, State.setReq_reqs_self _ _ _, hs, ?_⟩
      simp [Handler.response?, verifyResponse_won, answerOf]

theorem truthful_of_run {ls : List Label}
    (h : (server env).Run winsArrive (server env).init ls σ) : Inv env σ ∧ Truthful env σ := by
  refine h.invariant (P := fun σ => Inv env σ ∧ Truthful env σ) ⟨Inv.init, ?_⟩ ?_
  · intro k hk
    simp [server, State.init] at hk
  · exact fun l s t hok hs hi => ⟨hi.1.of_step hs, truthful_step hi.1 hok hs hi.2⟩

/-! ## Outcomes -/

theorem Creation.response_isPass_iff (c : Creation) (k : Commit) :
    (c.response env k).isPass ↔ passed env k.score = true := by
  by_cases hp : passed env k.score = true
  · simp only [Creation.response, hp, if_true, iff_true]
    exact passResponse_isPass _ _
  · simp only [Creation.response, hp]
    simpa using (failResponse_isFail k.score).not_isPass

theorem Creation.response_isFail_iff (c : Creation) (k : Commit) :
    (c.response env k).isFail ↔ passed env k.score = false := by
  by_cases hp : passed env k.score = true
  · simp only [Creation.response, hp, if_true]
    simpa using fun h : Response.isFail _ => h.not_isPass (passResponse_isPass k.score _)
  · simp only [Bool.not_eq_true] at hp
    simp only [Creation.response, hp, iff_true]
    exact failResponse_isFail _

/-! ## Errors -/

/-- A step of a verify request that does not win leaves store and channel alone. -/
theorem quiet_or_win_of_verify (hi : Inv env σ) (h : step env l σ = some σ') {r : ℕ}
    (hl : l.req? = some r) {sid : Str} {body : Json}
    (hreq : σ'.request? r = some (.verify sid body)) :
    (σ'.store = σ.store ∧ σ'.published = σ.published) ∨ ∃ k ∈ σ'.commits, k.req = r := by
  rcases State.request?_eq_some _ |>.mp hreq with ⟨_, hreq⟩
  cases l with
  | request _ _ _ | embed _ _ | name _ _ | answer _ =>
    have hdata := sameData_of_step rfl h
    exact Or.inl ⟨hdata.store, hdata.published⟩
  | redis r' fault =>
    obtain rfl : r' = r := by simpa [Label.req?] using hl
    rcases step_redis h with ⟨⟨q, old⟩, effect, handler, hold, hcmd, hcases⟩
    rcases request_of_step h hold with ⟨handler', hreq'⟩
    rcases Req.mk.inj (Option.some.inj (hreq'.symm.trans hreq)) with ⟨rfl, _⟩
    have hok := hi.handlers _ _ hold
    cases command_of_redis hcmd with
    | create form v s createdAt =>
      rcases hok with ⟨⟨_, hq, _⟩, _⟩
      cases hq
    | delete s => cases hok
    | won s form session bob score e hdb hphase =>
      rcases hcases with ⟨rfl, rfl⟩ | ⟨rfl, rfl⟩ | ⟨rfl, rfl⟩
      · exact Or.inr ⟨⟨r', s, form, score⟩, by simp, rfl⟩
      · exact Or.inl ⟨rfl, rfl⟩
      · exact Or.inr ⟨⟨r', s, form, score⟩, by simp, rfl⟩
    | _ =>
      left
      rcases hcases with ⟨_, rfl⟩ | ⟨_, rfl⟩ | ⟨_, rfl⟩ <;> simp
  | _ => cases hl

/-- No step of a verify request that finalized nothing changes the store or publishes anything. -/
theorem quiet_of_uncommitted {ok : Lts.Guard State Label} {ls : List Label}
    (hrun : (server env).Run ok (server env).init ls σ) {r : ℕ} {sid : Str} {body : Json}
    (hreq : σ.request? r = some (.verify sid body)) (hno : ∀ k ∈ σ.commits, k.req ≠ r) :
    ∀ ls₁ l ls₂ σ₁ σ₂, ls = ls₁ ++ l :: ls₂ → l.req? = some r →
      (server env).Run ok (server env).init ls₁ σ₁ → step env l σ₁ = some σ₂ →
      σ₂.store = σ₁.store ∧ σ₂.published = σ₁.published := by
  rintro ls₁ l ls₂ σ₁ σ₂ rfl hl hrun₁ hstep
  have hlater := later_of_run (hrun.after_step hrun₁ hstep)
  rcases request?_of_own_step hstep hl with ⟨q, hq⟩
  have hreq₂ : σ₂.request? r = some (.verify sid body) := by
    rw [hq, ← hreq, hlater.request r q hq]
  rcases quiet_or_win_of_verify (Inv.of_run hrun₁) hstep hl hreq₂ with hquiet | ⟨k, hk, hkr⟩
  · exact hquiet
  · exact absurd hkr (hno k (hlater.commits.subset hk))

/-- An answer that is not an outcome answers a request that finalized nothing. -/
theorem Truthful.uncommitted (ht : Truthful env σ) {r : ℕ} {response : Response}
    (hans : σ.answer? r = some response) (hpass : ¬ response.isPass) (hfail : ¬ response.isFail) :
    ∀ k ∈ σ.commits, k.req ≠ r := by
  rintro k hk rfl
  rcases ht k hk with ⟨req, c, _, hreq', _, hresp⟩
  rcases (State.answer?_eq_some _).mp hans with ⟨q, hdone⟩
  obtain rfl := Option.some.inj (hreq'.symm.trans hdone)
  obtain rfl := Option.some.inj hresp
  rw [c.response_isPass_iff] at hpass
  rw [c.response_isFail_iff] at hfail
  simp [hpass] at hfail

/-- As long as no winning script's reply is lost, a verify request that is answered with an error
finalized nothing, and none of its steps changed the store or published anything. -/
theorem error_answer_changes_nothing {ls : List Label}
    (hrun : (server env).Run winsArrive (server env).init ls σ) {r : ℕ} {sid : Str} {body : Json}
    {response : Response} (hreq : σ.request? r = some (.verify sid body))
    (hans : σ.answer? r = some response) (herr : response.isError) :
    (∀ k ∈ σ.commits, k.req ≠ r) ∧
    ∀ ls₁ l ls₂ σ₁ σ₂, ls = ls₁ ++ l :: ls₂ → l.req? = some r →
      (server env).Run winsArrive (server env).init ls₁ σ₁ → step env l σ₁ = some σ₂ →
      σ₂.store = σ₁.store ∧ σ₂.published = σ₁.published := by
  have hno := (truthful_of_run hrun).2.uncommitted hans
    (fun hpass => hpass.not_isError herr) (fun hfail => hfail.not_isError herr)
  exact ⟨hno, quiet_of_uncommitted hrun hreq hno⟩

/-- It applies to a request whose finalize call was never executed. -/
theorem error_answer_changes_nothing_sample :
    let σ := (server Sample.config).after
      (Sample.create ++ Sample.score 1 (lit "bob") Sample.vector ++ [.redis 1 .before, .answer 1])
    σ.answer? 1 = some storeUnavailable ∧ ∀ k ∈ σ.commits, k.req ≠ 1 := by
  intro σ
  have hans : σ.answer? 1 = some storeUnavailable := by decide +kernel
  have hreq : σ.request? 1 = some (.verify Sample.sid (Sample.verifyBody (lit "bob"))) := by
    decide +kernel
  have hrun : (server Sample.config).Run winsArrive (server Sample.config).init
      (Sample.create ++ Sample.score 1 (lit "bob") Sample.vector ++ [.redis 1 .before, .answer 1])
      σ := by
    have hany := Lts.run_after (server Sample.config) (Sample.create ++
      Sample.score 1 (lit "bob") Sample.vector ++ [.redis 1 .before, .answer 1]) (by decide +kernel)
    have hlabels : ∀ l ∈ Sample.create ++ Sample.score 1 (lit "bob") Sample.vector ++
        [Label.redis 1 .before, .answer 1], ∀ r, l ≠ .redis r .after := by
      simp [Sample.create, Sample.score]
    refine (hany.of_labels hlabels).mono ?_
    rintro l s ⟨_, hl⟩ ⟨r, _, _, _, _, _, _, rfl, _⟩
    exact hl r rfl
  exact ⟨hans, (error_answer_changes_nothing hrun hreq hans (by decide)).1⟩

/-- The reply to the winning script of request 1 is lost: it is told that the store is busy, and
its session is finalized. -/
theorem error_answer_after_commit :
    ∃ σ, (server Sample.config).Run Lts.anyStep (server Sample.config).init
        (Sample.create ++ Sample.score 1 (lit "bob") Sample.vector ++ [.redis 1 .after, .answer 1])
        σ ∧
      σ.request? 1 = some (.verify Sample.sid (Sample.verifyBody (lit "bob"))) ∧
      σ.answer? 1 = some storeUnavailable ∧ storeUnavailable.isError ∧
      (∃ k ∈ σ.commits, k.req = 1) ∧ σ.published ≠ [] ∧
      SessionStore.getPhase σ.store Sample.sid = some verified := by
  refine ⟨_, Lts.run_after _ _ (by decide +kernel), ?_, ?_, by decide, ?_, ?_, ?_⟩
  all_goals decide +kernel

end Doppelganger
