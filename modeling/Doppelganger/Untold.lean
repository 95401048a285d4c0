import Doppelganger.Expiry
import Doppelganger.Gap
import Doppelganger.StreamRuns

/-!
# EXPIRED after an answer

The stream says EXPIRED where it finds no hash, and where its own time is over. Both can
happen to a session that somebody has finalized: the hash can go before the stream has
looked, and the stream can come to its limit with the outcome still on its way. This file
states what has to hold of the schedule for EXPIRED to mean that nobody was answered: that
neither happens to a stream while it is *untold*.
-/

open Text Redis

namespace Doppelganger

variable {env : Env} {l : Label} {σ σ' : State} {i : ℕ} {st st' : Stream} {data sid : Str}

/-- The generator exists and has not come to its last event. -/
def StreamPc.following : StreamPc → Bool
  | .checkingPhase => false
  | .refused _ => false
  | .atLast => false
  | .leaving => false
  | .closed => false
  | _ => true

/-- The stream follows its session, has not yielded an outcome, and is not about to take one from its
queue. -/
structure Stream.Untold (st : Stream) : Prop where
  following : st.pc.following = true
  untaken : ∀ deadline data, st.pc ≠ .atMessage deadline data
  hungry : ∀ deadline since, st.pc = .waiting deadline since → st.queue = []

/-- The stream's fifteen minutes are over at time `now`. -/
def Stream.Over (st : Stream) (now : ℕ) : Prop :=
  ∃ deadline, st.pc.deadline? = some deadline ∧ deadline ≤ now

/-! ## What the schedule does to a session -/

/-- The time a step takes. -/
def Label.elapsed : Label → ℕ
  | .tick d => d
  | _ => 0

/-- A DELETE of the session is executed, or its hash expires. -/
inductive Removes (σ : State) (sid : Str) : Label → Prop
  | delete (r : ℕ) (fault : Fault) (q : Request) : fault ≠ .before →
      σ.reqs r = some ⟨q, .deleting sid⟩ → Removes σ sid (.redis r fault)
  | expire (d t : ℕ) (e : Entry Field) : σ.store.db (key sid) = some e → e.expiresAt = some t →
      t ≤ σ.store.now + d → Removes σ sid (.tick d)

/-- A script of a verify request finalizes the session. -/
def Wins (σ : State) (sid : Str) (l : Label) : Prop :=
  ∃ r fault q form session bob score e, l = .redis r fault ∧ fault ≠ .before ∧
    σ.reqs r = some ⟨q, .finalizing sid form session bob score⟩ ∧
    σ.store.db (key sid) = some e ∧ e.fields .phase = some waitingForBob

/-- As long as stream `i` is untold, the hash of its session stays once the session is finalized,
and the stream's time is neither over at that moment nor ends after it. -/
def outcomeStays (i : ℕ) : Lts.Guard State Label := fun l σ =>
  ∀ st, σ.streams i = some st → st.Untold → σ.winner st.sid ≠ none ∨ Wins σ st.sid l →
    ¬ Removes σ st.sid l ∧ ¬ st.Over (σ.store.now + l.elapsed)

/-- Only the clock takes time. -/
theorem now_of_step (h : step env l σ = some σ') : σ'.store.now = σ.store.now + l.elapsed := by
  cases l with
  | request _ _ _ | embed _ _ | name _ _ | answer _ =>
    rw [(sameData_of_step rfl h).store]
    rfl
  | redis r fault =>
    rcases step_redis h with ⟨_, effect, _, _, hcmd, hcases⟩
    have hnow := Generator.now_of_command (command_of_redis hcmd)
    rcases hcases with ⟨_, rfl⟩ | ⟨_, rfl⟩ | ⟨_, rfl⟩
    · exact hnow
    · rfl
    · exact hnow
  | tick d =>
    obtain rfl := step_tick h
    rfl
  | _ => rw [(sameCore_of_step rfl h).store]; rfl

/-- A hash that is there before a step and not after it was deleted or has expired. -/
theorem removes_of_step (hi : Inv env σ) (h : step env l σ = some σ') {e : Entry Field}
    (hdb : σ.store.db (key sid) = some e) (hgone : σ'.store.db (key sid) = none) :
    Removes σ sid l := by
  have hkept : σ'.store.db (key sid) ≠ σ.store.db (key sid) := by
    rw [hgone, hdb]
    simp
  cases l with
  | request _ _ _ | embed _ _ | name _ _ | answer _ =>
    exact absurd (by rw [(sameData_of_step rfl h).store]) hkept
  | tick d =>
    obtain rfl := step_tick h
    by_contra hno
    refine absurd (Server.tick_db_eq_some.mpr ⟨hdb, ?_⟩) (by rw [hgone]; simp)
    intro t ht
    by_contra hle
    exact hno (.expire d t e hdb ht (not_lt.mp hle))
  | redis r fault =>
    rcases step_redis h with ⟨⟨q, old⟩, effect, handler, hreq, hcmd, hcases⟩
    have hfault : fault ≠ .before ∧ effect.store.db (key sid) = none := by
      rcases hcases with ⟨rfl, rfl⟩ | ⟨rfl, rfl⟩ | ⟨rfl, rfl⟩
      · exact ⟨by simp, hgone⟩
      · exact absurd rfl hkept
      · exact ⟨by simp, hgone⟩
    rcases hfault with ⟨hfault, heffect⟩
    cases command_of_redis hcmd with
    | create form v s createdAt =>
      have habsent := hi.absent_of_creating hreq
      have hne : key sid ≠ key s := by
        intro heq
        rw [heq, habsent] at hdb
        cases hdb
      rw [SessionStore.create_db_ne hne, hdb] at heffect
      cases heffect
    | won s form session bob score e' hdb' _ =>
      by_cases hs : key sid = key s
      · simp [hs] at heffect
      · rw [Server.put_db_ne hs, hdb] at heffect
        cases heffect
    | delete s =>
      by_cases hs : sid = s
      · subst hs
        exact .delete r fault q hfault hreq
      · have hne : key sid ≠ key s := by simpa using hs
        rw [SessionStore.delete, Server.del_db_ne hne, hdb] at heffect
        cases heffect
    | _ =>
      rw [hdb] at heffect
      cases heffect
  | _ => exact absurd (by rw [(sameCore_of_step rfl h).store]) hkept

/-- A session gets its winner from a script, which finds the hash and leaves it there. -/
theorem wins_of_step (h : step env l σ = some σ') (hno : σ.winner sid = none)
    (hwin : σ'.winner sid ≠ none) :
    Wins σ sid l ∧ σ'.store.db (key sid) ≠ none := by
  rcases win_of_step h with ⟨hcommits, _⟩ | ⟨k, fault, q, session, bob, e, rfl, hfault, hreq, hdb,
    hphase, rfl⟩
  · refine absurd ?_ hwin
    rw [State.winner, hcommits]
    exact hno
  · -- the only commit that is new is the one of this session
    obtain rfl : k.sid = sid := by
      by_contra hne
      refine hwin (winner_eq_none_iff.mpr ?_)
      intro k' hk'
      rcases List.mem_append.mp hk' with hk' | hk'
      · exact winner_eq_none_iff.mp hno k' hk'
      · obtain rfl : k' = k := by simpa using hk'
        exact hne
    exact ⟨⟨k.req, fault, q, k.form, session, bob, k.score, e, rfl, hfault, hreq, hdb, hphase⟩,
      by simp⟩

/-! ## What a stream knows -/

/-- A stream that says EXPIRED was untold. -/
theorem untold_of_saysExpired (h : SaysExpired l σ i st) : st.Untold := by
  rcases h.2 with ⟨_, hpc | ⟨deadline, hpc⟩, _⟩ | ⟨_, deadline, hpc, _⟩ <;>
    exact ⟨by rw [hpc]; rfl, by simp [hpc], by simp [hpc]⟩

/-- A stream that is untold after its step was untold before, and has kept its limit or got one that
lies ahead; or it has just found its session. -/
theorem untold_of_moved (hf : Flow env σ) (hst : σ.streams i = some st)
    (hmoved : st.Moved σ i l st') (h : st'.Untold) :
    (st.Untold ∧ ∀ deadline, st'.pc.deadline? = some deadline →
      st.pc.deadline? = some deadline ∨ σ.store.now + l.elapsed < deadline) ∨
    (l.ofStream = true ∧ σ.store.db (key st.sid) ≠ none ∧ st'.pc.deadline? = none) := by
  have hover : ∀ {pc : StreamPc}, st'.pc = pc → pc.following = false → False := by
    intro pc hpc hno
    have hfollowing := h.following
    rw [hpc, hno] at hfollowing
    cases hfollowing
  -- at a point where it neither holds a message nor waits for one
  have huntold : ∀ {pc : StreamPc}, st.pc = pc → pc.following = true →
      (∀ deadline data, pc ≠ .atMessage deadline data) →
      (∀ deadline since, pc ≠ .waiting deadline since) → st.Untold := by
    rintro _ rfl hfollowing huntaken hwaiting
    exact ⟨hfollowing, huntaken, fun deadline since hpc => absurd hpc (hwaiting deadline since)⟩
  cases hmoved with
  | read hread =>
    cases hread with
    | refused _ _ => exact (hover rfl rfl).elim
    | opened phase hpc hphase =>
      refine Or.inr ⟨rfl, ?_, rfl⟩
      intro hnone
      simp [SessionStore.getPhase, Server.hget_of_none hnone] at hphase
    | raised _ _ _ => exact (hover rfl rfl).elim
    | final _ _ _ => exact (hover rfl rfl).elim
    | nothing hpc _ =>
      exact Or.inl ⟨huntold hpc rfl (by simp) (by simp), by simp [StreamPc.deadline?]⟩
    | keepalive deadline hpc _ =>
      refine Or.inl ⟨huntold hpc rfl (by simp) (by simp), fun d hd => Or.inl ?_⟩
      rw [hpc]
      exact hd
  | failed _ hfail =>
    rcases (Stream.fail_cases hfail).2.2 with hpc | hpc
    · exact (hover hpc rfl).elim
    · exact (hover hpc rfl).elim
  | advanced hadv =>
    left
    cases hadv with
    | retry phase hpc =>
      exact ⟨huntold hpc rfl (by simp) (by simp), by simp [Stream.yield, StreamPc.deadline?]⟩
    | connected phase hpc =>
      exact ⟨huntold hpc rfl (by simp) (by simp), by simp [Stream.yield, StreamPc.deadline?]⟩
    | check hpc => exact ⟨huntold hpc rfl (by simp) (by simp), by simp [StreamPc.deadline?]⟩
    | arm hpc =>
      refine ⟨huntold hpc rfl (by simp) (by simp), fun d hd => Or.inr ?_⟩
      obtain rfl : σ.store.now + maxStream = d := by simpa [StreamPc.deadline?] using hd
      exact Nat.lt_add_of_pos_right (by decide)
    | wait deadline hpc _ =>
      refine ⟨huntold hpc rfl (by simp) (by simp), fun d hd => Or.inl ?_⟩
      rw [hpc]
      exact hd
    | expire _ _ _ => exact (hover rfl rfl).elim
    | take deadline since data queue _ _ => exact absurd rfl (h.untaken deadline data)
    | timeout deadline since hpc hq _ =>
      refine ⟨⟨by rw [hpc]; rfl, by simp [hpc], fun _ _ _ => hq⟩, fun d hd => Or.inl ?_⟩
      rw [hpc]
      exact hd
    | goOn deadline data hpc hterm =>
      -- what it has taken is an outcome, and an outcome ends the loop
      rcases (hf.streams i st hst).taken deadline data hpc with ⟨k, _, _, rfl⟩
      rw [isTerminal_message] at hterm
      cases hterm
    | finish _ _ _ _ => exact (hover rfl rfl).elim
    | alive deadline hpc =>
      refine ⟨huntold hpc rfl (by simp) (by simp), fun d hd => Or.inl ?_⟩
      rw [hpc]
      exact hd
    | last _ => exact (hover rfl rfl).elim
    | leave _ => exact (hover rfl rfl).elim
  | closed hclose =>
    rcases (Stream.close_cases hclose).2.2 with hpc | hpc
    · exact (hover hpc rfl).elim
    · exact (hover hpc rfl).elim
  | @received w m rest _ _ =>
    refine Or.inl ⟨⟨h.following, h.untaken, fun deadline since hpc => ?_⟩, fun _ hd => Or.inl hd⟩
    have hqueue : EventHub.putNowait st.queue m.data = [] := h.hungry deadline since hpc
    unfold EventHub.putNowait at hqueue
    split_ifs at hqueue
    · simp at hqueue
    · exact hqueue
  | still _ _ => exact Or.inl ⟨h, fun _ hd => Or.inl hd⟩

/-- An untold stream of a finalized session still has time, and the outcome is there to be read. -/
def Covered (i : ℕ) (σ : State) : Prop :=
  ∀ st, σ.streams i = some st → st.Untold → σ.winner st.sid ≠ none →
    σ.store.db (key st.sid) ≠ none ∧ ¬ st.Over σ.store.now

/-- So it does not say EXPIRED. -/
theorem Covered.not_saysExpired (hc : Covered i σ) (hwin : σ.winner st.sid ≠ none) :
    ¬ SaysExpired l σ i st := by
  intro hsays
  rcases hc st hsays.1 (untold_of_saysExpired hsays) hwin with ⟨hdb, hlimit⟩
  rcases hsays.2 with ⟨_, _, hnone⟩ | ⟨_, deadline, hpc, hle⟩
  · exact hdb hnone
  · exact hlimit ⟨deadline, by rw [hpc]; rfl, hle⟩

theorem Covered.of_step (hi : Inv env σ) (hf : Flow env σ) (hok : outcomeStays i l σ)
    (h : step env l σ = some σ') (hc : Covered i σ) : Covered i σ' := by
  intro st' hst' huntold hwin
  cases hst : σ.streams i with
  | none =>
    rcases new_of_step h hst hst' with ⟨sid, w, _, rfl⟩
    cases huntold.following
  | some st =>
    rcases moved_of_step h hst with ⟨st₁, hst₁, hmoved⟩
    obtain rfl := Option.some.inj (hst'.symm.trans hst₁)
    rw [hmoved.frame.1] at hwin ⊢
    rcases untold_of_moved hf hst hmoved huntold with ⟨huntold₀, hlimit⟩ | ⟨hl, hdb, hnone⟩
    · have hbefore : σ.winner st.sid ≠ none ∨ Wins σ st.sid l := by
        by_cases hw : σ.winner st.sid = none
        · exact Or.inr (wins_of_step h hw hwin).1
        · exact Or.inl hw
      rcases hok st hst huntold₀ hbefore with ⟨hkeep, hover⟩
      constructor
      · by_cases hw : σ.winner st.sid = none
        · exact (wins_of_step h hw hwin).2
        · rcases Option.ne_none_iff_exists'.mp (hc st hst huntold₀ hw).1 with ⟨e, he⟩
          intro hgone
          exact hkeep (removes_of_step hi h he hgone)
      · rintro ⟨deadline, hd, hle⟩
        rw [now_of_step h] at hle
        rcases hlimit deadline hd with hd' | hlt
        · exact hover ⟨deadline, hd', hle⟩
        · exact absurd hle (not_le.mpr hlt)
    · rw [(sameCore_of_step hl h).store]
      refine ⟨hdb, ?_⟩
      rintro ⟨deadline, hd, _⟩
      rw [hnone] at hd
      cases hd

theorem covered_of_run {ls : List Label}
    (h : (server env).Run (outcomeStays i) (server env).init ls σ) :
    (Inv env σ ∧ Flow env σ) ∧ Covered i σ := by
  refine h.invariant (P := fun σ => (Inv env σ ∧ Flow env σ) ∧ Covered i σ)
    ⟨⟨Inv.init, Flow.init⟩, ?_⟩ ?_
  · intro st hst
    cases hst
  · intro l s t hok hs hall
    exact ⟨⟨hall.1.1.of_step hs, hall.1.2.of_step hall.1.1 hs⟩,
      hall.2.of_step hall.1.1 hall.1.2 hok hs⟩

/-! ## EXPIRED means that nobody was answered -/

/-- In a run in which the outcome stays within reach of a stream that has not been told, that stream
says EXPIRED only where no verify request of its session has been answered PASS or FAIL. -/
theorem expired_means_unanswered {ls : List Label}
    (hrun : (server env).Run (outcomeStays i) (server env).init ls σ)
    (h : step env l σ = some σ') (hem : Emits σ σ' i st data) (hexp : IsExpired data) {r : ℕ}
    {body : Json} {response : Response} (hreq : σ.request? r = some (.verify st.sid body))
    (hans : σ.answer? r = some response) : ¬ response.isPass ∧ ¬ response.isFail := by
  rcases covered_of_run hrun with ⟨⟨hi, hf⟩, hc⟩
  have hsays := saysExpired_of_emits hi hf h hem hexp
  have hnone : σ.winner st.sid = none := by
    by_contra hwin
    exact hc.not_saysExpired hwin hsays
  have herr : response.isError := by
    by_contra hne
    -- PASS and FAIL are answered to winners only
    rcases hi.won_of_answer hreq hans hne with ⟨k, hk, _, hs, _⟩
    exact winner_eq_none_iff.mp hnone k hk hs
  exact ⟨fun hpass => hpass.not_isError herr, fun hfail => hfail.not_isError herr⟩

/-- A script that wins is recorded. -/
theorem commits_of_wins (hwins : Wins σ sid l) (h : step env l σ = some σ') : σ'.commits ≠ [] := by
  rcases hwins with ⟨r, fault, q, form, session, bob, score, e, rfl, hfault, hreq, hdb, hphase⟩
  rcases step_redis h with ⟨req, effect, handler, hreq', hcmd, hcases⟩
  obtain rfl := Option.some.inj (hreq.symm.trans hreq')
  cases command_of_redis hcmd with
  | gone _ _ _ _ _ hnone =>
    rw [hdb] at hnone
    cases hnone
  | completed _ _ _ _ _ e' he' hp =>
    obtain rfl := Option.some.inj (hdb.symm.trans he')
    exact absurd hphase hp
  | won _ _ _ _ _ e' _ _ =>
    rcases hcases with ⟨_, rfl⟩ | ⟨hbefore, _⟩ | ⟨_, rfl⟩
    · simp
    · exact absurd hbefore hfault
    · simp

/-- Where nobody wins there is no outcome to lose. -/
theorem outcomeStays_of_no_win {ls : List Label} (h : (server env).Run Lts.anyStep σ ls σ')
    (hnone : σ'.commits = []) : (server env).Run (outcomeStays i) σ ls σ' := by
  induction h with
  | nil σ => exact Lts.Run.nil σ
  | cons _ hs hr ih =>
    have hempty := (later_of_run hr).commits
    rw [hnone, List.prefix_nil] at hempty
    have hempty' := (later_of_step hs).commits
    rw [hempty, List.prefix_nil] at hempty'
    refine Lts.Run.cons ?_ hs (ih hnone)
    rintro st _ _ (hwin | hwins)
    · exact absurd (by simp [State.winner, hempty']) hwin
    · exact absurd hempty (commits_of_wins hwins hs)

/-- It applies to a session that nobody finalized: the answer of request 1 could not be scored. -/
theorem expired_means_unanswered_sample :
    ∃ σ σ' st, step Sample.config (.read 0 .none) σ = some σ' ∧
      Emits σ σ' 0 st SessionStore.expiredEvent.dumps ∧
      σ.answer? 1 = some embeddingBusy ∧ ¬ embeddingBusy.isPass ∧ ¬ embeddingBusy.isFail := by
  let σ := (server Sample.config).after Sample.timedOut
  have hrun := Lts.run_after (server Sample.config) Sample.timedOut (by decide +kernel)
  have hwin : σ.commits = [] := by decide +kernel
  have hrun' : (server Sample.config).Run (outcomeStays 0) (server Sample.config).init
      Sample.timedOut σ := outcomeStays_of_no_win hrun hwin
  obtain ⟨σ', hstep⟩ : ∃ σ', step Sample.config (.read 0 .none) σ = some σ' :=
    Option.isSome_iff_exists.mp (by decide +kernel)
  let st : Stream := ⟨Sample.sid, 0, .polling 900000, [],
    [.retry, .message (connectedEvent waitingForBob).dumps]⟩
  have hst : σ.streams 0 = some st := by decide +kernel
  have hst' : (step Sample.config (.read 0 .none) σ).bind (fun τ => τ.streams 0) =
      some (st.yield (.message SessionStore.expiredEvent.dumps) .atLast) := by decide +kernel
  rw [hstep] at hst'
  have hem : Emits σ σ' 0 st SessionStore.expiredEvent.dumps := ⟨hst, _, hst', rfl⟩
  have hreq : σ.request? 1 = some (.verify st.sid (Sample.verifyBody (lit "bob"))) := by
    decide +kernel
  have hans : σ.answer? 1 = some embeddingBusy := by decide +kernel
  have hexp : IsExpired SessionStore.expiredEvent.dumps := ⟨_, Json.loads_dumps _, rfl⟩
  exact ⟨σ, σ', st, hstep, hem, hans,
    expired_means_unanswered hrun' hstep hem hexp hreq hans⟩

/-- Request 1 wins and is answered PASS while the stream is about to make its first check; the
session runs out of time, and the check says EXPIRED although the VERIFIED message is already in
the stream's queue. No message was lost. -/
theorem expired_after_pass :
    ∃ σ σ' st response, (server Sample.config).Run Lts.anyStep (server Sample.config).init
        Sample.wonAndGone σ ∧
      step Sample.config (.read 0 .none) σ = some σ' ∧
      Emits σ σ' 0 st SessionStore.expiredEvent.dumps ∧
      IsExpired SessionStore.expiredEvent.dumps ∧
      σ.request? 1 = some (.verify st.sid (Sample.verifyBody (lit "bob"))) ∧
      σ.answer? 1 = some response ∧ response.isPass ∧ st.queue.length = 1 := by
  have hrun := Lts.run_after (server Sample.config) Sample.wonAndGone (by decide +kernel)
  let σ := (server Sample.config).after Sample.wonAndGone
  obtain ⟨σ', hstep⟩ : ∃ σ', step Sample.config (.read 0 .none) σ = some σ' :=
    Option.isSome_iff_exists.mp (by decide +kernel)
  let ev := SessionStore.verifiedEvent (.str (lit "bob")) (Sample.jwk (lit "bob")) 100
  let st : Stream := ⟨Sample.sid, 0, .checking, [ev.dumps],
    [.retry, .message (connectedEvent waitingForBob).dumps]⟩
  have hst : σ.streams 0 = some st := by decide +kernel
  have hst' : (step Sample.config (.read 0 .none) σ).bind (fun τ => τ.streams 0) =
      some (st.yield (.message SessionStore.expiredEvent.dumps) .atLast) := by decide +kernel
  rw [hstep] at hst'
  have hans : σ.answer? 1 = some (passResponse 1 (Sample.jwk (lit "alice"))) := by decide +kernel
  exact ⟨σ, σ', st, _, hrun, hstep, ⟨hst, _, hst', rfl⟩, ⟨_, Json.loads_dumps _, rfl⟩,
    by decide +kernel, hans, passResponse_isPass _ _, rfl⟩

end Doppelganger
