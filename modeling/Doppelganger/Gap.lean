import Doppelganger.Delivery

/-!
# No event slips through the gap

A stream subscribes before it checks the hash, and the script writes the hash and
publishes in one step. So an outcome that the check did not see is published after
it, to a hub that lists the stream. From then on the outcome's message is in one
place at a time: on its way to the worker, in the stream's queue, or taken.
-/

open Text Redis

namespace Doppelganger

variable {env : Env} {l : Label} {σ σ' : State} {w i : ℕ} {sid : Str} {st : Stream}

/-! ## Messages in flight -/

/-- The messages of session `sid` on their way to worker `w`. -/
def State.flying (σ : State) (w : ℕ) (sid : Str) : List Message :=
  (σ.workers w).inflight.filter fun m => m.channel = channel sid

theorem winner_congr (h : σ'.commits = σ.commits) (sid : Str) : σ'.winner sid = σ.winner sid := by
  simp [State.winner, h]

theorem flying_congr (h : (σ'.workers w).inflight = (σ.workers w).inflight) (sid : Str) :
    σ'.flying w sid = σ.flying w sid := by
  simp [State.flying, h]

/-- What a step does to the messages of session `sid` on their way to worker `w`: a winner adds its
own, a delivery takes the first one, a loss drops one. -/
inductive Flight (env : Env) (w : ℕ) (sid : Str) (l : Label) (σ σ' : State) : Prop
  | announced (k : Commit) (fault : Fault) : l = .redis k.req fault → k.sid = sid →
      σ.winner sid = none → σ'.winner sid = some k →
      σ'.flying w sid =
        σ.flying w sid ++ (if (σ.workers w).listening then [k.message env] else []) →
      Flight env w sid l σ σ'
  | delivered (m : Message) (rest : List Message) : l = .deliver w →
      (σ.workers w).inflight = m :: rest → m.channel = channel sid →
      σ'.winner sid = σ.winner sid → σ.flying w sid = m :: σ'.flying w sid →
      Flight env w sid l σ σ'
  | lost (n : ℕ) : l = .lose w n → σ'.winner sid = σ.winner sid →
      (σ'.flying w sid).Sublist (σ.flying w sid) → Flight env w sid l σ σ'
  | same : (∀ m rest, l = .deliver w → (σ.workers w).inflight = m :: rest →
        m.channel ≠ channel sid) →
      σ'.winner sid = σ.winner sid → σ'.flying w sid = σ.flying w sid → Flight env w sid l σ σ'

theorem flight_of_step (hi : Inv env σ) (h : step env l σ = some σ') (w : ℕ) (sid : Str) :
    Flight env w sid l σ σ' := by
  rcases win_of_step h with ⟨hcommits, hpublished⟩ | ⟨k, fault, q, session, bob, e, rfl, _, hreq, hdb,
    hphase, rfl⟩
  · have hw := winner_congr hcommits sid
    -- a step of a worker other than `w`, or of no worker
    have hsame : (∀ m rest, l = .deliver w → (σ.workers w).inflight ≠ m :: rest) →
        (σ'.workers w).inflight = (σ.workers w).inflight → Flight env w sid l σ σ' :=
      fun hl hin => .same (fun m rest he hm => absurd hm (hl m rest he)) hw (flying_congr hin sid)
    cases l with
    | request _ _ _ | embed _ _ | name _ _ | answer _ =>
      exact hsame (by simp) (by rw [(sameData_of_step rfl h).workers])
    | tick d =>
      obtain rfl := step_tick h
      exact hsame (by simp) rfl
    | redis r fault =>
      rcases step_redis h with ⟨req, effect, handler, _, _, hcases⟩
      have hin : ∀ {τ : State}, τ.published = σ.published → τ.workers = (σ.apply effect).workers →
          τ.published = (σ.apply effect).published →
          (τ.workers w).inflight = (σ.workers w).inflight := by
        intro τ hpub hworkers hpub'
        have hnil : effect.published = [] := by
          rw [hpub, State.apply_published] at hpub'
          simpa using hpub'
        rw [hworkers, State.apply_inflight, hnil, List.append_nil, ite_self]
      rcases hcases with ⟨_, rfl⟩ | ⟨_, rfl⟩ | ⟨_, rfl⟩
      · exact hsame (by simp) (hin hpublished rfl rfl)
      · exact hsame (by simp) rfl
      · exact hsame (by simp) (hin hpublished rfl rfl)
    | stream j s v =>
      rcases step_stream h with ⟨_, rfl⟩
      exact hsame (by simp) rfl
    | read j fault =>
      rcases step_read h with ⟨_, _, _, rfl, _⟩
      exact hsame (by simp) rfl
    | close j =>
      rcases step_close h with ⟨_, _, _, _, rfl⟩
      exact hsame (by simp) rfl
    | advance j =>
      rcases step_advance h with ⟨st, _, _, _, rfl⟩
      refine hsame (by simp) ?_
      by_cases hv : w = st.worker
      · subst hv
        simp
      · simp [State.setWorker_workers_ne _ hv]
    | listen v =>
      obtain rfl := step_listen h
      refine hsame (by simp) ?_
      by_cases hv : w = v
      · subst hv
        simp
      · simp [State.setWorker_workers_ne _ hv]
    | disconnect v =>
      obtain rfl := step_disconnect h
      refine hsame (by simp) ?_
      by_cases hv : w = v
      · subst hv
        simp
      · simp [State.setWorker_workers_ne _ hv]
    | deliver v =>
      rcases step_deliver h with ⟨m, rest, hm, rfl⟩
      by_cases hv : w = v
      · subst hv
        by_cases hc : m.channel = channel sid
        -- the delivered message is the session's
        · exact .delivered m rest rfl hm hc hw (by simp [State.flying, hm, hc])
        · refine .same ?_ hw (by simp [State.flying, hm, hc])
          intro m' rest' _ hm'
          rw [hm] at hm'
          rcases List.cons.inj hm' with ⟨rfl, rfl⟩
          exact hc
      · refine hsame ?_ (by simp [State.setWorker_workers_ne _ hv])
        rintro m' rest' he
        exact absurd (Label.deliver.inj he).symm hv
    | lose v n =>
      obtain rfl := step_lose h
      by_cases hv : w = v
      · subst hv
        refine .lost n rfl hw ?_
        simp only [State.flying, State.setWorker_workers_self]
        exact (List.eraseIdx_sublist _ _).filter _
      · exact hsame (by simp) (by simp [State.setWorker_workers_ne _ hv])
  -- the script: one message more for every worker that listens
  · have hnone := (hi.waiting_iff hdb).mp hphase
    have hfly : ∀ {τ : State}, (τ.workers w).inflight =
          (if (σ.workers w).listening then (σ.workers w).inflight ++ [k.message env]
            else (σ.workers w).inflight) →
        τ.flying w sid = σ.flying w sid ++ (if (σ.workers w).listening ∧ k.sid = sid then
          [k.message env] else []) := by
      intro τ hτ
      have hc : (k.message env).channel = channel sid ↔ k.sid = sid := by
        simp [Commit.message, channel_injective.eq_iff]
      by_cases hl : (σ.workers w).listening = true <;> by_cases hs : k.sid = sid <;>
        simp [State.flying, hτ, hl, hs, hc]
    by_cases hs : k.sid = sid
    -- its own winner, the first
    · subst hs
      refine .announced k fault rfl rfl hnone ?_ ?_
      · have hnot : σ.commits.find? (fun c => c.sid = k.sid) = none := hnone
        simp [State.winner, List.find?_append, hnot]
      · rw [hfly (State.apply_inflight _ _ _)]
        simp
    · refine .same (by simp) ?_ ?_
      · simp [State.winner, List.find?_append, hs]
      · rw [hfly (State.apply_inflight _ _ _)]
        simp [hs]

/-! ## A queue is never full -/

/-- The message of a session's one winner is at most once on its way to a worker or in a queue
there. -/
structure Fits (σ : State) : Prop where
  flying : ∀ w sid, (σ.flying w sid).length ≤ (σ.winner sid).toList.length
  queued : ∀ i st, σ.streams i = some st →
    st.queue.length + (σ.flying st.worker st.sid).length ≤ (σ.winner st.sid).toList.length

/-- A delivery reaches streams of the message's session only. -/
theorem channel_of_received (hf : Flow env σ) {m : Message} {rest : List Message}
    (hst : σ.streams i = some st) (hm : (σ.workers w).inflight = m :: rest)
    (hi : i ∈ EventHub.targets (σ.workers w).hub (EventHub.sessionOfChannel m.channel)) :
    st.worker = w ∧ m.channel = channel st.sid := by
  rcases hf.flying w m (by simp [hm]) with ⟨k, _, rfl⟩
  rcases (hf.hub _ _ _).mp hi with ⟨st₁, hst₁, hsid, hworker, _⟩
  obtain rfl := Option.some.inj (hst.symm.trans hst₁)
  refine ⟨hworker, ?_⟩
  rw [hsid, Commit.message, EventHub.sessionOfChannel_channel]

/-- Only a delivery makes a queue longer, and by one message at most. -/
theorem queue_of_moved {st' : Stream} (h : st.Moved σ i l st') :
    st'.queue.length ≤ st.queue.length ∨
      (∃ w m rest, l = .deliver w ∧ (σ.workers w).inflight = m :: rest ∧
        i ∈ EventHub.targets (σ.workers w).hub (EventHub.sessionOfChannel m.channel) ∧
        st'.queue = EventHub.putNowait st.queue m.data) := by
  cases h with
  | read h => cases h <;> exact Or.inl (le_refl _)
  | failed _ h =>
    rw [(Stream.fail_cases h).1]
    exact Or.inl (le_refl _)
  | advanced h =>
    cases h with
    | take deadline since data queue _ hq => exact Or.inl (by simp [hq])
    | _ => exact Or.inl (le_refl _)
  | closed h =>
    rw [(Stream.close_cases h).1]
    exact Or.inl (le_refl _)
  | @received w m rest hm hi => exact Or.inr ⟨w, m, rest, rfl, hm, hi, rfl⟩
  | still _ _ => exact Or.inl (le_refl _)

theorem putNowait_length (queue : List Str) (data : Str) :
    (EventHub.putNowait queue data).length ≤ queue.length + 1 := by
  unfold EventHub.putNowait
  split_ifs <;> simp

theorem fits_step (hi : Inv env σ) (hf : Flow env σ) (h : step env l σ = some σ') (hfit : Fits σ) :
    Fits σ' := by
  -- what a step does to one session on one worker
  have hfly : ∀ w sid, (σ'.flying w sid).length ≤ (σ'.winner sid).toList.length := by
    intro w sid
    have hold := hfit.flying w sid
    cases flight_of_step hi h w sid with
    | announced k fault _ _ hnone hsome hnew =>
      rw [hnone] at hold
      rw [hnew, hsome, List.length_append]
      have hlen : (if (σ.workers w).listening then [k.message env] else []).length ≤ 1 := by
        split_ifs <;> simp
      simp only [Option.toList_none, List.length_nil, Option.toList_some, List.length_singleton]
        at hold ⊢
      omega
    | delivered m rest _ _ _ hw hnew =>
      rw [hnew, List.length_cons] at hold
      rw [hw]
      omega
    | lost n _ hw hsub =>
      rw [hw]
      exact hsub.length_le.trans hold
    | same _ hw hnew => rwa [hw, hnew]
  refine ⟨hfly, ?_⟩
  intro i st' hst'
  cases hst : σ.streams i with
  | none =>
    rcases new_of_step h hst hst' with ⟨sid, w, _, rfl⟩
    simpa [Stream.new] using hfly w sid
  | some st =>
    rcases moved_of_step h hst with ⟨st₁, hst₁, hmoved⟩
    obtain rfl := Option.some.inj (hst'.symm.trans hst₁)
    rcases hmoved.frame with ⟨hsid, hworker⟩
    have hold := hfit.queued i st hst
    rw [hsid, hworker]
    rcases queue_of_moved hmoved with hq | ⟨w, m, rest, rfl, hm, htarget, hq⟩
    · -- the queue did not grow
      cases flight_of_step hi h st.worker st.sid with
      | announced k fault _ _ hnone hsome hnew =>
        rw [hnone] at hold
        rw [hnew, hsome, List.length_append]
        have hlen : (if (σ.workers st.worker).listening then [k.message env] else []).length ≤ 1 := by
          split_ifs <;> simp
        simp only [Option.toList_none, List.length_nil, Option.toList_some, List.length_singleton]
          at hold ⊢
        omega
      | delivered m rest _ _ _ hw hnew =>
        rw [hnew, List.length_cons] at hold
        rw [hw]
        omega
      | lost n _ hw hsub =>
        have := hsub.length_le
        rw [hw]
        omega
      | same _ hw hnew =>
        rw [hw, hnew]
        omega
    · -- it got the message that left the flight
      rcases channel_of_received hf hst hm htarget with ⟨hw', hc⟩
      subst hw'
      have hlen := putNowait_length st.queue m.data
      rw [← hq] at hlen
      cases flight_of_step hi h st.worker st.sid with
      | announced k fault he => cases he
      | delivered m' rest' _ _ _ hw hnew =>
        rw [hnew, List.length_cons] at hold
        rw [hw]
        omega
      | lost n he => cases he
      | same hne _ _ => exact absurd hc (hne m rest rfl hm)

theorem fits_of_run {ok : Lts.Guard State Label} {ls : List Label}
    (h : (server env).Run ok (server env).init ls σ) : (Inv env σ ∧ Flow env σ) ∧ Fits σ := by
  refine h.invariant (P := fun σ => (Inv env σ ∧ Flow env σ) ∧ Fits σ)
    ⟨⟨Inv.init, Flow.init⟩, ?_, ?_⟩ ?_
  · simp [server, State.init, State.flying]
  · simp [server, State.init]
  · intro l s t _ hs hall
    exact ⟨⟨hall.1.1.of_step hs, hall.1.2.of_step hall.1.1 hs⟩,
      fits_step hall.1.1 hall.1.2 hs hall.2⟩

/-! ## One place at a time -/

/-- Past the first check, and not over. -/
def StreamPc.pastCheck : StreamPc → Bool
  | .armed => true
  | .looping _ => true
  | .waiting _ _ => true
  | .polling _ => true
  | .atMessage _ _ => true
  | .atKeepalive _ => true
  | .atLast => true
  | _ => false

/-- The stream has taken `data` from its queue and is about to end with it. -/
def Stream.Taken (st : Stream) (data : Str) : Prop :=
  (∃ deadline, st.pc = .atMessage deadline data) ∧ ∃ before, st.out = before ++ [.message data]

/-- The stream has taken nothing from its queue yet. -/
def Stream.NothingTaken (st : Stream) : Prop := ∀ deadline data, st.pc ≠ .atMessage deadline data

/-- Where the message `m` of the session's outcome is: on its way, in the queue, or taken; in each
case once, and nowhere else. -/
inductive Place (flying : List Message) (st : Stream) (m : Message) : Prop
  | inFlight : flying = [m] → st.queue = [] → st.NothingTaken → Place flying st m
  | inQueue : flying = [] → st.queue = [m.data] → st.NothingTaken → Place flying st m
  | taken : flying = [] → st.queue = [] → st.Taken m.data → Place flying st m

/-- What holds of stream `i` of session `sid` on worker `w` from its first check on. -/
structure Tracked (env : Env) (i : ℕ) (sid : Str) (w : ℕ) (σ : State) : Prop where
  listening : (σ.workers w).listening = true
  stream : ∃ st, σ.streams i = some st ∧ st.sid = sid ∧ st.worker = w ∧
    (st.pc.pastCheck = true ∨ st.pc = .leaving ∨ st.pc = .closed) ∧
    (st.pc.pastCheck = true →
      (σ.winner sid = none ∧ σ.flying w sid = [] ∧ st.queue = [] ∧ st.NothingTaken) ∨
      ∃ k, σ.winner sid = some k ∧ Place (σ.flying w sid) st (k.message env))

theorem pastCheck_subscribed {pc : StreamPc} (h : pc.pastCheck = true) : pc.subscribed = true := by
  cases pc <;> first | rfl | cases h

/-- An outcome ends the stream that yields it. -/
theorem isTerminal_message (env : Env) (k : Commit) :
    isTerminal (k.message env).data = some true := by
  have hv : verified ∈ terminalEvents := by decide
  have hf : failed ∈ terminalEvents := by decide
  by_cases hp : passed env k.score = true
  · simp only [Commit.message, event, hp, if_true]
    exact isTerminal_dumps rfl hv
  · simp only [Commit.message, event, hp]
    exact isTerminal_dumps rfl hf

/-- A stream's own step takes the message out of its queue, or leaves it where it is. -/
theorem place_of_own_step {flying : List Message} {st' : Stream} {k : Commit}
    (h : Place flying st (k.message env)) (hmoved : st.Moved σ i l st')
    (hl : ∀ w, l ≠ .deliver w) (hpast : st.pc.pastCheck = true)
    (hpast' : st'.pc.pastCheck = true) : Place flying st' (k.message env) := by
  have hstay : st'.queue = st.queue → st.NothingTaken → st'.NothingTaken →
      Place flying st' (k.message env) := by
    intro hq hnothing hnothing'
    cases h with
    | inFlight hf hempty _ => exact .inFlight hf (hq.trans hempty) hnothing'
    | inQueue hf hfull _ => exact .inQueue hf (hq.trans hfull) hnothing'
    | taken _ _ ht =>
      rcases ht with ⟨⟨deadline, hpc⟩, _⟩
      exact absurd hpc (hnothing deadline _)
  cases hmoved with
  | read hread =>
    cases hread with
    | refused hpc _ => simp [hpc, StreamPc.pastCheck] at hpast
    | opened phase hpc _ => simp [hpc, StreamPc.pastCheck] at hpast
    | nothing hpc _ => simp [hpc, StreamPc.pastCheck] at hpast
    | raised e hpc _ => simp [StreamPc.pastCheck] at hpast'
    | final ev hpc _ =>
      rcases hpc with hpc | ⟨deadline, hpc⟩
      · simp [hpc, StreamPc.pastCheck] at hpast
      · exact hstay rfl (by simp [Stream.NothingTaken, hpc]) (by simp [Stream.NothingTaken])
    | keepalive deadline hpc _ =>
      exact hstay rfl (by simp [Stream.NothingTaken, hpc]) (by simp [Stream.NothingTaken])
  | failed _ hfail =>
    rcases Stream.fail_cases hfail with ⟨_, _, hpc⟩
    rcases hpc with hpc | hpc <;> simp [hpc, StreamPc.pastCheck] at hpast'
  | closed hclose =>
    rcases Stream.close_cases hclose with ⟨_, _, hpc⟩
    rcases hpc with hpc | hpc <;> simp [hpc, StreamPc.pastCheck] at hpast'
  | received _ _ => exact absurd rfl (hl _)
  | still _ _ => exact h
  | advanced hadv =>
    cases hadv with
    | retry _ hpc => simp [hpc, StreamPc.pastCheck] at hpast
    | connected _ hpc => simp [hpc, StreamPc.pastCheck] at hpast
    | check hpc => simp [hpc, StreamPc.pastCheck] at hpast
    | leave hpc => simp [hpc, StreamPc.pastCheck] at hpast
    | last _ => simp [StreamPc.pastCheck] at hpast'
    | finish _ _ _ _ => simp [StreamPc.pastCheck] at hpast'
    | arm hpc => exact hstay rfl (by simp [Stream.NothingTaken, hpc]) (by simp [Stream.NothingTaken])
    | wait _ hpc _ =>
      exact hstay rfl (by simp [Stream.NothingTaken, hpc]) (by simp [Stream.NothingTaken])
    | expire _ hpc _ =>
      exact hstay rfl (by simp [Stream.NothingTaken, hpc]) (by simp [Stream.NothingTaken])
    | timeout _ _ hpc _ _ =>
      exact hstay rfl (by simp [Stream.NothingTaken, hpc]) (by simp [Stream.NothingTaken])
    | alive _ hpc =>
      exact hstay rfl (by simp [Stream.NothingTaken, hpc]) (by simp [Stream.NothingTaken])
    | take deadline since data queue hpc hq =>
      -- what is taken is the outcome's message
      cases h with
      | inFlight _ hempty _ => simp [hq] at hempty
      | taken _ hempty _ => simp [hq] at hempty
      | inQueue hf hfull _ =>
        rw [hq] at hfull
        rcases List.cons.inj hfull with ⟨rfl, rfl⟩
        exact .taken hf rfl ⟨⟨deadline, rfl⟩, st.out, rfl⟩
    | goOn deadline data hpc hterm =>
      -- an outcome is terminal, so the stream does not go on after it
      cases h with
      | inFlight _ _ hnothing => exact absurd hpc (hnothing deadline data)
      | inQueue _ _ hnothing => exact absurd hpc (hnothing deadline data)
      | taken _ _ ht =>
        rcases ht with ⟨⟨deadline', hpc'⟩, _⟩
        rw [hpc] at hpc'
        rcases StreamPc.atMessage.inj hpc' with ⟨_, rfl⟩
        rw [isTerminal_message] at hterm
        cases hterm

/-- Before there is an outcome, a stream's own steps take nothing. -/
theorem nothing_of_own_step {st' : Stream} (hempty : st.queue = []) (hnothing : st.NothingTaken)
    (hmoved : st.Moved σ i l st') (hl : ∀ w, l ≠ .deliver w) (hpast' : st'.pc.pastCheck = true) :
    st'.queue = [] ∧ st'.NothingTaken := by
  cases hmoved with
  | read hread =>
    cases hread <;> exact ⟨hempty, by simp [Stream.NothingTaken]⟩
  | failed _ hfail =>
    rcases Stream.fail_cases hfail with ⟨_, _, hpc⟩
    rcases hpc with hpc | hpc <;> simp [hpc, StreamPc.pastCheck] at hpast'
  | closed hclose =>
    rcases Stream.close_cases hclose with ⟨_, _, hpc⟩
    rcases hpc with hpc | hpc <;> simp [hpc, StreamPc.pastCheck] at hpast'
  | received _ _ => exact absurd rfl (hl _)
  | still _ _ => exact ⟨hempty, hnothing⟩
  | advanced hadv =>
    cases hadv with
    | take deadline since data queue _ hq => simp [hempty] at hq
    | _ => exact ⟨hempty, by simp [Stream.NothingTaken]⟩

/-- A stream that is past its check stays past it, or ends. -/
theorem pastCheck_of_moved {st' : Stream} (hmoved : st.Moved σ i l st')
    (h : st.pc.pastCheck = true ∨ st.pc = .leaving ∨ st.pc = .closed) :
    (st'.pc.pastCheck = true ∨ st'.pc = .leaving ∨ st'.pc = .closed) ∧
      (st'.pc.pastCheck = true → st.pc.pastCheck = true) := by
  have hnot : ∀ pc, st.pc = pc → pc.pastCheck = false → pc ≠ .leaving → pc ≠ .closed → False := by
    rintro pc rfl hfalse hleaving hclosed
    rcases h with h | h | h
    · simp [hfalse] at h
    · exact hleaving h
    · exact hclosed h
  have hpast : ∀ pc, st.pc = pc → pc ≠ .leaving → pc ≠ .closed → st.pc.pastCheck = true := by
    rintro pc rfl hleaving hclosed
    rcases h with h | h | h
    · exact h
    · exact absurd h hleaving
    · exact absurd h hclosed
  cases hmoved with
  | read hread =>
    cases hread with
    | refused hpc _ => exact (hnot _ hpc rfl (by simp) (by simp)).elim
    | opened phase hpc _ => exact (hnot _ hpc rfl (by simp) (by simp)).elim
    | nothing hpc _ => exact (hnot _ hpc rfl (by simp) (by simp)).elim
    | raised e _ _ => exact ⟨Or.inr (Or.inl rfl), by simp [StreamPc.pastCheck]⟩
    | final ev hpc _ =>
      rcases hpc with hpc | ⟨deadline, hpc⟩
      · exact (hnot _ hpc rfl (by simp) (by simp)).elim
      · exact ⟨Or.inl rfl, fun _ => hpast _ hpc (by simp) (by simp)⟩
    | keepalive deadline hpc _ => exact ⟨Or.inl rfl, fun _ => hpast _ hpc (by simp) (by simp)⟩
  | failed _ hfail =>
    rcases Stream.fail_cases hfail with ⟨_, _, hpc⟩
    rcases hpc with hpc | hpc
    · exfalso
      cases hpc₀ : st.pc <;> simp [Stream.fail, hpc₀] at hfail
      · exact hnot _ hpc₀ rfl (by simp) (by simp)
      · exact hnot _ hpc₀ rfl (by simp) (by simp)
      · subst hfail
        cases hpc
    · exact ⟨Or.inr (Or.inl hpc), by simp [hpc, StreamPc.pastCheck]⟩
  | closed hclose =>
    rcases Stream.close_cases hclose with ⟨_, _, hpc⟩
    rcases hpc with hpc | hpc
    · exact ⟨Or.inr (Or.inr hpc), by simp [hpc, StreamPc.pastCheck]⟩
    · exact ⟨Or.inr (Or.inl hpc), by simp [hpc, StreamPc.pastCheck]⟩
  | received _ _ => exact ⟨h, id⟩
  | still _ _ => exact ⟨h, id⟩
  | advanced hadv =>
    cases hadv with
    | retry _ hpc => exact (hnot _ hpc rfl (by simp) (by simp)).elim
    | connected _ hpc => exact (hnot _ hpc rfl (by simp) (by simp)).elim
    | check hpc => exact (hnot _ hpc rfl (by simp) (by simp)).elim
    | arm hpc => exact ⟨Or.inl rfl, fun _ => hpast _ hpc (by simp) (by simp)⟩
    | wait _ hpc _ => exact ⟨Or.inl rfl, fun _ => hpast _ hpc (by simp) (by simp)⟩
    | expire _ hpc _ => exact ⟨Or.inl rfl, fun _ => hpast _ hpc (by simp) (by simp)⟩
    | take _ _ _ _ hpc _ => exact ⟨Or.inl rfl, fun _ => hpast _ hpc (by simp) (by simp)⟩
    | timeout _ _ hpc _ _ => exact ⟨Or.inl rfl, fun _ => hpast _ hpc (by simp) (by simp)⟩
    | goOn _ _ hpc _ => exact ⟨Or.inl rfl, fun _ => hpast _ hpc (by simp) (by simp)⟩
    | alive _ hpc => exact ⟨Or.inl rfl, fun _ => hpast _ hpc (by simp) (by simp)⟩
    | finish _ _ _ _ => exact ⟨Or.inr (Or.inl rfl), by simp [StreamPc.pastCheck]⟩
    | last _ => exact ⟨Or.inr (Or.inl rfl), by simp [StreamPc.pastCheck]⟩
    | leave _ => exact ⟨Or.inr (Or.inr rfl), by simp [StreamPc.pastCheck]⟩

/-- The listener of worker `w` keeps its connection, and no message to it is lost. -/
def connected (w : ℕ) : Lts.Guard State Label := fun l _ =>
  l ≠ .disconnect w ∧ ∀ n, l ≠ .lose w n

theorem listening_of_step (hok : connected w l σ) (h : step env l σ = some σ')
    (hl : (σ.workers w).listening = true) : (σ'.workers w).listening = true := by
  have hset : ∀ {v : ℕ} {k : Worker}, (v = w → k.listening = true) →
      ((σ.setWorker v k).workers w).listening = true := by
    intro v k hk
    by_cases hv : w = v
    · subst hv
      simpa using hk rfl
    · rwa [State.setWorker_workers_ne _ hv]
  cases l with
  | disconnect v =>
    obtain rfl := step_disconnect h
    exact hset fun hv => absurd (by rw [hv]) hok.1
  | listen v =>
    obtain rfl := step_listen h
    exact hset fun _ => rfl
  | lose v n =>
    obtain rfl := step_lose h
    exact hset fun hv => absurd (by rw [hv]) (hok.2 n)
  | deliver v =>
    rcases step_deliver h with ⟨m, rest, _, rfl⟩
    by_cases hv : w = v
    · subst hv
      simpa using hl
    · simpa [State.setWorker_workers_ne _ hv] using hl
  | advance j =>
    rcases step_advance h with ⟨st, _, _, _, rfl⟩
    exact hset fun hv => by rw [hv]; exact hl
  | request _ _ _ | embed _ _ | name _ _ | answer _ => rwa [(sameData_of_step rfl h).workers]
  | redis r fault =>
    obtain ⟨_, _, _, _, _, ⟨_, rfl⟩ | ⟨_, rfl⟩ | ⟨_, rfl⟩⟩ := step_redis h <;> exact hl
  | tick d =>
    obtain rfl := step_tick h
    exact hl
  | stream j s v =>
    rcases step_stream h with ⟨_, rfl⟩
    exact hl
  | read j fault =>
    rcases step_read h with ⟨_, _, _, rfl, _⟩
    exact hl
  | close j =>
    rcases step_close h with ⟨_, _, _, _, rfl⟩
    exact hl

theorem tracked_step (hi : Inv env σ) (hf : Flow env σ) (hok : connected w l σ)
    (h : step env l σ = some σ') (ht : Tracked env i sid w σ) : Tracked env i sid w σ' := by
  refine ⟨listening_of_step hok h ht.listening, ?_⟩
  rcases ht.stream with ⟨st, hst, hsid, hworker, hpc, hplace⟩
  rcases moved_of_step h hst with ⟨st', hst', hmoved⟩
  rcases hmoved.frame with ⟨hsid', hworker'⟩
  rcases pastCheck_of_moved hmoved hpc with ⟨hpc', hback⟩
  refine ⟨st', hst', hsid'.trans hsid, hworker'.trans hworker, hpc', ?_⟩
  intro hpast'
  have hpast := hback hpast'
  have hplace := hplace hpast
  cases flight_of_step hi h w sid with
  | announced k fault he hs hnone hsome hnew =>
    -- the outcome is published: the stream is subscribed and its worker listens
    subst he
    cases hmoved with
    | still _ _ =>
      rcases hplace with ⟨_, hfly, hempty, hnothing⟩ | ⟨k', hw, _⟩
      · refine Or.inr ⟨k, hsome, .inFlight ?_ hempty hnothing⟩
        rw [hnew, hfly, ht.listening]
        rfl
      · rw [hnone] at hw
        cases hw
  | delivered m rest he hm hc hw hnew =>
    -- the hub lists the stream, so the message reaches it
    subst he
    rw [hw]
    have htarget : i ∈ EventHub.targets (σ.workers w).hub
        (EventHub.sessionOfChannel m.channel) := by
      rw [hc, EventHub.sessionOfChannel_channel]
      exact (hf.hub w sid i).mpr ⟨st, hst, hsid, hworker, pastCheck_subscribed hpast⟩
    rcases hplace with ⟨_, hfly, _⟩ | ⟨k, hk, hplace⟩
    · rw [hfly] at hnew
      cases hnew
    · refine Or.inr ⟨k, hk, ?_⟩
      cases hplace with
      | inQueue hfly _ _ =>
        rw [hfly] at hnew
        cases hnew
      | taken hfly _ _ =>
        rw [hfly] at hnew
        cases hnew
      | inFlight hfly hempty hnothing =>
        rw [hfly] at hnew
        rcases List.cons.inj hnew with ⟨rfl, hrest⟩
        cases hmoved with
        | received hm' _ =>
          rw [hm] at hm'
          rcases List.cons.inj hm' with ⟨rfl, _⟩
          exact .inQueue hrest.symm (by simp [hempty, EventHub.putNowait, queueSize]) hnothing
        | still _ hnot => exact absurd htarget (hnot w _ rest rfl hm)
  | lost n he _ _ => exact absurd he (hok.2 n)
  | same hne hw hnew =>
    rw [hw, hnew]
    by_cases hl : ∃ v, l = .deliver v
    · -- a delivery of another session or worker does not reach the stream
      rcases hl with ⟨v, rfl⟩
      cases hmoved with
      | still _ _ => exact hplace
      | received hm hi' =>
        exfalso
        rcases channel_of_received hf hst hm hi' with ⟨rfl, hc⟩
        subst hworker
        exact hne _ _ rfl hm (hsid ▸ hc)
    · have hl : ∀ v, l ≠ .deliver v := fun v he => hl ⟨v, he⟩
      rcases hplace with ⟨hnone, hfly, hempty, hnothing⟩ | ⟨k, hk, hplace⟩
      · rcases nothing_of_own_step hempty hnothing hmoved hl hpast' with ⟨hempty', hnothing'⟩
        exact Or.inl ⟨hnone, hfly, hempty', hnothing'⟩
      · exact Or.inr ⟨k, hk, place_of_own_step hplace hmoved hl hpast hpast'⟩

/-- A first check that finds nothing has missed nothing. -/
theorem tracked_of_check (hi : Inv env σ) (hf : Flow env σ) (hst : σ.streams i = some st)
    (hpc : st.pc = .checking) (hl : (σ.workers st.worker).listening = true)
    (h : step env (.read i .none) σ = some σ') {st' : Stream} (hst' : σ'.streams i = some st')
    (harmed : st'.pc = .armed) :
    (∀ k ∈ σ'.commits, k.sid ≠ st.sid) ∧ Tracked env i st.sid st.worker σ' := by
  rcases step_read h with ⟨st₀, st₁, hst₀, hσ', hcases⟩
  obtain rfl := Option.some.inj (hst.symm.trans hst₀)
  subst hσ'
  rw [State.setStream_streams_self] at hst'
  obtain rfl := Option.some.inj hst'
  have hread : st.Read σ.store st₁ := by
    rcases hcases with ⟨_, hread⟩ | ⟨hne, _⟩
    · exact Stream.read_of_redis hread
    · exact absurd rfl hne
  -- the hash is there and waits for Bob, so there is no winner yet
  have hnone : σ.winner st.sid = none := by
    rcases terminalEvent_cases hi st.sid with ⟨_, ht⟩ | ⟨_, _, hw, _⟩ |
      ⟨_, k, _, _, ⟨_, ht⟩ | ⟨ev, ht, _⟩⟩
    · cases hread <;> simp_all
    · exact hw
    · cases hread <;> simp_all
    · cases hread <;> simp_all
  have hno := winner_eq_none_iff.mp hnone
  have hfly : σ.flying st.worker st.sid = [] := by
    refine List.filter_eq_nil_iff.mpr ?_
    intro m hm
    rcases hf.flying _ m hm with ⟨k, hk, rfl⟩
    simpa [Commit.message, channel_injective.eq_iff] using hno k hk
  have hempty : st.queue = [] := by
    refine List.eq_nil_iff_forall_not_mem.mpr ?_
    intro data hd
    rcases (hf.streams i st hst).queued data hd with ⟨k, hk, hs, _⟩
    exact hno k hk hs
  have hst₁ : st₁ = { st with pc := .armed } := by
    cases hread <;> simp_all
  subst hst₁
  refine ⟨hno, hl, _, State.setStream_streams_self _ _ _, rfl, rfl, Or.inl rfl, fun _ => ?_⟩
  exact Or.inl ⟨hnone, hfly, hempty, by simp [Stream.NothingTaken]⟩

/-- A stream that has yielded an outcome yields nothing more. -/
theorem out_of_taken {data : Str} (hterm : isTerminal data = some true) {st₀ : Stream}
    {ok : Lts.Guard State Label} {ls : List Label} (hrun : (server env).Run ok σ ls σ')
    (hst : σ.streams i = some st)
    (hpc : (∃ deadline, st.pc = .atMessage deadline data) ∨ st.pc = .leaving ∨ st.pc = .closed)
    (hout : st.out = st₀.out) : ∃ st', σ'.streams i = some st' ∧ st'.out = st₀.out := by
  have hinv : ∃ st', σ'.streams i = some st' ∧ st'.out = st₀.out ∧
      ((∃ deadline, st'.pc = .atMessage deadline data) ∨ st'.pc = .leaving ∨
        st'.pc = .closed) := by
    refine hrun.preserves (P := fun σ => ∃ st', σ.streams i = some st' ∧ st'.out = st₀.out ∧
      ((∃ deadline, st'.pc = .atMessage deadline data) ∨ st'.pc = .leaving ∨
        st'.pc = .closed)) ?_ ⟨st, hst, hout, hpc⟩
    rintro l s t _ hs ⟨st₁, hst₁, hout₁, hpc₁⟩
    rcases moved_of_step hs hst₁ with ⟨st₂, hst₂, hmoved⟩
    refine ⟨st₂, hst₂, ?_⟩
    cases hmoved with
    | read hread =>
      -- a stream that reads is at a check, and this one is past its last
      rcases hpc₁ with ⟨_, hpc₁⟩ | hpc₁ | hpc₁ <;> cases hread <;> simp_all
    | failed _ hfail =>
      rcases hpc₁ with ⟨_, hpc₁⟩ | hpc₁ | hpc₁ <;> simp [Stream.fail, hpc₁] at hfail
    | closed hclose =>
      rcases Stream.close_cases hclose with ⟨heq, _, hpc₂⟩
      refine ⟨by rw [heq]; exact hout₁, ?_⟩
      rcases hpc₂ with hpc₂ | hpc₂
      · exact Or.inr (Or.inr hpc₂)
      · exact Or.inr (Or.inl hpc₂)
    | received _ _ => exact ⟨hout₁, hpc₁⟩
    | still _ _ => exact ⟨hout₁, hpc₁⟩
    | advanced hadv =>
      cases hadv with
      | finish _ _ _ _ => exact ⟨hout₁, Or.inr (Or.inl rfl)⟩
      | leave _ => exact ⟨hout₁, Or.inr (Or.inr rfl)⟩
      | goOn deadline data' hpc₂ hterm' =>
        exfalso
        rw [hpc₂] at hpc₁
        rcases hpc₁ with ⟨_, hpc₁⟩ | hpc₁ | hpc₁
        · rcases StreamPc.atMessage.inj hpc₁ with ⟨_, rfl⟩
          rw [hterm] at hterm'
          cases hterm'
        · cases hpc₁
        · cases hpc₁
      | _ => simp_all
  rcases hinv with ⟨st', hst', hout', _⟩
  exact ⟨st', hst', hout'⟩

/-- A stream makes its first check, with its worker's listener subscribed before and connected from
then on, and the check finds nothing. Then the session was not finalized before; and in every state
reached while the stream is not over, if the session has been finalized, the message of its outcome
is in exactly one place: on its way to the worker, in the stream's queue, or taken by the stream,
which yields nothing after it. No queue ever holds more than one message, so none is dropped, and a
delivery reaches streams of its own session only. -/
theorem no_event_lost_in_gap {ls₁ ls₂ : List Label} {σ₁ σ₂ σ₃ : State} {st₂ : Stream}
    (hrun₁ : (server env).Run Lts.anyStep (server env).init ls₁ σ₁)
    (hst : σ₁.streams i = some st) (hpc : st.pc = .checking)
    (hlisten : (σ₁.workers st.worker).listening = true)
    (hcheck : step env (.read i .none) σ₁ = some σ₂)
    (hst₂ : σ₂.streams i = some st₂) (harmed : st₂.pc = .armed)
    (hrun₂ : (server env).Run (connected st.worker) σ₂ ls₂ σ₃) :
    (∀ k ∈ σ₂.commits, k.sid ≠ st.sid) ∧
    (∀ st₃ k, σ₃.streams i = some st₃ → st₃.pc.pastCheck = true → k ∈ σ₃.commits →
      k.sid = st.sid →
      Place (σ₃.flying st.worker st.sid) st₃ (k.message env) ∧
      (st₃.Taken (k.message env).data → ∀ ls σ₄, (server env).Run Lts.anyStep σ₃ ls σ₄ →
        ∃ st₄, σ₄.streams i = some st₄ ∧ st₄.out = st₃.out)) ∧
    (∀ j st', σ₃.streams j = some st' → st'.queue.length ≤ 1) ∧
    (∀ w m rest j st', (σ₃.workers w).inflight = m :: rest → σ₃.streams j = some st' →
      j ∈ EventHub.targets (σ₃.workers w).hub (EventHub.sessionOfChannel m.channel) →
      m.channel = channel st'.sid) := by
  rcases fits_of_run hrun₁ with ⟨⟨hi₁, hf₁⟩, hfit₁⟩
  rcases tracked_of_check hi₁ hf₁ hst hpc hlisten hcheck hst₂ harmed with ⟨hno, htracked₂⟩
  have hi₂ := hi₁.of_step hcheck
  have hf₂ := hf₁.of_step hi₁ hcheck
  have hfit₂ := fits_step hi₁ hf₁ hcheck hfit₁
  have hall : ((Inv env σ₃ ∧ Flow env σ₃) ∧ Fits σ₃) ∧ Tracked env i st.sid st.worker σ₃ := by
    refine hrun₂.preserves (P := fun σ => ((Inv env σ ∧ Flow env σ) ∧ Fits σ) ∧
      Tracked env i st.sid st.worker σ) ?_ ⟨⟨⟨hi₂, hf₂⟩, hfit₂⟩, htracked₂⟩
    rintro l s t hok hs ⟨⟨⟨hi, hf⟩, hfit⟩, ht⟩
    exact ⟨⟨⟨hi.of_step hs, hf.of_step hi hs⟩, fits_step hi hf hs hfit⟩,
      tracked_step hi hf hok hs ht⟩
  rcases hall with ⟨⟨⟨hi₃, hf₃⟩, hfit₃⟩, htracked₃⟩
  refine ⟨hno, ?_, ?_, ?_⟩
  · intro st₃ k hst₃ hpast hk hs
    rcases htracked₃.stream with ⟨st₃', hst₃', _, _, _, hplace⟩
    obtain rfl := Option.some.inj (hst₃.symm.trans hst₃')
    have hwinner : σ₃.winner st.sid = some k := hs ▸ hi₃.winner_of_mem hk
    constructor
    · rcases hplace hpast with ⟨hnone, _⟩ | ⟨k', hk', hplace⟩
      · rw [hwinner] at hnone
        cases hnone
      · rw [hwinner] at hk'
        obtain rfl := Option.some.inj hk'
        exact hplace
    · rintro ⟨hpc₃, _⟩ ls σ₄ hrun
      exact out_of_taken (isTerminal_message env k) hrun hst₃ (Or.inl hpc₃) rfl
  · intro j st' hst'
    have hq := hfit₃.queued j st' hst'
    have hone : (σ₃.winner st'.sid).toList.length ≤ 1 := by cases σ₃.winner st'.sid <;> simp
    omega
  · intro w m rest j st' hm hst' htarget
    exact (channel_of_received hf₃ hst' hm htarget).2

/-- It applies to a stream whose session is finalized while it waits: the message is delivered and
taken. -/
theorem no_event_lost_in_gap_sample :
    let σ := (server Sample.config).after Sample.delivered
    ∃ st k, σ.streams 0 = some st ∧ k ∈ σ.commits ∧
      Place (σ.flying 0 Sample.sid) st (k.message Sample.config) ∧
      st.Taken (k.message Sample.config).data := by
  intro σ
  let M := server Sample.config
  let rest : List Label := [.advance 0, .advance 0] ++ Sample.score 1 (lit "bob") Sample.vector ++
    [.redis 1 .none, .answer 1, .deliver 0, .advance 0]
  have hrun₁ := M.run_after Sample.subscribed (by decide +kernel)
  have hrun : M.Run Lts.anyStep M.init (Sample.subscribed ++ .read 0 .none :: rest) σ :=
    M.run_after Sample.delivered (by decide +kernel)
  let opened : List Chunk := [.retry, .message (connectedEvent waitingForBob).dumps]
  have hst : (M.after Sample.subscribed).streams 0 =
      some ⟨Sample.sid, 0, .checking, [], opened⟩ := by
    decide +kernel
  -- the first check
  have hsome : (step Sample.config (.read 0 .none) (M.after Sample.subscribed)).map
      (fun σ₂ => σ₂.streams 0) = some (some ⟨Sample.sid, 0, .armed, [], opened⟩) := by
    decide +kernel
  rcases Option.map_eq_some_iff.mp hsome with ⟨σ₂, hcheck, hst₂⟩
  -- the listener stays connected afterwards
  have hrun₂ : M.Run (connected 0) σ₂ rest σ := by
    have hall : ∀ l ∈ rest, l ≠ .disconnect 0 ∧ ∀ n, l ≠ .lose 0 n := by
      simp [rest, Sample.score]
    exact ((hrun.after_step hrun₁ hcheck).of_labels hall).mono fun _ _ hok => hok.2
  obtain ⟨-, hplace, -⟩ := no_event_lost_in_gap hrun₁ hst rfl (by decide +kernel) hcheck hst₂ rfl hrun₂
  -- the session's one winner
  have hwon : (σ.commits.head?.map Commit.sid) = some Sample.sid := by decide +kernel
  rcases Option.map_eq_some_iff.mp hwon with ⟨k, hk, hsid⟩
  have hmem := List.mem_of_head? hk
  let ev := SessionStore.verifiedEvent (.str (lit "bob")) (Sample.jwk (lit "bob")) 100
  have hst₃ : σ.streams 0 = some ⟨Sample.sid, 0, .atMessage 900000 ev.dumps, [],
      opened ++ [.message ev.dumps]⟩ := by
    decide +kernel
  have hfinal := (hplace _ k hst₃ rfl hmem hsid).1
  refine ⟨_, k, hst₃, hmem, hfinal, ?_⟩
  cases hfinal with
  | taken _ _ htaken => exact htaken
  | inFlight _ _ hnothing => exact absurd rfl (hnothing _ _)
  | inQueue _ hqueue _ => cases hqueue

end Doppelganger
