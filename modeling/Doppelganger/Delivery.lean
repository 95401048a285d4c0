import Doppelganger.History

/-!
# What reaches a stream

The inversion lemmas of a stream (`Read`, `Advanced`), and the invariant of the
stream side: the hub of a worker lists exactly the streams that are subscribed,
and whatever is on its way to a stream, waits in its queue or has been yielded by
it was published for its session or rebuilt from its hash.
-/

open Text Redis

namespace Doppelganger

/-! ## What a stream can do -/

/-- The Redis reads of a stream. -/
inductive Stream.Read (db : Store) (st : Stream) : Stream → Prop
  | refused : st.pc = .checkingPhase → SessionStore.getPhase db st.sid = none →
      Read db st { st with pc := .refused 404 }
  | opened (phase : Str) : st.pc = .checkingPhase →
      SessionStore.getPhase db st.sid = some phase → Read db st { st with pc := .created phase }
  | raised (e : Exc) : st.pc = .checking ∨ (∃ deadline, st.pc = .polling deadline) →
      SessionStore.terminalEvent db st.sid = .error e → Read db st { st with pc := .leaving }
  | final (ev : Json) : st.pc = .checking ∨ (∃ deadline, st.pc = .polling deadline) →
      SessionStore.terminalEvent db st.sid = .ok (some ev) →
      Read db st (st.yield (.message ev.dumps) .atLast)
  | nothing : st.pc = .checking → SessionStore.terminalEvent db st.sid = .ok none →
      Read db st { st with pc := .armed }
  | keepalive (deadline : ℕ) : st.pc = .polling deadline →
      SessionStore.terminalEvent db st.sid = .ok none →
      Read db st (st.yield .keepalive (.atKeepalive deadline))

theorem Stream.read_of_redis {db : Store} {st st' : Stream} (h : st.redis db = some st') :
    st.Read db st' := by
  cases hpc : st.pc with
  | checkingPhase =>
    cases hphase : SessionStore.getPhase db st.sid with
    | none =>
      simp only [Stream.redis, hpc, hphase, Option.some.injEq] at h
      subst h
      exact .refused hpc hphase
    | some phase =>
      simp only [Stream.redis, hpc, hphase, Option.some.injEq] at h
      subst h
      exact .opened phase hpc hphase
  | checking =>
    cases hev : SessionStore.terminalEvent db st.sid with
    | error e =>
      simp only [Stream.redis, hpc, hev, Stream.checked, Option.some.injEq] at h
      subst h
      exact .raised e (Or.inl hpc) hev
    | ok final =>
      cases final with
      | none =>
        simp only [Stream.redis, hpc, hev, Stream.checked, Option.some.injEq] at h
        subst h
        exact .nothing hpc hev
      | some ev =>
        simp only [Stream.redis, hpc, hev, Stream.checked, Option.some.injEq] at h
        subst h
        exact .final ev (Or.inl hpc) hev
  | polling deadline =>
    cases hev : SessionStore.terminalEvent db st.sid with
    | error e =>
      simp only [Stream.redis, hpc, hev, Stream.checked, Option.some.injEq] at h
      subst h
      exact .raised e (Or.inr ⟨deadline, hpc⟩) hev
    | ok final =>
      cases final with
      | none =>
        simp only [Stream.redis, hpc, hev, Stream.checked, Option.some.injEq] at h
        subst h
        exact .keepalive deadline hpc hev
      | some ev =>
        simp only [Stream.redis, hpc, hev, Stream.checked, Option.some.injEq] at h
        subst h
        exact .final ev (Or.inr ⟨deadline, hpc⟩) hev
  | _ => simp [Stream.redis, hpc] at h

/-- The local steps of a stream. -/
inductive Stream.Advanced (now : ℕ) (st : Stream) : Stream → Prop
  | retry (phase : Str) : st.pc = .created phase →
      Advanced now st (st.yield .retry (.atRetry phase))
  | connected (phase : Str) : st.pc = .atRetry phase →
      Advanced now st (st.yield (.message (connectedEvent phase).dumps) .atConnected)
  | check : st.pc = .atConnected → Advanced now st { st with pc := .checking }
  | arm : st.pc = .armed → Advanced now st { st with pc := .looping (now + maxStream) }
  | wait (deadline : ℕ) : st.pc = .looping deadline → now < deadline →
      Advanced now st { st with pc := .waiting deadline now }
  | expire (deadline : ℕ) : st.pc = .looping deadline → deadline ≤ now →
      Advanced now st (st.yield (.message SessionStore.expiredEvent.dumps) .atLast)
  | take (deadline since : ℕ) (data : Str) (queue : List Str) : st.pc = .waiting deadline since →
      st.queue = data :: queue →
      Advanced now st ({ st with queue }.yield (.message data) (.atMessage deadline data))
  | timeout (deadline since : ℕ) : st.pc = .waiting deadline since → st.queue = [] →
      since + heartbeat ≤ now → Advanced now st { st with pc := .polling deadline }
  | goOn (deadline : ℕ) (data : Str) : st.pc = .atMessage deadline data →
      isTerminal data = some false → Advanced now st { st with pc := .looping deadline }
  | finish (deadline : ℕ) (data : Str) : st.pc = .atMessage deadline data →
      isTerminal data ≠ some false → Advanced now st { st with pc := .leaving }
  | alive (deadline : ℕ) : st.pc = .atKeepalive deadline →
      Advanced now st { st with pc := .looping deadline }
  | last : st.pc = .atLast → Advanced now st { st with pc := .leaving }
  | leave : st.pc = .leaving → Advanced now st { st with pc := .closed }

theorem Stream.advanced_of_advance {now : ℕ} {st st' : Stream} (h : st.advance now = some st') :
    st.Advanced now st' := by
  cases hpc : st.pc with
  | created phase =>
    simp only [Stream.advance, hpc, Option.some.injEq] at h
    subst h
    exact .retry phase hpc
  | atRetry phase =>
    simp only [Stream.advance, hpc, Option.some.injEq] at h
    subst h
    exact .connected phase hpc
  | atConnected =>
    simp only [Stream.advance, hpc, Option.some.injEq] at h
    subst h
    exact .check hpc
  | armed =>
    simp only [Stream.advance, hpc, Option.some.injEq] at h
    subst h
    exact .arm hpc
  | looping deadline =>
    by_cases hlt : now < deadline
    · simp only [Stream.advance, hpc, hlt, if_true, Option.some.injEq] at h
      subst h
      exact .wait deadline hpc hlt
    · simp only [Stream.advance, hpc, hlt, if_false, Option.some.injEq] at h
      subst h
      exact .expire deadline hpc (Nat.le_of_not_lt hlt)
  | waiting deadline since =>
    cases hq : st.queue with
    | cons data queue =>
      simp only [Stream.advance, hpc, hq, Option.some.injEq] at h
      subst h
      exact .take deadline since data queue hpc hq
    | nil =>
      by_cases hle : since + heartbeat ≤ now
      · have hst' : st' = { st with pc := .polling deadline } := by
          simpa [Stream.advance, hpc, hq, hle] using h.symm
        subst hst'
        exact .timeout deadline since hpc hq hle
      · simp [Stream.advance, hpc, hq, hle] at h
  | atMessage deadline data =>
    by_cases ht : isTerminal data = some false
    · simp only [Stream.advance, hpc, ht, Option.some.injEq] at h
      subst h
      exact .goOn deadline data hpc ht
    · have hst' : st' = { st with pc := .leaving } := by
        simpa [Stream.advance, hpc, ht] using h.symm
      subst hst'
      exact .finish deadline data hpc ht
  | atKeepalive deadline =>
    simp only [Stream.advance, hpc, Option.some.injEq] at h
    subst h
    exact .alive deadline hpc
  | atLast =>
    simp only [Stream.advance, hpc, Option.some.injEq] at h
    subst h
    exact .last hpc
  | leaving =>
    simp only [Stream.advance, hpc, Option.some.injEq] at h
    subst h
    exact .leave hpc
  | _ => simp [Stream.advance, hpc] at h

/-- The stream a step is taken by. -/
def Label.stream? : Label → Option ℕ
  | .stream i _ _ => some i
  | .read i _ => some i
  | .advance i => some i
  | .close i => some i
  | _ => none

/-- What a step labelled `l` in state `σ` can do to stream `i`. -/
inductive Stream.Moved (σ : State) (i : ℕ) (st : Stream) : Label → Stream → Prop
  | read {st' : Stream} : st.Read σ.store st' → Moved σ i st (.read i .none) st'
  | failed {fault : Fault} {st' : Stream} : fault ≠ .none → st.fail = some st' →
      Moved σ i st (.read i fault) st'
  | advanced {st' : Stream} : st.Advanced σ.store.now st' → Moved σ i st (.advance i) st'
  | closed {st' : Stream} : st.close = some st' → Moved σ i st (.close i) st'
  | received {w : ℕ} {m : Message} {rest : List Message} :
      (σ.workers w).inflight = m :: rest →
      i ∈ EventHub.targets (σ.workers w).hub (EventHub.sessionOfChannel m.channel) →
      Moved σ i st (.deliver w) { st with queue := EventHub.putNowait st.queue m.data }
  | still {l : Label} : l.stream? ≠ some i →
      (∀ w m rest, l = .deliver w → (σ.workers w).inflight = m :: rest →
        i ∉ EventHub.targets (σ.workers w).hub (EventHub.sessionOfChannel m.channel)) →
      Moved σ i st l st

/-- A stream is moved by its own steps, and a delivery adds to its queue. -/
theorem moved_of_step {env : Env} {l : Label} {σ σ' : State} (h : step env l σ = some σ') {i : ℕ}
    {st : Stream} (hst : σ.streams i = some st) :
    ∃ st', σ'.streams i = some st' ∧ st.Moved σ i l st' := by
  cases l with
  | request _ _ _ | embed _ _ | name _ _ | answer _ =>
    exact ⟨st, by rw [(sameData_of_step rfl h).streams, hst],
      .still (by simp [Label.stream?]) (by simp)⟩
  | redis r fault =>
    obtain ⟨_, _, _, _, _, ⟨_, rfl⟩ | ⟨_, rfl⟩ | ⟨_, rfl⟩⟩ := step_redis h <;>
      exact ⟨st, hst, .still (by simp [Label.stream?]) (by simp)⟩
  | tick d =>
    obtain rfl := step_tick h
    exact ⟨st, hst, .still (by simp [Label.stream?]) (by simp)⟩
  | stream j sid w =>
    rcases step_stream h with ⟨hnone, rfl⟩
    have hj : i ≠ j := by
      rintro rfl
      simp [hst] at hnone
    exact ⟨st, by rw [State.setStream_streams_ne _ hj, hst],
      .still (by simpa [Label.stream?] using hj.symm) (by simp)⟩
  | read j fault =>
    rcases step_read h with ⟨st₁, st', hst₁, rfl, hcases⟩
    by_cases hj : i = j
    · subst hj
      obtain rfl := Option.some.inj (hst.symm.trans hst₁)
      refine ⟨st', State.setStream_streams_self _ _ _, ?_⟩
      rcases hcases with ⟨rfl, hread⟩ | ⟨hfault, hfail⟩
      · exact .read (Stream.read_of_redis hread)
      · exact .failed hfault hfail
    · exact ⟨st, by rw [State.setStream_streams_ne _ hj, hst],
        .still (by simpa [Label.stream?] using Ne.symm hj) (by simp)⟩
  | advance j =>
    rcases step_advance h with ⟨st₁, st', hst₁, hadv, rfl⟩
    by_cases hj : i = j
    · subst hj
      obtain rfl := Option.some.inj (hst.symm.trans hst₁)
      exact ⟨st', State.setStream_streams_self _ _ _,
        .advanced (Stream.advanced_of_advance hadv)⟩
    · exact ⟨st, by rw [State.setStream_streams_ne _ hj]; exact hst,
        .still (by simpa [Label.stream?] using Ne.symm hj) (by simp)⟩
  | close j =>
    rcases step_close h with ⟨st₁, st', hst₁, hclose, rfl⟩
    by_cases hj : i = j
    · subst hj
      obtain rfl := Option.some.inj (hst.symm.trans hst₁)
      exact ⟨st', State.setStream_streams_self _ _ _, .closed hclose⟩
    · exact ⟨st, by rw [State.setStream_streams_ne _ hj, hst],
        .still (by simpa [Label.stream?] using Ne.symm hj) (by simp)⟩
  | listen w =>
    obtain rfl := step_listen h
    exact ⟨st, hst, .still (by simp [Label.stream?]) (by simp)⟩
  | disconnect w =>
    obtain rfl := step_disconnect h
    exact ⟨st, hst, .still (by simp [Label.stream?]) (by simp)⟩
  | lose w n =>
    obtain rfl := step_lose h
    exact ⟨st, hst, .still (by simp [Label.stream?]) (by simp)⟩
  | deliver w =>
    rcases step_deliver h with ⟨m, rest, hm, rfl⟩
    by_cases hi : i ∈ EventHub.targets (σ.workers w).hub (EventHub.sessionOfChannel m.channel)
    · exact ⟨_, σ.deliverTo_of_mem hst hi, .received hm hi⟩
    · refine ⟨st, by rw [State.setWorker_streams, σ.deliverTo_of_notMem hi, hst],
        .still (by simp [Label.stream?]) ?_⟩
      intro w' m' rest' hw hm'
      obtain rfl : w = w' := by simpa using hw
      rw [hm] at hm'
      rcases List.cons.inj hm' with ⟨rfl, rfl⟩
      exact hi

/-- A stream appears when it is requested. -/
theorem new_of_step {env : Env} {l : Label} {σ σ' : State} (h : step env l σ = some σ') {i : ℕ}
    {st' : Stream} (hnone : σ.streams i = none) (hst' : σ'.streams i = some st') :
    ∃ sid w, l = .stream i sid w ∧ st' = Stream.new sid w := by
  have hne : σ'.streams ≠ σ.streams := by
    intro heq
    simp [heq, hnone] at hst'
  have hset : ∀ {j : ℕ} {st₁ : Stream} {τ : State}, τ.streams = σ.streams →
      (σ.streams j).isSome = true → (τ.setStream j st₁).streams i ≠ some st' := by
    intro j st₁ τ hτ hj heq
    have hji : i ≠ j := by
      rintro rfl
      simp [hnone] at hj
    rw [State.setStream_streams_ne _ hji, hτ, hnone] at heq
    cases heq
  cases l with
  | stream j sid w =>
    rcases step_stream h with ⟨_, rfl⟩
    by_cases hj : i = j
    · subst hj
      rw [State.setStream_streams_self] at hst'
      exact ⟨sid, w, rfl, (Option.some.inj hst').symm⟩
    · rw [State.setStream_streams_ne _ hj, hnone] at hst'
      cases hst'
  | read j fault =>
    rcases step_read h with ⟨_, _, hj, rfl, _⟩
    exact absurd hst' (hset rfl (by simp [hj]))
  | advance j =>
    rcases step_advance h with ⟨_, _, hj, _, rfl⟩
    exact absurd hst' (hset rfl (by simp [hj]))
  | close j =>
    rcases step_close h with ⟨_, _, hj, _, rfl⟩
    exact absurd hst' (hset rfl (by simp [hj]))
  | deliver w =>
    rcases step_deliver h with ⟨m, rest, _, rfl⟩
    rcases σ.deliverTo_eq_some hst' with ⟨st, hst, _⟩
    simp [hnone] at hst
  | request _ _ _ | embed _ _ | name _ _ | answer _ =>
    exact absurd (sameData_of_step rfl h).streams hne
  | redis r fault =>
    obtain ⟨_, _, _, _, _, ⟨_, rfl⟩ | ⟨_, rfl⟩ | ⟨_, rfl⟩⟩ := step_redis h <;>
      exact absurd rfl hne
  | tick d =>
    obtain rfl := step_tick h
    exact absurd rfl hne
  | listen w =>
    obtain rfl := step_listen h
    exact absurd rfl hne
  | disconnect w =>
    obtain rfl := step_disconnect h
    exact absurd rfl hne
  | lose w n =>
    obtain rfl := step_lose h
    exact absurd rfl hne

/-- Between `hub.subscribe` and `hub.unsubscribe`. -/
def StreamPc.subscribed : StreamPc → Bool
  | .checkingPhase => false
  | .refused _ => false
  | .created _ => false
  | .closed => false
  | _ => true

@[simp] theorem Stream.yield_sid (st : Stream) (chunk : Chunk) (pc : StreamPc) :
    (st.yield chunk pc).sid = st.sid := rfl
@[simp] theorem Stream.yield_worker (st : Stream) (chunk : Chunk) (pc : StreamPc) :
    (st.yield chunk pc).worker = st.worker := rfl
@[simp] theorem Stream.yield_queue (st : Stream) (chunk : Chunk) (pc : StreamPc) :
    (st.yield chunk pc).queue = st.queue := rfl
@[simp] theorem Stream.yield_out (st : Stream) (chunk : Chunk) (pc : StreamPc) :
    (st.yield chunk pc).out = st.out ++ [chunk] := rfl
@[simp] theorem Stream.yield_pc (st : Stream) (chunk : Chunk) (pc : StreamPc) :
    (st.yield chunk pc).pc = pc := rfl

/-- A failed read yields nothing. -/
theorem Stream.fail_cases {st st' : Stream} (h : st.fail = some st') :
    st' = { st with pc := st'.pc } ∧ st'.pc.subscribed = st.pc.subscribed ∧
      (st'.pc = .refused 503 ∨ st'.pc = .leaving) := by
  cases hpc : st.pc <;> simp [Stream.fail, hpc] at h <;> subst h <;> simp [StreamPc.subscribed]

/-- A client that goes away leaves nothing behind but its place in the hub. -/
theorem Stream.close_cases {st st' : Stream} (h : st.close = some st') :
    st' = { st with pc := st'.pc } ∧ st'.pc.subscribed = st.pc.subscribed ∧
      (st'.pc = .closed ∨ st'.pc = .leaving) := by
  cases hpc : st.pc <;> simp [Stream.close, hpc] at h <;> subst h <;> simp [StreamPc.subscribed]

/-- A stream belongs to its session and worker for good. -/
theorem Stream.Moved.frame {σ : State} {i : ℕ} {st st' : Stream} {l : Label}
    (h : st.Moved σ i l st') : st'.sid = st.sid ∧ st'.worker = st.worker := by
  cases h with
  | read h => cases h <;> exact ⟨rfl, rfl⟩
  | failed _ h =>
    rw [(Stream.fail_cases h).1]
    exact ⟨rfl, rfl⟩
  | advanced h => cases h <;> exact ⟨rfl, rfl⟩
  | closed h =>
    rw [(Stream.close_cases h).1]
    exact ⟨rfl, rfl⟩
  | received _ _ => exact ⟨rfl, rfl⟩
  | still _ _ => exact ⟨rfl, rfl⟩

/-! ## What `terminal_event` rebuilds -/

/-- A text that reports the outcome of `k`, with some percentage. -/
def Reports (env : Env) (k : Commit) (data : Str) : Prop :=
  ∃ score, data = (if passed env k.score then
      SessionStore.verifiedEvent (.str k.form.bobName) k.form.bobPubkeyJwk score
    else SessionStore.failedEvent score).dumps

theorem reports_message (env : Env) (k : Commit) : Reports env k (k.message env).data := by
  refine ⟨pct k.score, ?_⟩
  by_cases hp : passed env k.score = true <;> simp [Commit.message, event, hp]

/-- What `terminal_event` answers, by the history of the session. -/
theorem terminalEvent_cases {env : Env} {σ : State} (hi : Inv env σ) (sid : Str) :
    (σ.store.db (key sid) = none ∧
      SessionStore.terminalEvent σ.store sid = .ok (some SessionStore.expiredEvent)) ∨
    (∃ e, σ.store.db (key sid) = some e ∧ σ.winner sid = none ∧
      SessionStore.terminalEvent σ.store sid = .ok none) ∨
    (∃ e k, σ.store.db (key sid) = some e ∧ σ.winner sid = some k ∧
      ((∃ x, SessionStore.terminalEvent σ.store sid = .error x) ∨
        ∃ ev, SessionStore.terminalEvent σ.store sid = .ok (some ev) ∧
          Reports env k ev.dumps)) := by
  cases hdb : σ.store.db (key sid) with
  | none =>
    exact Or.inl ⟨rfl, by simp [SessionStore.terminalEvent, Server.hget_of_none hdb]⟩
  | some e =>
    right
    rcases hi.entry_of_stored hdb with ⟨c, _, _, rfl⟩
    cases hw : σ.winner sid with
    | none =>
      rw [hw] at hdb
      have hv := verified_ne_waiting.symm
      have hf := failed_ne_waiting.symm
      exact Or.inl ⟨_, rfl, rfl, by
        simp [SessionStore.terminalEvent, Server.hget_eq hdb, Creation.entry, hv, hf]⟩
    | some k =>
      rw [hw] at hdb
      refine Or.inr ⟨_, k, rfl, rfl, ?_⟩
      -- the hash is what creation and winner wrote, so the answer reports the winner
      have hphase := c.fields_some_phase env k
      by_cases hp : passed env k.score = true
      · have hname : c.fields env (some k) .bobName = some k.form.bobName := by
          simp [Creation.fields, updates, hp, Hash.write]
        have hjwk : c.fields env (some k) .bobPubkeyJwk = some k.form.bobPubkeyJwk.dumps := by
          simp [Creation.fields, updates, hp, Hash.write]
        simp only [hp, if_true] at hphase
        simp only [SessionStore.terminalEvent, Server.hget_eq hdb, Creation.entry, hphase, hname,
          hjwk, Json.loads_dumps, if_true, SessionStore.ofField]
        cases SessionStore.storedPct (c.fields env (some k) .similarityScore) with
        | error x => exact Or.inl ⟨x, rfl⟩
        | ok score => exact Or.inr ⟨_, rfl, score, by simp [hp]⟩
      · have hne := verified_ne_failed.symm
        simp only [hp] at hphase
        simp only [SessionStore.terminalEvent, Server.hget_eq hdb, Creation.entry, hphase]
        simp only [Bool.false_eq_true, if_false, hne, if_true]
        cases SessionStore.storedPct (c.fields env (some k) .similarityScore) with
        | error x => exact Or.inl ⟨x, rfl⟩
        | ok score => exact Or.inr ⟨_, rfl, score, by simp [hp]⟩

/-! ## The invariant -/

/-- The message of a call that finalized session `sid`. -/
def Published (env : Env) (σ : State) (sid data : Str) : Prop :=
  ∃ k ∈ σ.commits, k.sid = sid ∧ data = (k.message env).data

/-- What a stream of session `sid` may say. -/
def Said (env : Env) (σ : State) (sid data : Str) : Prop :=
  (∃ phase, data = (connectedEvent phase).dumps) ∨ data = SessionStore.expiredEvent.dumps ∨
    ∃ k ∈ σ.commits, k.sid = sid ∧ Reports env k data

structure StreamOk (env : Env) (σ : State) (st : Stream) : Prop where
  queued : ∀ data ∈ st.queue, Published env σ st.sid data
  taken : ∀ deadline data, st.pc = .atMessage deadline data → Published env σ st.sid data
  said : ∀ data, .message data ∈ st.out → Said env σ st.sid data

/-- The invariant of the stream side. -/
structure Flow (env : Env) (σ : State) : Prop where
  hub : ∀ w sid i, i ∈ EventHub.targets (σ.workers w).hub sid ↔
    ∃ st, σ.streams i = some st ∧ st.sid = sid ∧ st.worker = w ∧ st.pc.subscribed = true
  flying : ∀ w, ∀ m ∈ (σ.workers w).inflight, ∃ k ∈ σ.commits, m = k.message env
  streams : ∀ i st, σ.streams i = some st → StreamOk env σ st

section

variable {env : Env} {σ σ' : State}

theorem Published.said {sid data : Str} (h : Published env σ sid data) : Said env σ sid data := by
  rcases h with ⟨k, hk, hs, rfl⟩
  exact Or.inr (Or.inr ⟨k, hk, hs, reports_message env k⟩)

theorem StreamOk.mono {st : Stream} (h : StreamOk env σ st)
    (hk : ∀ k ∈ σ.commits, k ∈ σ'.commits) : StreamOk env σ' st := by
  have hpub : ∀ data, Published env σ st.sid data → Published env σ' st.sid data := by
    rintro data ⟨k, hkm, hs⟩
    exact ⟨k, hk k hkm, hs⟩
  refine ⟨fun data hd => hpub data (h.queued data hd),
    fun deadline data hpc => hpub data (h.taken deadline data hpc), fun data hd => ?_⟩
  rcases h.said data hd with h | h | ⟨k, hkm, hs⟩
  · exact Or.inl h
  · exact Or.inr (Or.inl h)
  · exact Or.inr (Or.inr ⟨k, hk k hkm, hs⟩)

/-- A read yields at most what `terminal_event` rebuilt. -/
theorem StreamOk.read (hi : Inv env σ) {st st' : Stream} (h : StreamOk env σ st)
    (hread : st.Read σ.store st') :
    StreamOk env σ st' ∧ st'.sid = st.sid ∧ st'.worker = st.worker ∧
      st'.pc.subscribed = st.pc.subscribed := by
  have hsub : st.pc = .checking ∨ (∃ deadline, st.pc = .polling deadline) →
      st.pc.subscribed = true := by
    rintro (hpc | ⟨deadline, hpc⟩) <;> rw [hpc] <;> rfl
  cases hread with
  | refused hpc _ => exact ⟨⟨h.queued, by simp, h.said⟩, rfl, rfl, by rw [hpc]; rfl⟩
  | opened phase hpc _ => exact ⟨⟨h.queued, by simp, h.said⟩, rfl, rfl, by rw [hpc]; rfl⟩
  | raised e hpc _ => exact ⟨⟨h.queued, by simp, h.said⟩, rfl, rfl, (hsub hpc).symm⟩
  | nothing hpc _ => exact ⟨⟨h.queued, by simp, h.said⟩, rfl, rfl, by rw [hpc]; rfl⟩
  | keepalive deadline hpc _ =>
    refine ⟨⟨h.queued, by simp, ?_⟩, rfl, rfl, by rw [hpc]; rfl⟩
    intro data hd
    simp only [Stream.yield_out, List.mem_append, List.mem_singleton, reduceCtorEq, or_false] at hd
    exact h.said data hd
  | final ev hpc hev =>
    refine ⟨⟨h.queued, by simp, ?_⟩, rfl, rfl, (hsub hpc).symm⟩
    intro data hd
    simp only [Stream.yield_out, List.mem_append, List.mem_singleton, Chunk.message.injEq] at hd
    rcases hd with hd | rfl
    · exact h.said data hd
    · -- the event says that the session is gone, or who won
      rcases terminalEvent_cases hi st.sid with ⟨_, ht⟩ | ⟨_, _, _, ht⟩ |
        ⟨_, k, _, hw, ⟨_, ht⟩ | ⟨ev', ht, hrep⟩⟩
      · rw [ht] at hev
        cases hev
        exact Or.inr (Or.inl rfl)
      · rw [ht] at hev
        cases hev
      · rw [ht] at hev
        cases hev
      · rw [ht] at hev
        cases hev
        rcases mem_of_winner hw with ⟨hk, hs⟩
        exact Or.inr (Or.inr ⟨k, hk, hs, hrep⟩)

/-- A local step yields only what was in the queue, CONNECTED or EXPIRED. -/
theorem StreamOk.advance {now : ℕ} {st st' : Stream} (h : StreamOk env σ st)
    (hadv : st.Advanced now st') : StreamOk env σ st' := by
  have hsaid : ∀ data chunk pc, .message data ∈ (st.yield chunk pc).out →
      Said env σ st.sid data ∨ chunk = .message data := by
    intro data chunk pc hd
    simp only [Stream.yield_out, List.mem_append, List.mem_singleton] at hd
    exact hd.imp (h.said data) Eq.symm
  cases hadv with
  | retry phase _ =>
    refine ⟨h.queued, by simp, fun data hd => ?_⟩
    rcases hsaid _ _ _ hd with hd | hd
    · exact hd
    · cases hd
  | connected phase _ =>
    refine ⟨h.queued, by simp, fun data hd => ?_⟩
    rcases hsaid _ _ _ hd with hd | hd
    · exact hd
    · cases hd
      exact Or.inl ⟨phase, rfl⟩
  | expire deadline _ _ =>
    refine ⟨h.queued, by simp, fun data hd => ?_⟩
    rcases hsaid _ _ _ hd with hd | hd
    · exact hd
    · cases hd
      exact Or.inr (Or.inl rfl)
  | take deadline since data queue _ hq =>
    -- what is yielded was in the queue
    have hdata : Published env σ st.sid data := h.queued data (by simp [hq])
    refine ⟨fun d hd => h.queued d (by simp [hq, show d ∈ queue from hd]),
      ?_, fun d hd => ?_⟩
    · intro deadline' d hpc
      simp only [Stream.yield_pc, StreamPc.atMessage.injEq] at hpc
      exact hpc.2 ▸ hdata
    · rcases hsaid _ _ (.atMessage deadline data) hd with hd | hd
      · exact hd
      · cases hd
        exact hdata.said
  | _ => exact ⟨h.queued, by simp, h.said⟩

/-- Where a local step leaves the stream. -/
theorem Stream.Advanced.frame {now : ℕ} {st st' : Stream} (h : st.Advanced now st') :
    st'.sid = st.sid ∧ st'.worker = st.worker ∧
      (st'.pc.subscribed = true ↔
        (∃ phase, st.pc = .created phase) ∨ (st.pc.subscribed = true ∧ st.pc ≠ .leaving)) := by
  cases h with
  | retry phase hpc => exact ⟨rfl, rfl, by simp [hpc, StreamPc.subscribed]⟩
  | leave hpc => exact ⟨rfl, rfl, by simp [hpc, StreamPc.subscribed]⟩
  | connected _ hpc => exact ⟨rfl, rfl, by simp [hpc, StreamPc.subscribed]⟩
  | check hpc => exact ⟨rfl, rfl, by simp [hpc, StreamPc.subscribed]⟩
  | arm hpc => exact ⟨rfl, rfl, by simp [hpc, StreamPc.subscribed]⟩
  | wait _ hpc => exact ⟨rfl, rfl, by simp [hpc, StreamPc.subscribed]⟩
  | expire _ hpc => exact ⟨rfl, rfl, by simp [hpc, StreamPc.subscribed]⟩
  | take _ _ _ _ hpc => exact ⟨rfl, rfl, by simp [hpc, StreamPc.subscribed]⟩
  | timeout _ _ hpc => exact ⟨rfl, rfl, by simp [hpc, StreamPc.subscribed]⟩
  | goOn _ _ hpc => exact ⟨rfl, rfl, by simp [hpc, StreamPc.subscribed]⟩
  | finish _ _ hpc => exact ⟨rfl, rfl, by simp [hpc, StreamPc.subscribed]⟩
  | alive _ hpc => exact ⟨rfl, rfl, by simp [hpc, StreamPc.subscribed]⟩
  | last hpc => exact ⟨rfl, rfl, by simp [hpc, StreamPc.subscribed]⟩

/-- Leaving `created` registers the queue, leaving `leaving` removes it. -/
theorem mem_targets_hubStep (st : Stream) (q : ℕ) (hub : Hub) (sid : Str) (j : ℕ) :
    j ∈ EventHub.targets (st.hubStep q hub) sid ↔
      ((∃ phase, st.pc = .created phase) ∧ sid = st.sid ∧ j = q) ∨
      (j ∈ EventHub.targets hub sid ∧ ¬ (st.pc = .leaving ∧ sid = st.sid ∧ j = q)) := by
  cases hpc : st.pc with
  | created phase => simp [Stream.hubStep, hpc, EventHub.mem_targets_subscribe]
  | leaving => simp [Stream.hubStep, hpc, EventHub.mem_targets_unsubscribe]
  | _ => simp [Stream.hubStep, hpc]

namespace Flow

theorem init : Flow env State.init where
  hub := by simp [State.init, EventHub.targets, EventHub.empty]
  flying := by simp [State.init]
  streams := by simp [State.init]

/-- Steps that leave streams and hubs alone. -/
theorem of_same (hf : Flow env σ) (hs : σ'.streams = σ.streams)
    (hhub : ∀ w, (σ'.workers w).hub = (σ.workers w).hub)
    (hk : ∀ k ∈ σ.commits, k ∈ σ'.commits)
    (hfly : ∀ w, ∀ m ∈ (σ'.workers w).inflight,
      m ∈ (σ.workers w).inflight ∨ ∃ k ∈ σ'.commits, m = k.message env) : Flow env σ' where
  hub := by
    intro w sid i
    rw [hhub, hs]
    exact hf.hub w sid i
  flying := by
    intro w m hm
    rcases hfly w m hm with hm | hm
    · rcases hf.flying w m hm with ⟨k, hkm, he⟩
      exact ⟨k, hk k hkm, he⟩
    · exact hm
  streams := by
    intro i st hst
    rw [hs] at hst
    exact (hf.streams i st hst).mono hk

/-- A stream moves on without entering or leaving the hub. -/
theorem setStream (hf : Flow env σ) {i : ℕ} {st st' : Stream} (hst : σ.streams i = some st)
    (hok : StreamOk env σ st') (hsid : st'.sid = st.sid) (hworker : st'.worker = st.worker)
    (hsub : st'.pc.subscribed = st.pc.subscribed) : Flow env (σ.setStream i st') where
  hub := by
    intro w sid j
    by_cases hj : j = i
    · subst hj
      simp only [State.setStream_workers, hf.hub w sid j, hst, State.setStream_streams_self,
        Option.some.injEq, exists_eq_left', hsid, hworker, hsub]
    · simp only [State.setStream_workers, hf.hub w sid j, State.setStream_streams_ne _ hj]
  flying := hf.flying
  streams := by
    intro j st₁ h
    by_cases hj : j = i
    · subst hj
      rw [State.setStream_streams_self] at h
      obtain rfl := Option.some.inj h
      exact hok.mono fun _ => id
    · rw [State.setStream_streams_ne _ hj] at h
      exact (hf.streams j st₁ h).mono fun _ => id

/-- A local step of a stream. -/
theorem advance (hf : Flow env σ) {i : ℕ} {st st' : Stream} (hst : σ.streams i = some st)
    (hadv : st.Advanced σ.store.now st') :
    Flow env ((σ.setWorker st.worker { σ.workers st.worker with
      hub := st.hubStep i (σ.workers st.worker).hub }).setStream i st') := by
  rcases hadv.frame with ⟨hsid, hworker, hsub⟩
  refine ⟨?_, ?_, ?_⟩
  · intro w sid j
    have hold := hf.hub w sid j
    simp only [State.setStream_workers]
    by_cases hw : w = st.worker
    · subst hw
      rw [State.setWorker_workers_self, mem_targets_hubStep, hold]
      by_cases hj : j = i
      · subst hj
        simp only [hst, Option.some.injEq, exists_eq_left', State.setStream_streams_self, hsid,
          hworker, hsub, and_true, true_and]
        -- the step that enters the hub, and the one that leaves it
        by_cases hsid' : sid = st.sid
        · subst hsid'
          simp
        · simp [hsid', Ne.symm hsid']
      · rw [State.setStream_streams_ne _ hj]
        simp [hj]
    · rw [State.setWorker_workers_ne _ hw, hold]
      by_cases hj : j = i
      · subst hj
        simp [hst, hworker, Ne.symm hw]
      · rw [State.setStream_streams_ne _ hj]
        simp
  · intro w m hm
    refine hf.flying w m ?_
    by_cases hw : w = st.worker
    · subst hw
      simpa using hm
    · simpa [State.setWorker_workers_ne _ hw] using hm
  · intro j st₁ h
    by_cases hj : j = i
    · subst hj
      rw [State.setStream_streams_self] at h
      obtain rfl := Option.some.inj h
      exact ((hf.streams j st hst).advance hadv).mono fun _ => id
    · rw [State.setStream_streams_ne _ hj] at h
      exact (hf.streams j st₁ h).mono fun _ => id

/-- A listener comes, goes or loses messages. -/
theorem setWorker (hf : Flow env σ) {w : ℕ} {worker : Worker}
    (hhub : worker.hub = (σ.workers w).hub)
    (hfly : ∀ m ∈ worker.inflight, m ∈ (σ.workers w).inflight) :
    Flow env (σ.setWorker w worker) := by
  refine hf.of_same rfl ?_ (fun _ => id) fun w' m hm => Or.inl ?_
  · intro w'
    by_cases hw : w' = w
    · subst hw
      rw [State.setWorker_workers_self, hhub]
    · rw [State.setWorker_workers_ne _ hw]
  · by_cases hw : w' = w
    · subst hw
      rw [State.setWorker_workers_self] at hm
      exact hfly m hm
    · rwa [State.setWorker_workers_ne _ hw] at hm

/-- The listener hands a message on: it reaches streams of its own session only. -/
theorem deliver (hf : Flow env σ) {w : ℕ} {m : Message} {rest : List Message}
    (hm : (σ.workers w).inflight = m :: rest) :
    Flow env ((σ.deliverTo w m).setWorker w { σ.workers w with inflight := rest }) := by
  rcases hf.flying w m (by simp [hm]) with ⟨k, hk, hmk⟩
  have hhub : ∀ w', (((σ.deliverTo w m).setWorker w
      { σ.workers w with inflight := rest }).workers w').hub = (σ.workers w').hub := by
    intro w'
    by_cases hw : w' = w
    · subst hw
      simp
    · simp [State.setWorker_workers_ne _ hw]
  refine ⟨?_, ?_, ?_⟩
  · intro w' sid j
    rw [hhub, hf.hub w' sid j]
    -- a delivery changes queues only
    constructor
    · rintro ⟨st, hst, hs⟩
      by_cases hj : j ∈ EventHub.targets (σ.workers w).hub (EventHub.sessionOfChannel m.channel)
      · exact ⟨_, σ.deliverTo_of_mem hst hj, hs⟩
      · exact ⟨st, by rw [State.setWorker_streams, σ.deliverTo_of_notMem hj, hst], hs⟩
    · rintro ⟨st', hst', hs⟩
      rcases σ.deliverTo_eq_some hst' with ⟨st, hst, ⟨_, rfl⟩ | ⟨_, rfl⟩⟩
      · exact ⟨st, hst, hs⟩
      · exact ⟨_, hst, hs⟩
  · intro w' m' hm'
    by_cases hw : w' = w
    · subst hw
      rw [State.setWorker_workers_self] at hm'
      exact hf.flying w' m' (by rw [hm]; exact List.mem_cons_of_mem _ hm')
    · rw [State.setWorker_workers_ne _ hw] at hm'
      exact hf.flying w' m' hm'
  · intro j st' hst'
    rcases σ.deliverTo_eq_some hst' with ⟨st, hst, ⟨hj, rfl⟩ | ⟨_, rfl⟩⟩
    · have hok := hf.streams j st hst
      -- the hub has the queue registered for the session of the channel
      have hsid : k.sid = st.sid := by
        rw [hmk, Commit.message, EventHub.sessionOfChannel_channel] at hj
        rcases (hf.hub _ _ _).mp hj with ⟨st₁, hst₁, hs₁, _⟩
        obtain rfl := Option.some.inj (hst.symm.trans hst₁)
        exact hs₁.symm
      have hok' : StreamOk env σ { st with queue := EventHub.putNowait st.queue m.data } := by
        refine ⟨?_, hok.taken, hok.said⟩
        intro data hd
        -- a full queue drops the message
        have hcases : data ∈ st.queue ∨ data = m.data := by
          simp only [EventHub.putNowait] at hd
          split_ifs at hd
          · simpa using hd
          · exact Or.inl hd
        rcases hcases with hd | rfl
        · exact hok.queued data hd
        · exact ⟨k, hk, hsid, by rw [hmk]⟩
      exact hok'.mono fun _ => id
    · exact (hf.streams j _ hst).mono fun _ => id

/-- Every step keeps the stream side in order. -/
theorem of_step {l : Label} (hi : Inv env σ) (hf : Flow env σ) (h : step env l σ = some σ') :
    Flow env σ' := by
  have hk : ∀ k ∈ σ.commits, k ∈ σ'.commits := (histories_of_step h).2.1.subset
  cases l with
  | request _ _ _ | embed _ _ | name _ _ | answer _ =>
    have hdata := sameData_of_step rfl h
    refine hf.of_same hdata.streams (fun w => by rw [hdata.workers]) hk ?_
    intro w m hm
    rw [hdata.workers] at hm
    exact Or.inl hm
  | tick d =>
    obtain rfl := step_tick h
    exact hf.of_same rfl (fun _ => rfl) hk fun _ _ => Or.inl
  | redis r fault =>
    rcases step_redis h with ⟨⟨q, old⟩, effect, handler, hreq, hcmd, hcases⟩
    -- what a command publishes is on its way to every worker that listens
    have hfly : ∀ w, ∀ m ∈ ((σ.apply effect).workers w).inflight,
        m ∈ (σ.workers w).inflight ∨ m ∈ effect.published := by
      intro w m hm
      rw [State.apply_inflight] at hm
      split_ifs at hm
      · exact List.mem_append.mp hm
      · exact Or.inl hm
    -- only a script that wins publishes
    have hnew : ∀ m ∈ effect.published,
        ∃ k ∈ σ.commits ++ effect.committed.toList, m = k.message env := by
      intro m hm
      cases command_of_redis hcmd with
      | won sid form session bob score e hdb hphase =>
        exact ⟨⟨r, sid, form, score⟩, by simp, List.mem_singleton.mp hm⟩
      | _ => cases hm
    rcases hcases with ⟨_, rfl⟩ | ⟨_, rfl⟩ | ⟨_, rfl⟩
    · exact hf.of_same rfl (fun _ => rfl) hk fun w m hm => (hfly w m hm).imp id (hnew m)
    · exact hf.of_same rfl (fun _ => rfl) hk fun _ _ => Or.inl
    · exact hf.of_same rfl (fun _ => rfl) hk fun w m hm => (hfly w m hm).imp id (hnew m)
  | stream i sid w =>
    rcases step_stream h with ⟨hnone, rfl⟩
    refine ⟨?_, hf.flying, ?_⟩
    · intro w' sid' j
      by_cases hj : j = i
      · subst hj
        simp [hf.hub w' sid' j, hnone, Stream.new, StreamPc.subscribed]
      · simp [hf.hub w' sid' j, State.setStream_streams_ne _ hj]
    · intro j st hst
      by_cases hj : j = i
      · subst hj
        rw [State.setStream_streams_self] at hst
        obtain rfl := Option.some.inj hst
        exact ⟨by simp [Stream.new], by simp [Stream.new], by simp [Stream.new]⟩
      · rw [State.setStream_streams_ne _ hj] at hst
        exact (hf.streams j st hst).mono hk
  | read i fault =>
    rcases step_read h with ⟨st, st', hst, rfl, ⟨_, hread⟩ | ⟨_, hfail⟩⟩
    · obtain ⟨hok, hsid, hworker, hsub⟩ :=
        (hf.streams i st hst).read hi (Stream.read_of_redis hread)
      exact hf.setStream hst hok hsid hworker hsub
    · rcases Stream.fail_cases hfail with ⟨heq, hsub, hpc⟩
      have hok := hf.streams i st hst
      refine hf.setStream hst ⟨?_, ?_, ?_⟩ (by rw [heq]) (by rw [heq]) hsub
      · rw [heq]
        exact hok.queued
      · rcases hpc with hpc | hpc <;> simp [hpc]
      · rw [heq]
        exact hok.said
  | advance i =>
    rcases step_advance h with ⟨st, st', hst, hadv, rfl⟩
    exact hf.advance hst (Stream.advanced_of_advance hadv)
  | close i =>
    rcases step_close h with ⟨st, st', hst, hclose, rfl⟩
    rcases Stream.close_cases hclose with ⟨heq, hsub, hpc⟩
    have hok := hf.streams i st hst
    refine hf.setStream hst ⟨?_, ?_, ?_⟩ (by rw [heq]) (by rw [heq]) hsub
    · rw [heq]
      exact hok.queued
    · rcases hpc with hpc | hpc <;> simp [hpc]
    · rw [heq]
      exact hok.said
  | listen w =>
    obtain rfl := step_listen h
    exact hf.setWorker rfl fun _ => id
  | disconnect w =>
    obtain rfl := step_disconnect h
    exact hf.setWorker rfl fun _ => id
  | deliver w =>
    rcases step_deliver h with ⟨m, rest, hm, rfl⟩
    exact hf.deliver hm
  | lose w n =>
    obtain rfl := step_lose h
    exact hf.setWorker rfl fun _ => List.mem_of_mem_eraseIdx

theorem of_run {ok : Lts.Guard State Label} {ls : List Label}
    (h : (server env).Run ok (server env).init ls σ) : Inv env σ ∧ Flow env σ :=
  h.invariant (P := fun σ => Inv env σ ∧ Flow env σ) ⟨Inv.init, init⟩
    fun _ _ _ _ hs hi => ⟨hi.1.of_step hs, hi.2.of_step hi.1 hs⟩

theorem of_reach {ok : Lts.Guard State Label} (h : (server env).Reach ok σ) :
    Inv env σ ∧ Flow env σ := by
  rcases h with ⟨ls, hrun⟩
  exact of_run hrun

end Flow

end

end Doppelganger
