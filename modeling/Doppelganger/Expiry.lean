import Doppelganger.Agreement
import Doppelganger.Lifetime

/-!
# EXPIRED

A stream ends with EXPIRED in two ways: a store check finds no hash, or the stream
reaches its own limit of fifteen minutes. The first says that the hash is gone, not
that nobody answered; the second says neither. This file finds out when EXPIRED
means what the stream's documentation says: that the session ran out of time
before anyone answered, and is over.
-/

open Text Redis

namespace Doppelganger

variable {env : Env} {l : Label} {σ σ' : State} {i : ℕ} {st : Stream} {data : Str}

/-- The step from `σ` to `σ'` makes stream `i`, which is `st` in `σ`, yield `data`. -/
def Emits (σ σ' : State) (i : ℕ) (st : Stream) (data : Str) : Prop :=
  σ.streams i = some st ∧
    ∃ st', σ'.streams i = some st' ∧ st'.out = st.out ++ [.message data]

/-- The data of an EXPIRED event. -/
def IsExpired (data : Str) : Prop :=
  ∃ ev, Json.loads data = some ev ∧ ev.get? (lit "event") = some (.str expired)

/-- The stream waits for a `terminal_event`. -/
def Stream.AtCheck (st : Stream) : Prop := st.pc = .checking ∨ ∃ deadline, st.pc = .polling deadline

/-- The stream is about to leave its loop. -/
def Stream.AtLimit (st : Stream) (now : ℕ) : Prop :=
  ∃ deadline, st.pc = .looping deadline ∧ deadline ≤ now

/-- A step that can make a stream say EXPIRED: a check that finds no hash, or the limit. -/
def SaysExpired (l : Label) (σ : State) (i : ℕ) (st : Stream) : Prop :=
  σ.streams i = some st ∧
    ((l = .read i .none ∧ st.AtCheck ∧ σ.store.db (key st.sid) = none) ∨
      (l = .advance i ∧ st.AtLimit σ.store.now))

/-! ## Where EXPIRED comes from -/

theorem not_isExpired_of_reports {k : Commit} (h : Reports env k data) : ¬ IsExpired data := by
  rintro ⟨ev, hload, hget⟩
  have hkind := (event_of_reports h hload hget).1
  have hv : expired ≠ verified := by decide
  have hf : expired ≠ failed := by decide
  by_cases hp : passed env k.score = true <;> simp [Commit.outcome, hp, hv, hf] at hkind

theorem not_isExpired_connected (phase : Str) : ¬ IsExpired (connectedEvent phase).dumps := by
  rintro ⟨ev, hload, hget⟩
  rw [Json.loads_dumps] at hload
  obtain rfl := Option.some.inj hload
  have hc : (connectedEvent phase).get? (lit "event") = some (.str (lit "CONNECTED")) := rfl
  have hne : lit "CONNECTED" ≠ expired := by decide
  simp [hc, hne] at hget

/-- A stream says EXPIRED on two occasions only. -/
theorem saysExpired_of_emits (hi : Inv env σ) (hf : Flow env σ) (h : step env l σ = some σ')
    (hem : Emits σ σ' i st data) (hexp : IsExpired data) : SaysExpired l σ i st := by
  rcases hem with ⟨hst, st', hst', hout⟩
  refine ⟨hst, ?_⟩
  rcases moved_of_step h hst with ⟨st₁, hst₁, hmoved⟩
  obtain rfl := Option.some.inj (hst'.symm.trans hst₁)
  have hsilent : st'.out ≠ st.out := by simp [hout]
  -- a move that yields nothing is not the one we look at
  have hlast : ∀ chunk, st.out ++ [chunk] = st.out ++ [.message data] → chunk = .message data := by
    intro chunk h
    simpa using h
  cases hmoved with
  | read hread =>
    left
    cases hread with
    | final ev hpc hev =>
      rcases Chunk.message.inj (hlast _ hout) with ⟨rfl⟩
      rcases terminalEvent_cases hi st.sid with ⟨hdb, _⟩ | ⟨_, _, _, ht⟩ |
        ⟨_, k, _, _, ⟨_, ht⟩ | ⟨ev', ht, hrep⟩⟩
      · exact ⟨rfl, hpc, hdb⟩
      · rw [ht] at hev
        cases hev
      · rw [ht] at hev
        cases hev
      -- the hash is there and holds an outcome, which is replayed
      · rw [ht] at hev
        cases hev
        exact absurd hexp (not_isExpired_of_reports hrep)
    | keepalive deadline _ _ => cases hlast _ hout
    | _ => exact absurd rfl hsilent
  | advanced hadv =>
    cases hadv with
    | connected phase _ =>
      rcases Chunk.message.inj (hlast _ hout) with ⟨rfl⟩
      exact absurd hexp (not_isExpired_connected phase)
    | expire deadline hpc hle => exact Or.inr ⟨rfl, deadline, hpc, hle⟩
    -- what is queued was published by a winner
    | take deadline since data' queue _ hq =>
      rcases Chunk.message.inj (hlast _ hout) with ⟨rfl⟩
      rcases (hf.streams i st hst).queued data (by simp [hq]) with ⟨k, _, _, rfl⟩
      exact absurd hexp (not_isExpired_of_reports (reports_message env k))
    | retry _ _ => cases hlast _ hout
    | _ => exact absurd rfl hsilent
  | failed _ hfail =>
    rw [(Stream.fail_cases hfail).1] at hsilent
    exact absurd rfl hsilent
  | closed hclose =>
    rw [(Stream.close_cases hclose).1] at hsilent
    exact absurd rfl hsilent
  | received _ _ => exact absurd rfl hsilent
  | still _ _ => exact absurd rfl hsilent

/-! ## Is it final? -/

/-- The limit a stream has set itself. -/
def StreamPc.deadline? : StreamPc → Option ℕ
  | .looping deadline => some deadline
  | .waiting deadline _ => some deadline
  | .polling deadline => some deadline
  | .atMessage deadline _ => some deadline
  | .atKeepalive deadline => some deadline
  | _ => none

/-- A stream that got past its route was opened on a session that existed, and its limit is not
earlier than fifteen minutes after that session's creation. -/
def LimitOk (σ : State) (st : Stream) : Prop :=
  st.pc = .checkingPhase ∨ (∃ status, st.pc = .refused status) ∨
    ∃ c ∈ σ.creations, c.sid = st.sid ∧
      ∀ deadline, st.pc.deadline? = some deadline → c.instant + maxStream ≤ deadline

theorem LimitOk.mono {st : Stream} (h : LimitOk σ st) (hc : ∀ c ∈ σ.creations, c ∈ σ'.creations) :
    LimitOk σ' st := by
  rcases h with h | h | ⟨c, hcm, hs, hd⟩
  · exact Or.inl h
  · exact Or.inr (Or.inl h)
  · exact Or.inr (Or.inr ⟨c, hc c hcm, hs, hd⟩)

/-- A stream keeps its limit. -/
theorem LimitOk.keep {st st' : Stream} (h : LimitOk σ st) (hsid : st'.sid = st.sid)
    (hopen : st.pc ≠ .checkingPhase) (hserved : ∀ status, st.pc ≠ .refused status)
    (hd : ∀ deadline, st'.pc.deadline? = some deadline → st.pc.deadline? = some deadline) :
    LimitOk σ st' := by
  rcases h with h | ⟨status, h⟩ | ⟨c, hc, hs, hold⟩
  · exact absurd h hopen
  · exact absurd h (hserved status)
  · exact Or.inr (Or.inr ⟨c, hc, hs.trans hsid.symm, fun deadline h => hold deadline (hd _ h)⟩)

theorem LimitOk.moved (hi : Inv env σ) {st' : Stream} (h : LimitOk σ st)
    (hmoved : st.Moved σ i l st') : LimitOk σ st' := by
  have hcheck : st.pc = .checking ∨ (∃ deadline, st.pc = .polling deadline) →
      st.pc ≠ .checkingPhase ∧ ∀ status, st.pc ≠ .refused status := by
    rintro (hpc | ⟨deadline, hpc⟩) <;> simp [hpc]
  cases hmoved with
  | read hread =>
    cases hread with
    | refused _ _ => exact Or.inr (Or.inl ⟨404, rfl⟩)
    | opened phase _ hphase =>
      -- the route found the hash, so the session was created
      rcases Option.bind_eq_some_iff.mp hphase with ⟨e, hdb, _⟩
      rcases hi.entry_of_stored hdb with ⟨c, hc, hs, _⟩
      exact Or.inr (Or.inr ⟨c, hc, hs, by simp [StreamPc.deadline?]⟩)
    | raised e hpc _ =>
      exact h.keep rfl (hcheck hpc).1 (hcheck hpc).2 (by simp [StreamPc.deadline?])
    | final ev hpc _ =>
      exact h.keep rfl (hcheck hpc).1 (hcheck hpc).2 (by simp [StreamPc.deadline?])
    | nothing hpc _ => exact h.keep rfl (by simp [hpc]) (by simp [hpc]) (by simp [StreamPc.deadline?])
    | keepalive deadline hpc _ =>
      exact h.keep rfl (by simp [hpc]) (by simp [hpc]) (by simp [hpc, StreamPc.deadline?])
  | failed _ hfail =>
    cases hpc : st.pc with
    | checkingPhase =>
      simp only [Stream.fail, hpc, Option.some.injEq] at hfail
      subst hfail
      exact Or.inr (Or.inl ⟨503, rfl⟩)
    | checking =>
      simp only [Stream.fail, hpc, Option.some.injEq] at hfail
      subst hfail
      exact h.keep rfl (by simp [hpc]) (by simp [hpc]) (by simp [StreamPc.deadline?])
    | polling deadline =>
      simp only [Stream.fail, hpc, Option.some.injEq] at hfail
      subst hfail
      exact h.keep rfl (by simp [hpc]) (by simp [hpc]) (by simp [StreamPc.deadline?])
    | _ => simp [Stream.fail, hpc] at hfail
  | advanced hadv =>
    cases hadv with
    -- the limit is set from the clock, which is past the creation
    | arm hpc =>
      rcases h with h | ⟨status, h⟩ | ⟨c, hc, hs, _⟩
      · simp [hpc] at h
      · simp [hpc] at h
      · refine Or.inr (Or.inr ⟨c, hc, hs, ?_⟩)
        intro deadline hd
        obtain rfl : σ.store.now + maxStream = deadline := by simpa [StreamPc.deadline?] using hd
        exact Nat.add_le_add_right (hi.past c hc) _
    | retry _ hpc => exact h.keep rfl (by simp [hpc]) (by simp [hpc]) (by simp [StreamPc.deadline?])
    | connected _ hpc =>
      exact h.keep rfl (by simp [hpc]) (by simp [hpc]) (by simp [StreamPc.deadline?])
    | check hpc => exact h.keep rfl (by simp [hpc]) (by simp [hpc]) (by simp [StreamPc.deadline?])
    | wait _ hpc _ =>
      exact h.keep rfl (by simp [hpc]) (by simp [hpc]) (by simp [hpc, StreamPc.deadline?])
    | expire _ hpc _ =>
      exact h.keep rfl (by simp [hpc]) (by simp [hpc]) (by simp [StreamPc.deadline?])
    | take _ _ _ _ hpc _ =>
      exact h.keep rfl (by simp [hpc]) (by simp [hpc]) (by simp [hpc, StreamPc.deadline?])
    | timeout _ _ hpc _ _ =>
      exact h.keep rfl (by simp [hpc]) (by simp [hpc]) (by simp [hpc, StreamPc.deadline?])
    | goOn _ _ hpc _ =>
      exact h.keep rfl (by simp [hpc]) (by simp [hpc]) (by simp [hpc, StreamPc.deadline?])
    | finish _ _ hpc _ =>
      exact h.keep rfl (by simp [hpc]) (by simp [hpc]) (by simp [StreamPc.deadline?])
    | alive _ hpc =>
      exact h.keep rfl (by simp [hpc]) (by simp [hpc]) (by simp [hpc, StreamPc.deadline?])
    | last hpc => exact h.keep rfl (by simp [hpc]) (by simp [hpc]) (by simp [StreamPc.deadline?])
    | leave hpc => exact h.keep rfl (by simp [hpc]) (by simp [hpc]) (by simp [StreamPc.deadline?])
  | closed hclose =>
    have hne : st.pc ≠ .checkingPhase ∧ ∀ status, st.pc ≠ .refused status := by
      cases hpc : st.pc <;> simp [Stream.close, hpc] at hclose <;> simp
    rcases Stream.close_cases hclose with ⟨heq, _, hpc'⟩
    refine h.keep (by rw [heq]) hne.1 hne.2 ?_
    rcases hpc' with hpc' | hpc' <;> simp [hpc', StreamPc.deadline?]
  | received _ _ => exact h
  | still _ _ => exact h

theorem limits_step (hi : Inv env σ) (h : step env l σ = some σ')
    (hlim : ∀ i st, σ.streams i = some st → LimitOk σ st) :
    ∀ i st, σ'.streams i = some st → LimitOk σ' st := by
  intro i st' hst'
  have hc := (histories_of_step h).1.subset
  cases hst : σ.streams i with
  | some st =>
    rcases moved_of_step h hst with ⟨st₁, hst₁, hmoved⟩
    obtain rfl := Option.some.inj (hst'.symm.trans hst₁)
    exact ((hlim i st hst).moved hi hmoved).mono hc
  | none =>
    rcases new_of_step h hst hst' with ⟨sid, w, _, rfl⟩
    exact Or.inl rfl

theorem limits_of_run {ok : Lts.Guard State Label} {ls : List Label}
    (h : (server env).Run ok (server env).init ls σ) :
    (Inv env σ ∧ Flow env σ) ∧ ∀ i st, σ.streams i = some st → LimitOk σ st := by
  refine h.invariant (P := fun σ => (Inv env σ ∧ Flow env σ) ∧
    ∀ i st, σ.streams i = some st → LimitOk σ st) ⟨⟨Inv.init, Flow.init⟩, ?_⟩ ?_
  · intro i st hst
    simp [server, State.init] at hst
  · intro l s t _ hs hall
    exact ⟨⟨hall.1.1.of_step hs, hall.1.2.of_step hall.1.1 hs⟩,
      limits_step hall.1.1 hs hall.2⟩

/-- No winner of a session still waits for its answer when a stream of it says EXPIRED. -/
def winnersAnswered : Lts.Guard State Label := fun l σ =>
  ∀ i st, SaysExpired l σ i st →
    ∀ k ∈ σ.commits, k.sid = st.sid → (σ.answer? k.req).isSome = true

/-- At the step from `σ` to `σ'`, at which a stream of session `sid` says EXPIRED, the hash is gone,
and whatever happens from then on, no verify request of the session is answered PASS or FAIL. -/
def IsFinal (env : Env) (σ σ' : State) (sid : Str) : Prop :=
  σ'.store.db (key sid) = none ∧
  ∀ ls τ, (server env).Run Lts.anyStep σ' ls τ → ∀ r body response,
    τ.request? r = some (.verify sid body) → σ.answer? r = none → τ.answer? r = some response →
    ¬ response.isPass ∧ ¬ response.isFail

/-- A time to live that the store accepts, and that is over before any stream of the session is. -/
def ShortLived (env : Env) : Prop :=
  longLongMin.tdiv 1000 ≤ env.sessionTtlSeconds ∧ env.sessionTtlSeconds ≤ 900

/-- With at most fifteen minutes to live, a session is gone when a stream reaches its limit. -/
theorem gone_of_saysExpired (httl : ShortLived env) (hi : Inv env σ)
    (hlim : ∀ i st, σ.streams i = some st → LimitOk σ st) (hclock : σ.store.now ≤ longLongMax)
    (htold : SaysExpired l σ i st) :
    σ.store.db (key st.sid) = none ∧ ∃ c ∈ σ.creations, c.sid = st.sid := by
  rcases htold with ⟨hst, hcases⟩
  rcases hcases with ⟨_, hpc, hdb⟩ | ⟨_, deadline, hpc, hle⟩
  · refine ⟨hdb, ?_⟩
    rcases hlim i st hst with h | ⟨status, h⟩ | ⟨c, hc, hs, _⟩
    · rcases hpc with hpc | ⟨_, hpc⟩ <;> simp [hpc] at h
    · rcases hpc with hpc | ⟨_, hpc⟩ <;> simp [hpc] at h
    · exact ⟨c, hc, hs⟩
  · rcases hlim i st hst with h | ⟨status, h⟩ | ⟨c, hc, hs, hdeadline⟩
    · simp [hpc] at h
    · simp [hpc] at h
    · refine ⟨?_, c, hc, hs⟩
      have hlimit := hdeadline deadline (by simp [hpc, StreamPc.deadline?])
      by_contra hne
      rcases Option.ne_none_iff_exists'.mp hne with ⟨e, he⟩
      rcases hi.entry_of_stored he with ⟨c', hc', hs', rfl⟩
      obtain rfl := hi.creation_unique hc hc' (hs.trans hs'.symm)
      simp only [maxStream] at hlimit
      rcases httl with ⟨hmin, hmax⟩
      -- the clock has room for the deadline, so it was accepted
      have hlong : longLongMax.tdiv 1000 = 9223372036854775 := by decide
      have haccepted : Expirable c.instant env.sessionTtlSeconds :=
        ⟨by omega, hmin, by omega⟩
      -- the hash dies at its deadline, which is not later than the stream's limit
      have hlive := hi.live _ _ _ he (deadline?_of_expirable haccepted)
      omega

/-- After the hash of a session is gone, only a winner of before is answered an outcome. -/
theorem isFinal_of_gone (hi : Inv env σ) (h : step env l σ = some σ') (hl : l.ofStream = true)
    {sid : Str} (hdb : σ.store.db (key sid) = none) (hc : ∃ c ∈ σ.creations, c.sid = sid)
    (hans : ∀ k ∈ σ.commits, k.sid = sid → (σ.answer? k.req).isSome = true) :
    IsFinal env σ σ' sid := by
  have hcore := sameCore_of_step hl h
  have hi' := hi.of_step h
  have hdb' : σ'.store.db (key sid) = none := by rw [hcore.store, hdb]
  refine ⟨hdb', ?_⟩
  intro ls τ hrun r body response hreq hold hnew
  have herr : response.isError := by
    by_contra hne
    have hτ : Inv env τ := hrun.preserves (P := Inv env) (fun _ _ _ _ hs hi => hi.of_step hs) hi'
    -- an outcome is a winner's, and there are no new winners without a hash
    rcases hτ.won_of_answer hreq hnew hne with ⟨k, hk, rfl, hs, _⟩
    have hk' := hi'.commits_of_gone (by rw [hcore.creations]; exact hc) hdb' hrun k hk hs
    have hsome := hans k (by rwa [hcore.commits] at hk') hs
    simp [hold] at hsome
  exact ⟨fun hpass => hpass.not_isError herr, fun hfail => hfail.not_isError herr⟩

/-- Sessions live at most fifteen minutes: then nothing is left of one that EXPIRED was said of. -/
theorem gone_of_ttl (httl : ShortLived env) {ok : Lts.Guard State Label} {ls : List Label}
    (hrun : (server env).Run ok (server env).init ls σ) (hclock : σ.store.now ≤ longLongMax)
    (h : step env l σ = some σ') (hem : Emits σ σ' i st data) (hexp : IsExpired data) :
    l.ofStream = true ∧ σ.store.db (key st.sid) = none ∧ (∃ c ∈ σ.creations, c.sid = st.sid) ∧
      SaysExpired l σ i st := by
  rcases limits_of_run hrun with ⟨⟨hi, hf⟩, hlim⟩
  have htold := saysExpired_of_emits hi hf h hem hexp
  rcases gone_of_saysExpired httl hi hlim hclock htold with ⟨hdb, hc⟩
  have hl : l.ofStream = true := by
    rcases htold.2 with ⟨rfl, _⟩ | ⟨rfl, _⟩ <;> rfl
  exact ⟨hl, hdb, hc, htold⟩

/-- And then EXPIRED is final. -/
theorem expired_is_final_of_ttl (httl : ShortLived env) {ls : List Label}
    (hrun : (server env).Run winnersAnswered (server env).init ls σ) (hok : winnersAnswered l σ)
    (hclock : σ.store.now ≤ longLongMax) (h : step env l σ = some σ')
    (hem : Emits σ σ' i st data) (hexp : IsExpired data) : IsFinal env σ σ' st.sid := by
  rcases gone_of_ttl httl hrun hclock h hem hexp with ⟨hl, hdb, hc, htold⟩
  exact isFinal_of_gone (Inv.of_run hrun) h hl hdb hc (hok i st htold)

/-! ### Longer than fifteen minutes -/

/-- A stream on a new session that gets past its checks and then waits for fifteen minutes; it is
about to reach its limit. -/
def idleStream (i : ℕ) (sid : Str) : List Label :=
  [.stream i sid 0, .read i .none, .advance i, .advance i, .advance i, .read i .none, .advance i,
    .advance i, .tick maxStream, .advance i, .read i .none, .advance i]

/-- Stream `i` is `st` in state `σ`, over a given store and given commits. -/
def StreamAt (i : ℕ) (st : Stream) (store : Store) (commits : List Commit) (σ : State) : Prop :=
  σ.streams i = some st ∧ σ.store = store ∧ σ.commits = commits

/-- A local step of a stream, taken. -/
theorem StreamAt.advance {store : Store} {commits : List Commit} (h : StreamAt i st store commits σ)
    (env : Env) (st' : Stream) (hadv : st.advance store.now = some st') :
    ∃ σ', step env (.advance i) σ = some σ' ∧ StreamAt i st' store commits σ' := by
  rcases h with ⟨hst, rfl, rfl⟩
  exact ⟨(σ.setWorker st.worker { σ.workers st.worker with
      hub := st.hubStep i (σ.workers st.worker).hub }).setStream i st', by simp [step, hst, hadv],
    State.setStream_streams_self _ _ _, rfl, rfl⟩

/-- A read of a stream, taken. -/
theorem StreamAt.read {store : Store} {commits : List Commit} (h : StreamAt i st store commits σ)
    (env : Env) (st' : Stream) (hread : st.redis store = some st') :
    ∃ σ', step env (.read i .none) σ = some σ' ∧ StreamAt i st' store commits σ' := by
  rcases h with ⟨hst, rfl, rfl⟩
  exact ⟨σ.setStream i st', by simp [step, hst, hread], State.setStream_streams_self _ _ _, rfl,
    rfl⟩

theorem StreamAt.tick {store : Store} {commits : List Commit} (h : StreamAt i st store commits σ)
    (env : Env) (d : ℕ) :
    ∃ σ', step env (.tick d) σ = some σ' ∧ StreamAt i st (store.tick d) commits σ' := by
  rcases h with ⟨hst, rfl, rfl⟩
  exact ⟨_, rfl, hst, rfl, rfl⟩

/-- A stream reaches its limit while the session is alive and waits for Bob. -/
theorem stream_reaches_limit (hi : Inv env σ) {sid : Str} {e : Entry Field}
    (hnone : σ.streams i = none) (hdb : σ.store.db (key sid) = some e) (hw : σ.winner sid = none)
    (hlate : ∀ t, e.expiresAt = some t → σ.store.now + maxStream < t) :
    ∃ τ, (server env).Run Lts.anyStep σ (idleStream i sid) τ ∧ τ.store.db (key sid) = some e ∧
      τ.store.now = σ.store.now + maxStream ∧ τ.commits = σ.commits ∧ ∃ st, τ.streams i = some st ∧ st.sid = sid ∧
        st.AtLimit τ.store.now := by
  have hphase : e.fields .phase = some waitingForBob := (hi.waiting_iff hdb).mpr hw
  have hget : SessionStore.getPhase σ.store sid = some waitingForBob := by
    simp [SessionStore.getPhase, Server.hget_eq hdb, hphase]
  have hterm : ∀ db : Store, db.db (key sid) = some e →
      SessionStore.terminalEvent db sid = .ok none := by
    intro db he
    have hv := verified_ne_waiting.symm
    have hf := failed_ne_waiting.symm
    simp [SessionStore.terminalEvent, Server.hget_eq he, hphase, hv, hf]
  have htick : (σ.store.tick maxStream).db (key sid) = some e :=
    Server.tick_db_eq_some.mpr ⟨hdb, hlate⟩
  have hheartbeat : heartbeat ≤ maxStream := by decide
  have hpos : 0 < maxStream := by decide
  -- the route and the first check
  have h₁ : step env (.stream i sid 0) σ = some (σ.setStream i (Stream.new sid 0)) := by
    simp [step, hnone]
  have at₁ : StreamAt i (Stream.new sid 0) σ.store σ.commits (σ.setStream i (Stream.new sid 0)) :=
    ⟨State.setStream_streams_self _ _ _, rfl, rfl⟩
  obtain ⟨σ₂, h₂, at₂⟩ := at₁.read env ⟨sid, 0, .created waitingForBob, [], []⟩
    (by simp [Stream.redis, Stream.new, hget])
  rcases at₂.advance env ⟨sid, 0, .atRetry waitingForBob, [], [.retry]⟩ rfl with ⟨σ₃, h₃, at₃⟩
  obtain ⟨σ₄, h₄, at₄⟩ := at₃.advance env ⟨sid, 0, .atConnected, [],
    [.retry, .message (connectedEvent waitingForBob).dumps]⟩ rfl
  obtain ⟨σ₅, h₅, at₅⟩ := at₄.advance env ⟨sid, 0, .checking, [],
    [.retry, .message (connectedEvent waitingForBob).dumps]⟩ rfl
  obtain ⟨σ₆, h₆, at₆⟩ := at₅.read env ⟨sid, 0, .armed, [],
    [.retry, .message (connectedEvent waitingForBob).dumps]⟩
    (by simp [Stream.redis, hterm _ hdb, Stream.checked])
  obtain ⟨σ₇, h₇, at₇⟩ := at₆.advance env ⟨sid, 0, .looping (σ.store.now + maxStream), [],
    [.retry, .message (connectedEvent waitingForBob).dumps]⟩ rfl
  obtain ⟨σ₈, h₈, at₈⟩ := at₇.advance env
    ⟨sid, 0, .waiting (σ.store.now + maxStream) σ.store.now, [],
      [.retry, .message (connectedEvent waitingForBob).dumps]⟩ (by simp [Stream.advance, hpos])
  -- fifteen minutes later: the heartbeat check finds nothing, and the loop is over
  rcases at₈.tick env maxStream with ⟨σ₉, h₉, at₉⟩
  obtain ⟨σ₁₀, h₁₀, at₁₀⟩ := at₉.advance env ⟨sid, 0, .polling (σ.store.now + maxStream), [],
    [.retry, .message (connectedEvent waitingForBob).dumps]⟩ (by simp [Stream.advance, hheartbeat])
  obtain ⟨σ₁₁, h₁₁, at₁₁⟩ := at₁₀.read env ⟨sid, 0, .atKeepalive (σ.store.now + maxStream), [],
    [.retry, .message (connectedEvent waitingForBob).dumps, .keepalive]⟩
    (by simp [Stream.redis, hterm _ htick, Stream.checked, Stream.yield])
  obtain ⟨σ₁₂, h₁₂, hst, hstore, hcommits⟩ := at₁₁.advance env
    ⟨sid, 0, .looping (σ.store.now + maxStream), [],
      [.retry, .message (connectedEvent waitingForBob).dumps, .keepalive]⟩ rfl
  refine ⟨σ₁₂, .cons trivial h₁ <| .cons trivial h₂ <| .cons trivial h₃ <| .cons trivial h₄ <|
    .cons trivial h₅ <| .cons trivial h₆ <| .cons trivial h₇ <| .cons trivial h₈ <|
    .cons trivial h₉ <| .cons trivial h₁₀ <| .cons trivial h₁₁ <| .single trivial h₁₂,
    by rw [hstore, htick], by rw [hstore, Server.tick_now], hcommits, _, hst, rfl, σ.store.now + maxStream, rfl, ?_⟩
  rw [hstore, Server.tick_now]

/-- In a run at whose end nobody has won, nobody has won before. -/
theorem run_without_win {ls : List Label} (h : (server env).Run Lts.anyStep σ ls σ')
    (hnone : σ'.commits = []) : (server env).Run (fun _ σ => σ.commits = []) σ ls σ' := by
  induction h with
  | nil σ => exact Lts.Run.nil σ
  | cons hok hs hr ih =>
    have hempty := (later_of_run hr).commits
    rw [hnone, List.prefix_nil] at hempty
    have hempty' := (later_of_step hs).commits
    rw [hempty, List.prefix_nil] at hempty'
    exact Lts.Run.cons hempty' hs (ih hnone)

/-- The sample session is created and, unless its time to live is at most fifteen minutes, lives
longer than that. -/
theorem sample_created (env : Env) (httl : ¬ ShortLived env) :
    ∃ σ e, (server env).exec Sample.create (server env).init = some σ ∧
      σ.store.db (key Sample.sid) = some e ∧
      (∀ t, e.expiresAt = some t → σ.store.now + maxStream < t) ∧ σ.store.now = 0 ∧
      σ.commits = [] ∧ σ.streams 0 = none := by
  let form : CreateForm := ⟨lit "Alice", lit "Where?", lit "Porto", Sample.jwk (lit "alice")⟩
  have hstart : Handler.start (.create (Sample.createBody (Sample.jwk (lit "alice")))) =
      .embedding form := rfl
  have hname : (Handler.naming form Sample.vector).name 0 Sample.sid =
      some (.creating form Sample.vector Sample.sid (natText 0)) := rfl
  have habsent : (Server.init : Store).db (key Sample.sid) = none := rfl
  have hnow : (Server.init : Store).now = 0 := rfl
  have hlong : ¬ (Expirable 0 env.sessionTtlSeconds ∧ env.sessionTtlSeconds ≤ 900) :=
    fun h => httl ⟨h.1.2.1, h.2⟩
  refine ⟨_, ⟨SessionStore.newSession form Sample.vector (natText 0),
    deadline? 0 env.sessionTtlSeconds⟩, by
    simp [Lts.exec, server, step, Sample.create, State.init, State.setReq, State.apply, hstart,
      Handler.embed, hnow, hname, Handler.redis]
    rfl, ?_, ?_, ?_, ?_, ?_⟩
  · have hstays : ¬ (Expirable 0 env.sessionTtlSeconds ∧ env.sessionTtlSeconds ≤ 0) :=
      fun h => hlong ⟨h.1, h.2.trans (by decide)⟩
    simp [SessionStore.create_of_absent habsent, SessionStore.createdEntry, hnow, hstays]
  · intro t ht
    rcases deadline?_eq_some ht with ⟨hexp, rfl⟩
    have hlate : 900 < env.sessionTtlSeconds := not_le.mp fun hle => hlong ⟨hexp, hle⟩
    simp only [SessionStore.create_now, hnow, maxStream]
    omega
  · simp [hnow]
  · rfl
  · rfl

/-- A session that lives longer than fifteen minutes and is not answered is still there when its
stream says EXPIRED. -/
theorem expired_while_alive (env : Env) (httl : ¬ ShortLived env) :
    ∃ σ σ' st, (server env).Run winnersAnswered (server env).init
        (Sample.create ++ idleStream 0 Sample.sid) σ ∧ winnersAnswered (.advance 0) σ ∧
      σ.store.now ≤ longLongMax ∧ step env (.advance 0) σ = some σ' ∧
      Emits σ σ' 0 st SessionStore.expiredEvent.dumps ∧ σ'.store.db (key st.sid) ≠ none := by
  rcases sample_created env httl with ⟨σ₁, e, hexec₁, hdb, hlate, hnow, hcommits, hnone⟩
  have hrun₁ := Lts.run_of_exec hexec₁
  have hwinner : σ₁.winner Sample.sid = none := by simp [State.winner, hcommits]
  obtain ⟨σ, hrest, hdb', hnow', hcommits', st, hst, hsid, deadline, hpc, hle⟩ :=
    stream_reaches_limit (Inv.of_run hrun₁) hnone hdb hwinner hlate
  have hrun := hrun₁.append hrest
  have hempty : σ.commits = [] := hcommits'.trans hcommits
  have hguard : ∀ l (τ : State), τ.commits = [] → winnersAnswered l τ := by
    intro l τ hτ i st _ k hk
    simp [hτ] at hk
  have hadv : st.advance σ.store.now =
      some (st.yield (.message SessionStore.expiredEvent.dumps) .atLast) := by
    simp [Stream.advance, hpc, Nat.not_lt.mpr hle]
  have hstep : step env (.advance 0) σ = some ((σ.setWorker st.worker
      { σ.workers st.worker with hub := st.hubStep 0 (σ.workers st.worker).hub }).setStream 0
        (st.yield (.message SessionStore.expiredEvent.dumps) .atLast)) := by
    simp [step, hst, hadv]
  refine ⟨σ, _, st, (run_without_win hrun hempty).mono fun l s hs => hguard l s hs,
    hguard _ _ hempty, ?_, hstep, ⟨hst, _, State.setStream_streams_self _ _ _, rfl⟩, ?_⟩
  · rw [hnow', hnow]
    decide
  · simp [hsid, hdb']

/-- When a stream says EXPIRED its hash is gone exactly when sessions live at most fifteen minutes,
and then EXPIRED is final, up to answers already on their way. The store's clock is a 64-bit
number. -/
theorem expired_is_final_iff (env : Env) :
    ((∀ ls l σ σ' i st data, (server env).Run Lts.anyStep (server env).init ls σ →
      σ.store.now ≤ longLongMax → step env l σ = some σ' → Emits σ σ' i st data →
      IsExpired data → σ'.store.db (key st.sid) = none) ↔ ShortLived env) ∧
    ((∀ ls l σ σ' i st data, (server env).Run winnersAnswered (server env).init ls σ →
      winnersAnswered l σ → σ.store.now ≤ longLongMax → step env l σ = some σ' →
      Emits σ σ' i st data → IsExpired data → IsFinal env σ σ' st.sid) ↔ ShortLived env) := by
  refine ⟨⟨?_, ?_⟩, ?_, ?_⟩
  · intro habsent
    by_contra httl
    obtain ⟨σ, σ', st, hrun, _, hclock, hstep, hem, halive⟩ := expired_while_alive env httl
    exact halive (habsent _ _ _ _ _ _ _ (hrun.mono fun _ _ _ => trivial) hclock hstep hem
      ⟨_, Json.loads_dumps _, rfl⟩)
  · intro httl ls l σ σ' i st data hrun hclock hstep hem hexp
    rcases gone_of_ttl httl hrun hclock hstep hem hexp with ⟨hl, hdb, _⟩
    rw [(sameCore_of_step hl hstep).store, hdb]
  · intro hfinal
    by_contra httl
    obtain ⟨σ, σ', st, hrun, hok, hclock, hstep, hem, halive⟩ := expired_while_alive env httl
    exact halive (hfinal _ _ _ _ _ _ _ hrun hok hclock hstep hem
      ⟨_, Json.loads_dumps _, rfl⟩).1
  · intro httl ls l σ σ' i st data hrun hok hclock hstep hem hexp
    exact expired_is_final_of_ttl httl hrun hok hclock hstep hem hexp

/-- With an hour to live, an unanswered session is there when its stream says EXPIRED. -/
theorem expired_before_an_hour :
    ∃ σ σ' st, (server { Sample.config with sessionTtlSeconds := 3600 }).Run Lts.anyStep State.init
        (Sample.create ++ idleStream 0 Sample.sid) σ ∧
      step { Sample.config with sessionTtlSeconds := 3600 } (.advance 0) σ = some σ' ∧
      Emits σ σ' 0 st SessionStore.expiredEvent.dumps ∧
      IsExpired SessionStore.expiredEvent.dumps ∧ σ'.store.db (key st.sid) ≠ none := by
  obtain ⟨σ, σ', st, hrun, _, _, hstep, hem, halive⟩ :=
    expired_while_alive { Sample.config with sessionTtlSeconds := 3600 } (by simp [ShortLived])
  exact ⟨σ, σ', st, hrun.mono fun _ _ _ => trivial, hstep, hem, ⟨_, Json.loads_dumps _, rfl⟩,
    halive⟩

end Doppelganger
