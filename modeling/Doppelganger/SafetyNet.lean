import Doppelganger.Coherence
import Doppelganger.Untold

/-!
# The safety net

Messages may be lost on their way to a stream, all of them even: the heartbeat check
finds the outcome in the hash. So from the moment of a win its streams hear of it
within one heartbeat, not counting the time in which a stream had something to do and
was not run.
-/

open Text Redis

namespace Doppelganger

variable {env : Env} {l : Label} {σ σ' : State} {i : ℕ} {st st' : Stream} {k : Commit} {t₀ n : ℕ}

/-- The stream has yielded an event that reports the outcome of `k`. -/
def Stream.Told (env : Env) (k : Commit) (st : Stream) : Prop :=
  ∃ data, .message data ∈ st.out ∧ Reports env k data

/-- When a stream can go on at the earliest: one that sleeps in `q.get` on an empty queue, when its
timeout is over. -/
def Stream.wakesAt (st : Stream) (now : ℕ) : ℕ :=
  match st.pc, st.queue with
  | .waiting _ since, [] => max now (since + heartbeat)
  | _, _ => now

/-- The part of a step's time in which stream `i`, still following its session, could have gone
on. -/
def overtime (i : ℕ) (l : Label) (σ : State) : ℕ :=
  match l, σ.streams i with
  | .tick d, some st =>
    if st.pc.following then σ.store.now + d - st.wakesAt σ.store.now else 0
  | _, _ => 0

/-- Stream `i` meets no Redis error, its client stays, and the outcome stays within its reach. -/
def carried (i : ℕ) : Lts.Guard State Label := fun l σ =>
  Generator.leftAlone i l σ ∧ outcomeStays i l σ

/-! ## What a stream has behind it -/

/-- A wait has begun, and a message taken from the queue has been yielded. -/
structure Stream.Begun (now : ℕ) (st : Stream) : Prop where
  since : ∀ deadline since, st.pc = .waiting deadline since → since ≤ now
  yielded : ∀ deadline data, st.pc = .atMessage deadline data → .message data ∈ st.out

theorem Stream.Begun.mono {now now' : ℕ} (h : st.Begun now) (hle : now ≤ now') : st.Begun now' :=
  ⟨fun deadline since hpc => (h.since deadline since hpc).trans hle, h.yielded⟩

/-- A stream that neither waits nor holds a message. -/
theorem Stream.Begun.of_pc {now : ℕ} (hwait : ∀ deadline since, st.pc ≠ .waiting deadline since)
    (htaken : ∀ deadline data, st.pc ≠ .atMessage deadline data) : st.Begun now :=
  ⟨fun deadline since hpc => absurd hpc (hwait deadline since),
    fun deadline data hpc => absurd hpc (htaken deadline data)⟩

theorem Stream.Begun.moved (hmoved : st.Moved σ i l st') (h : st.Begun σ.store.now) :
    st'.Begun σ.store.now := by
  cases hmoved with
  | read hread => cases hread <;> exact .of_pc (by simp) (by simp)
  | failed _ hfail =>
    rcases (Stream.fail_cases hfail).2.2 with hpc | hpc
    · exact .of_pc (by simp [hpc]) (by simp [hpc])
    · exact .of_pc (by simp [hpc]) (by simp [hpc])
  | closed hclose =>
    rcases (Stream.close_cases hclose).2.2 with hpc | hpc <;>
      exact .of_pc (by simp [hpc]) (by simp [hpc])
  | received _ _ => exact ⟨h.since, h.yielded⟩
  | still _ _ => exact h
  | advanced hadv =>
    cases hadv with
    | wait deadline _ _ =>
      refine ⟨?_, by simp⟩
      intro deadline' since hpc
      exact (StreamPc.waiting.inj hpc).2 ▸ le_rfl
    | take deadline since data queue _ _ =>
      refine ⟨by simp, ?_⟩
      intro deadline' data' hpc
      rw [← (StreamPc.atMessage.inj hpc).2]
      simp
    | _ => exact .of_pc (by simp) (by simp)

theorem begun_of_run {ok : Lts.Guard State Label} {ls : List Label}
    (h : (server env).Run ok (server env).init ls σ) :
    ∀ i st, σ.streams i = some st → st.Begun σ.store.now := by
  refine h.invariant (P := fun σ => ∀ i st, σ.streams i = some st → st.Begun σ.store.now) ?_ ?_
  · intro i st hst
    cases hst
  · intro l σ σ' _ hs hbegun i st' hst'
    have hle : σ.store.now ≤ σ'.store.now := by
      rw [now_of_step hs]
      exact Nat.le_add_right _ _
    cases hst : σ.streams i with
    | none =>
      rcases new_of_step hs hst hst' with ⟨sid, w, _, rfl⟩
      exact .of_pc (by simp [Stream.new]) (by simp [Stream.new])
    | some st =>
      rcases moved_of_step hs hst with ⟨st₁, hst₁, hmoved⟩
      obtain rfl := Option.some.inj (hst'.symm.trans hst₁)
      exact ((hbegun i st hst).moved hmoved).mono hle

/-! ## A stream on time -/

/-- A stream that has until `limit`, and one heartbeat more if it waits or has just waited. -/
structure Stream.OnTime (limit now : ℕ) (st : Stream) : Prop where
  following : st.pc.following = true
  untaken : ∀ deadline data, st.pc ≠ .atMessage deadline data
  soon : now ≤ limit + heartbeat
  before : (∀ deadline since, st.pc ≠ .waiting deadline since) →
    (∀ deadline, st.pc ≠ .polling deadline) → now ≤ limit
  slept : ∀ deadline since, st.pc = .waiting deadline since → since ≤ limit

namespace Stream.OnTime

variable {limit now d : ℕ}

/-- Time goes on: what the stream does not sleep through is added to its limit. -/
theorem tick (h : st.OnTime limit now) :
    st.OnTime (limit + (now + d - st.wakesAt now)) (now + d) := by
  -- awake, the stream is charged for all of it
  have hawake : st.wakesAt now = now →
      st.OnTime (limit + (now + d - st.wakesAt now)) (now + d) := by
    intro hwake
    have hcharge : now + d - st.wakesAt now = d := by omega
    rw [hcharge]
    have hsoon := h.soon
    refine ⟨h.following, h.untaken, by omega, ?_, ?_⟩
    · intro hwait hpoll
      have hbefore := h.before hwait hpoll
      omega
    · intro deadline since hpc
      exact (h.slept deadline since hpc).trans (Nat.le_add_right _ _)
  cases hpc : st.pc with
  | waiting deadline since =>
    cases hq : st.queue with
    | cons data queue => exact hawake (by simp [wakesAt, hpc, hq])
    | nil =>
      have hwake : st.wakesAt now = max now (since + heartbeat) := by simp [wakesAt, hpc, hq]
      have hslept := h.slept deadline since hpc
      have hsoon := h.soon
      rw [hwake]
      refine ⟨h.following, h.untaken, by omega, ?_, ?_⟩
      · intro hwait _
        exact absurd hpc (hwait deadline since)
      · intro deadline' since' hpc'
        exact (h.slept deadline' since' hpc').trans (Nat.le_add_right _ _)
  | _ => exact hawake (by simp [wakesAt, hpc])

/-- A local step keeps the stream on time, unless its limit is reached or it takes a message. -/
theorem advanced (h : st.OnTime limit now) (hadv : st.Advanced now st')
    (hlimit : ¬ st.AtLimit now) :
    st'.OnTime limit now ∨ ∃ data ∈ st.queue, .message data ∈ st'.out := by
  have hfollowing := h.following
  have hsoon := h.soon
  -- every point but the two around a wait is reached before the limit
  have hpoint : ∀ {st' : Stream}, st'.pc.following = true →
      (∀ deadline data, st'.pc ≠ .atMessage deadline data) →
      (∀ deadline since, st'.pc ≠ .waiting deadline since) → now ≤ limit →
      st'.OnTime limit now := by
    intro st' hfollow huntaken hwait hle
    exact ⟨hfollow, huntaken, hsoon, fun _ _ => hle, fun d s hpc => absurd hpc (hwait d s)⟩
  have hearly := h.before
  cases hadv with
  | retry phase hpc =>
    exact Or.inl (hpoint rfl (by simp) (by simp) (hearly (by simp [hpc]) (by simp [hpc])))
  | connected phase hpc =>
    exact Or.inl (hpoint rfl (by simp) (by simp) (hearly (by simp [hpc]) (by simp [hpc])))
  | check hpc =>
    exact Or.inl (hpoint rfl (by simp) (by simp) (hearly (by simp [hpc]) (by simp [hpc])))
  | arm hpc =>
    exact Or.inl (hpoint rfl (by simp) (by simp) (hearly (by simp [hpc]) (by simp [hpc])))
  | alive deadline hpc =>
    exact Or.inl (hpoint rfl (by simp) (by simp) (hearly (by simp [hpc]) (by simp [hpc])))
  | wait deadline hpc hlt =>
    have hle := hearly (by simp [hpc]) (by simp [hpc])
    refine Or.inl ⟨rfl, by simp, hsoon, fun _ _ => hle, ?_⟩
    intro deadline' since hpc'
    exact (StreamPc.waiting.inj hpc').2 ▸ hle
  | timeout deadline since hpc _ _ =>
    refine Or.inl ⟨rfl, by simp, hsoon, ?_, by simp⟩
    intro _ hpoll
    exact absurd rfl (hpoll deadline)
  | expire deadline hpc hle => exact absurd ⟨deadline, hpc, hle⟩ hlimit
  | take deadline since data queue hpc hq =>
    right
    refine ⟨data, ?_, ?_⟩
    · simp [hq]
    · simp
  | goOn deadline data hpc _ => exact absurd hpc (h.untaken deadline data)
  | finish deadline data hpc _ => exact absurd hpc (h.untaken deadline data)
  | last hpc => simp [hpc, StreamPc.following] at hfollowing
  | leave hpc => simp [hpc, StreamPc.following] at hfollowing

end Stream.OnTime

/-! ## The bound -/

/-- A check that finds the hash of a finalized session yields the outcome. -/
theorem told_of_read (hi : Inv env σ) (hk : k ∈ σ.commits) (hsid : st.sid = k.sid)
    (hdb : st.AtCheck → σ.store.db (key st.sid) ≠ none) (hfollow : st.pc.following = true)
    (hread : st.Read σ.store st') : st'.Told env k := by
  have hwin : σ.winner st.sid = some k := by
    rw [hsid]
    exact hi.winner_of_mem hk
  -- with the hash there and a winner, `terminal_event` answers with the outcome
  have hevent : st.AtCheck → ∃ ev, SessionStore.terminalEvent σ.store st.sid = .ok (some ev) ∧
      Reports env k ev.dumps := by
    intro hcheck
    rcases terminalEvent_cases hi st.sid with ⟨hnone, _⟩ | ⟨_, _, hw, _⟩ |
      ⟨_, k', _, hw, ⟨_, hraise⟩ | ⟨ev, hev, hrep⟩⟩
    · exact absurd hnone (hdb hcheck)
    · rw [hw] at hwin
      cases hwin
    · rcases hi.terminalEvent_ok st.sid with ⟨_, hok⟩
      rw [hraise] at hok
      cases hok
    · obtain rfl := Option.some.inj (hw.symm.trans hwin)
      exact ⟨ev, hev, hrep⟩
  cases hread with
  | refused hpc _ => simp [hpc, StreamPc.following] at hfollow
  | opened phase hpc _ => simp [hpc, StreamPc.following] at hfollow
  | raised e hpc hev =>
    rcases hevent hpc with ⟨ev, hev', _⟩
    rw [hev] at hev'
    cases hev'
  | final ev hpc hev =>
    rcases hevent hpc with ⟨ev', hev', hrep⟩
    rw [hev] at hev'
    cases hev'
    refine ⟨ev.dumps, ?_, hrep⟩
    simp
  | nothing hpc hev =>
    rcases hevent (Or.inl hpc) with ⟨ev, hev', _⟩
    rw [hev] at hev'
    cases hev'
  | keepalive deadline hpc hev =>
    rcases hevent (Or.inr ⟨deadline, hpc⟩) with ⟨ev, hev', _⟩
    rw [hev] at hev'
    cases hev'

/-- What is yielded stays yielded. -/
theorem out_subset_of_moved (hmoved : st.Moved σ i l st') : st.out ⊆ st'.out := by
  cases hmoved with
  | read hread => cases hread <;> simp
  | failed _ hfail =>
    rw [(Stream.fail_cases hfail).1]
    exact fun _ => id
  | advanced hadv => cases hadv <;> simp
  | closed hclose =>
    rw [(Stream.close_cases hclose).1]
    exact fun _ => id
  | received _ _ => exact fun _ => id
  | still _ _ => exact fun _ => id

/-- What is queued for a stream of a finalized session reports the outcome. -/
theorem reports_of_queued (hi : Inv env σ) (hf : Flow env σ) (hst : σ.streams i = some st)
    (hk : k ∈ σ.commits) (hsid : st.sid = k.sid) {data : Str} (hdata : data ∈ st.queue) :
    Reports env k data := by
  rcases (hf.streams i st hst).queued data hdata with ⟨k', hk', hs, rfl⟩
  obtain rfl := hi.commit_unique hk' hk (hs.trans hsid)
  exact reports_message env k'

/-- Stream `i` has been told of `k`, or is on time. -/
def InTime (env : Env) (i : ℕ) (k : Commit) (t₀ n : ℕ) (σ : State) : Prop :=
  ∃ st, σ.streams i = some st ∧ st.sid = k.sid ∧
    (st.Told env k ∨ st.OnTime (t₀ + n) σ.store.now)

theorem inTime_step (hi : Inv env σ) (hf : Flow env σ) (hc : Covered i σ) (hk : k ∈ σ.commits)
    (hok : carried i l σ) (hs : step env l σ = some σ') (h : InTime env i k t₀ n σ) :
    InTime env i k t₀ (n + overtime i l σ) σ' := by
  rcases h with ⟨st, hst, hsid, h⟩
  rcases moved_of_step hs hst with ⟨st', hst', hmoved⟩
  have hsid' : st'.sid = k.sid := hmoved.frame.1.trans hsid
  refine ⟨st', hst', hsid', ?_⟩
  have hnow := now_of_step hs
  rcases h with ⟨data, hdata, hrep⟩ | hontime
  · exact Or.inl ⟨data, out_subset_of_moved hmoved hdata, hrep⟩
  -- nothing says EXPIRED of a session that has been won
  have hnot : ¬ SaysExpired l σ i st :=
    hc.not_saysExpired (by rw [hsid, hi.winner_of_mem hk]; simp)
  cases hmoved with
  | read hread =>
    left
    refine told_of_read hi hk hsid ?_ hontime.following hread
    intro hcheck hnone
    exact hnot ⟨hst, Or.inl ⟨rfl, hcheck, hnone⟩⟩
  | failed hfault _ => exact absurd (hok.1.2 _ rfl) hfault
  | closed _ => exact absurd rfl hok.1.1
  | advanced hadv =>
    have hlimit : ¬ st.AtLimit σ.store.now := by
      intro hlimit
      exact hnot ⟨hst, Or.inr ⟨rfl, hlimit⟩⟩
    rcases hontime.advanced hadv hlimit with hontime' | ⟨data, hdata, hout⟩
    · right
      rw [hnow]
      exact hontime'
    · exact Or.inl ⟨data, hout, reports_of_queued hi hf hst hk hsid hdata⟩
  | received _ _ =>
    right
    rw [hnow]
    exact ⟨hontime.following, hontime.untaken, hontime.soon, hontime.before, hontime.slept⟩
  | still _ _ =>
    right
    rw [hnow]
    cases l with
    | tick d =>
      have hcharge : overtime i (.tick d) σ = σ.store.now + d - st.wakesAt σ.store.now := by
        simp [overtime, hst, hontime.following]
      rw [hcharge, ← Nat.add_assoc]
      exact hontime.tick
    | _ => exact hontime

/-- A stream that follows its session at the time of a win, or begins to after it, is on time. -/
theorem inTime_of_following (hi : Inv env σ) (hf : Flow env σ) (hbegun : st.Begun σ.store.now)
    (hk : k ∈ σ.commits) (hst : σ.streams i = some st) (hsid : st.sid = k.sid)
    (hfollow : st.pc.following = true) : InTime env i k σ.store.now 0 σ := by
  refine ⟨st, hst, hsid, ?_⟩
  by_cases htaken : ∃ deadline data, st.pc = .atMessage deadline data
  · -- the message in hand is the outcome
    rcases htaken with ⟨deadline, data, hpc⟩
    rcases (hf.streams i st hst).taken deadline data hpc with ⟨k', hk', hs, rfl⟩
    obtain rfl := hi.commit_unique hk' hk (hs.trans hsid)
    exact Or.inl ⟨_, hbegun.yielded _ _ hpc, reports_message env k'⟩
  · right
    refine ⟨hfollow, fun deadline data hpc => htaken ⟨deadline, data, hpc⟩, ?_, ?_, hbegun.since⟩
    · exact Nat.le_add_right _ _
    · intro _ _
      exact le_rfl

/-- Whatever messages are lost: take a session that has been won and whose hash is there, and a
stream that follows it and has time left. Once more than a heartbeat has passed the stream has been
told of the outcome, not counting the time in which it could have gone on and was not run; as long
as its client stays, its reads do not fail, and the outcome stays within its reach. -/
theorem told_within_heartbeat {ls : List Label} (h : (server env).Reach Lts.anyStep σ)
    (hk : k ∈ σ.commits) (hdb : σ.store.db (key k.sid) ≠ none) (hst : σ.streams i = some st)
    (hsid : st.sid = k.sid) (hfollow : st.pc.following = true) (htime : ¬ st.Over σ.store.now)
    (hrun : (server env).Run (carried i) σ ls σ')
    (hlong : σ.store.now + (server env).cost (overtime i) ls σ + heartbeat < σ'.store.now) :
    ∃ st', σ'.streams i = some st' ∧ st'.sid = k.sid ∧ st'.Told env k := by
  rcases h with ⟨before, hbefore⟩
  rcases Flow.of_run hbefore with ⟨hi, hf⟩
  have hstart := inTime_of_following hi hf (begun_of_run hbefore i st hst) hk hst hsid hfollow
  have hcovered : Covered i σ := by
    intro st₀ hst₀ _ _
    obtain rfl := Option.some.inj (hst.symm.trans hst₀)
    exact ⟨by rwa [hsid], htime⟩
  have hend : ((Inv env σ' ∧ Flow env σ') ∧ Covered i σ' ∧ k ∈ σ'.commits) ∧
      InTime env i k σ.store.now (0 + (server env).cost (overtime i) ls σ) σ' := by
    refine hrun.charge (P := fun n τ => ((Inv env τ ∧ Flow env τ) ∧ Covered i τ ∧
      k ∈ τ.commits) ∧ InTime env i k σ.store.now n τ) ?_ ⟨⟨⟨hi, hf⟩, hcovered, hk⟩, hstart⟩
    rintro n l τ τ' hok hs ⟨⟨⟨hi, hf⟩, hc, hk⟩, htime⟩
    exact ⟨⟨⟨hi.of_step hs, hf.of_step hi hs⟩, hc.of_step hi hf hok.2 hs,
      (later_of_step hs).commits.subset hk⟩, inTime_step hi hf hc hk hok hs htime⟩
  rw [Nat.zero_add] at hend
  rcases hend.2 with ⟨st', hst', hsid', htold | hontime⟩
  · exact ⟨st', hst', hsid', htold⟩
  · exact absurd hontime.soon (Nat.not_le.mpr hlong)

/-- A step other than a Redis command carries the stream, if neither its session nor its own time
ends in it. -/
theorem carried_of_early (halone : Generator.leftAlone i l σ) (hl : ∀ r fault, l ≠ .redis r fault)
    (hearly : (σ.streams i).all (fun st =>
      ((σ.store.db (key st.sid)).bind Entry.expiresAt).all (σ.store.now + l.elapsed < ·) &&
        st.pc.deadline?.all (σ.store.now + l.elapsed < ·)) = true) : carried i l σ := by
  refine ⟨halone, ?_⟩
  intro st hst _ _
  simp only [hst, Option.all_some, Bool.and_eq_true] at hearly
  rcases hearly with ⟨hdb, hlimit⟩
  constructor
  · intro hremoves
    cases hremoves with
    | delete r fault => exact hl r fault rfl
    | expire d t e he ht hle =>
      have hlive : σ.store.now + (Label.tick d).elapsed < t :=
        of_decide_eq_true (by simpa [he, ht] using hdb)
      exact absurd hle (not_le.mpr hlive)
  · rintro ⟨deadline, hd, hle⟩
    have hlater : σ.store.now + l.elapsed < deadline := of_decide_eq_true (by simpa [hd] using hlimit)
    exact absurd hle (not_le.mpr hlater)

/-- It applies to a stream whose only message is lost: its heartbeat check tells it. -/
theorem told_within_heartbeat_sample :
    ∃ σ st k, (server Sample.config).Reach Lts.anyStep σ ∧ k ∈ σ.commits ∧
      σ.published.length = 1 ∧ (σ.workers 0).inflight = [] ∧
      σ.streams 0 = some st ∧ st.queue = [] ∧ st.Told Sample.config k := by
  let M := server Sample.config
  let won : List Label := Sample.subscribed ++ Sample.startWaiting 0 ++
    Sample.score 1 (lit "bob") Sample.vector ++ [.redis 1 .none]
  let opened : List Chunk := [.retry, .message (connectedEvent waitingForBob).dumps]
  let ev := SessionStore.verifiedEvent (.str (lit "bob")) (Sample.jwk (lit "bob")) 100
  have hwon := M.run_after won (by decide +kernel)
  have hst : (M.after won).streams 0 = some ⟨Sample.sid, 0, .waiting 900000 0, [], opened⟩ := by
    decide +kernel
  -- the one winner
  have hhead : (M.after won).commits.head?.map Commit.sid = some Sample.sid := by decide +kernel
  rcases Option.map_eq_some_iff.mp hhead with ⟨k, hk, hsid⟩
  have hmem := List.mem_of_head? hk
  -- the message is lost, and the stream sleeps until its timeout
  have h₁ := M.step_after won (.answer 1) (by decide +kernel)
  have h₂ := M.step_after (won ++ [.answer 1]) (.lose 0 0) (by decide +kernel)
  have h₃ := M.step_after (won ++ [.answer 1] ++ [.lose 0 0]) (.tick 15000) (by decide +kernel)
  let slept := won ++ [.answer 1] ++ [.lose 0 0] ++ [.tick 15000]
  have h₄ := M.step_after slept (.advance 0) (by decide +kernel)
  -- it wakes up and checks
  let awake := slept ++ [.advance 0]
  have h₅ := M.step_after awake (.read 0 .none) (by decide +kernel)
  have h₆ := M.step_after (awake ++ [.read 0 .none]) (.tick 1) (by decide +kernel)
  have hrun : M.Run (carried 0) (M.after won)
      [.answer 1, .lose 0 0, .tick 15000, .advance 0, .read 0 .none, .tick 1]
      (M.after (awake ++ [.read 0 .none] ++ [.tick 1])) := by
    refine .cons (carried_of_early ?_ nofun (by decide +kernel)) h₁ <|
      .cons (carried_of_early ?_ nofun (by decide +kernel)) h₂ <|
      .cons (carried_of_early ?_ nofun (by decide +kernel)) h₃ <|
      .cons (carried_of_early ?_ nofun (by decide +kernel)) h₄ <|
      .cons (carried_of_early ?_ nofun (by decide +kernel)) h₅ <|
      .single (carried_of_early ?_ nofun (by decide +kernel)) h₆ <;> simp [Generator.leftAlone]
  have hdb : (M.after won).store.db (key k.sid) ≠ none := by
    have hsome : ((M.after won).store.db (key Sample.sid)).isSome = true := by decide +kernel
    rw [hsid]
    exact Option.isSome_iff_ne_none.mp hsome
  have htime : ¬ Stream.Over ⟨Sample.sid, 0, .waiting 900000 0, [], opened⟩
      (M.after won).store.now := by
    have hnow : (M.after won).store.now = 0 := by decide +kernel
    rintro ⟨deadline, hd, hle⟩
    obtain rfl := Option.some.inj hd
    rw [hnow] at hle
    cases hle
  rcases told_within_heartbeat ⟨_, hwon⟩ hmem hdb hst hsid.symm rfl htime hrun (by decide +kernel) with
    ⟨st, hst', _, htold⟩
  refine ⟨_, st, k, ⟨_, M.run_after _ (by decide +kernel)⟩, ?_, ?_, ?_, hst', ?_, htold⟩
  · exact (later_of_run hrun).commits.subset hmem
  · decide +kernel
  · decide +kernel
  · have hend : (M.after (awake ++ [.read 0 .none] ++ [.tick 1])).streams 0 =
        some ⟨Sample.sid, 0, .atLast, [], opened ++ [.message ev.dumps]⟩ := by decide +kernel
    obtain rfl := Option.some.inj (hst'.symm.trans hend)
    rfl

end Doppelganger
