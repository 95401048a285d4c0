import Doppelganger.Generator

/-!
# The server's streams are generators

`view` reads a stream of the server, its worker's hub and the server's clock as a
state of `Generator`, with seconds of a thousand milliseconds. Every step of the
server is then one step of the generator or none, so what is proved of generators in
any environment holds of the streams: `stream_output`.
-/

open Text Redis

namespace Doppelganger

namespace Generator

/-- The point of a stream whose session was in `phase`, as a point of its generator; before the
route has checked the phase there is none. -/
def pcOf (phase : Str) : StreamPc → Option (Pc ℕ)
  | .checkingPhase => none
  | .refused _ => none
  | .created p => if p = phase then some .notStarted else none
  | .atRetry p => if p = phase then some .atRetry else none
  | .atConnected => some .atConnected
  | .checking => some .checking
  | .armed => some .armed
  | .looping deadline => some (.looping deadline)
  | .waiting deadline since => some (.waiting deadline since)
  | .polling deadline => some (.polling deadline)
  | .atMessage deadline data => some (.atMessage deadline data)
  | .atKeepalive deadline => some (.atKeepalive deadline)
  | .atLast => some .atLast
  | .leaving => some .leaving
  | .closed => some .closed

/-- A stream of a worker with hub `hub` at time `now`, as a generator. -/
def view (phase : Str) (hub : Hub) (now : ℕ) (st : Stream) : Option (State ℕ) :=
  (pcOf phase st.pc).map fun pc => ⟨hub, now, pc, st.queue, st.out⟩

/-- A thousand milliseconds. -/
def milliseconds : ℕ := 1000

theorem maxStream_eq : maxStreamSeconds • milliseconds = maxStream := rfl

section

variable {phase : Str} {hub : Hub} {now q : ℕ} {st st' : Stream} {s : State ℕ}

theorem view_eq_some :
    view phase hub now st = some s ↔
      ∃ pc, pcOf phase st.pc = some pc ∧ s = ⟨hub, now, pc, st.queue, st.out⟩ := by
  simp [view, eq_comm]

/-- A local step of the stream is one of the generator. -/
theorem view_advanced (h : st.Advanced now st') (hs : view phase hub now st = some s) :
    ∃ s', step st.sid phase q milliseconds .advance s = some s' ∧
      view phase (st.hubStep q hub) now st' = some s' := by
  rcases view_eq_some.mp hs with ⟨pc, hpc', rfl⟩
  cases h with
  | retry p hpc =>
    rw [hpc] at hpc'
    have hp : p = phase ∧ pc = .notStarted := by
      by_cases hp : p = phase
      · exact ⟨hp, by simpa [pcOf, hp] using hpc'.symm⟩
      · simp [pcOf, hp] at hpc'
    rcases hp with ⟨rfl, rfl⟩
    exact ⟨_, rfl, by simp [view, pcOf, Stream.hubStep, hpc, State.yield]⟩
  | connected p hpc =>
    rw [hpc] at hpc'
    have hp : p = phase ∧ pc = .atRetry := by
      by_cases hp : p = phase
      · exact ⟨hp, by simpa [pcOf, hp] using hpc'.symm⟩
      · simp [pcOf, hp] at hpc'
    rcases hp with ⟨rfl, rfl⟩
    exact ⟨_, rfl, by simp [view, pcOf, Stream.hubStep, hpc, State.yield]⟩
  | check hpc =>
    obtain rfl : .atConnected = pc := by simpa [pcOf, hpc] using hpc'
    exact ⟨_, rfl, by simp [view, pcOf, Stream.hubStep, hpc]⟩
  | arm hpc =>
    obtain rfl : .armed = pc := by simpa [pcOf, hpc] using hpc'
    exact ⟨_, rfl, by simp [view, pcOf, Stream.hubStep, hpc, ← maxStream_eq]⟩
  | wait deadline hpc hlt =>
    obtain rfl : .looping deadline = pc := by simpa [pcOf, hpc] using hpc'
    exact ⟨_, if_pos hlt, by simp [view, pcOf, Stream.hubStep, hpc]⟩
  | expire deadline hpc hle =>
    obtain rfl : .looping deadline = pc := by simpa [pcOf, hpc] using hpc'
    exact ⟨_, if_neg (not_lt.mpr hle), by simp [view, pcOf, Stream.hubStep, hpc, State.yield]⟩
  | take deadline since data queue hpc hqueue =>
    obtain rfl : .waiting deadline since = pc := by simpa [pcOf, hpc] using hpc'
    simp only [hqueue]
    exact ⟨_, rfl, by simp [view, pcOf, Stream.hubStep, hpc, State.yield]⟩
  | timeout deadline since hpc hqueue hover =>
    obtain rfl : .waiting deadline since = pc := by simpa [pcOf, hpc] using hpc'
    simp only [hqueue]
    exact ⟨_, if_pos hover, by simp [view, pcOf, Stream.hubStep, hpc]⟩
  | goOn deadline data hpc hgoOn =>
    obtain rfl : .atMessage deadline data = pc := by simpa [pcOf, hpc] using hpc'
    refine ⟨⟨hub, now, .looping deadline, st.queue, st.out⟩, ?_, ?_⟩
    · simp [step, advance, hgoOn]
    · simp [view, pcOf, Stream.hubStep, hpc]
  | finish deadline data hpc hfinish =>
    obtain rfl : .atMessage deadline data = pc := by simpa [pcOf, hpc] using hpc'
    refine ⟨⟨hub, now, .leaving, st.queue, st.out⟩, ?_, ?_⟩
    · simp [step, advance]
    · simp [view, pcOf, Stream.hubStep, hpc]
  | alive deadline hpc =>
    obtain rfl : .atKeepalive deadline = pc := by simpa [pcOf, hpc] using hpc'
    exact ⟨_, rfl, by simp [view, pcOf, Stream.hubStep, hpc]⟩
  | last hpc =>
    obtain rfl : .atLast = pc := by simpa [pcOf, hpc] using hpc'
    exact ⟨_, rfl, by simp [view, pcOf, Stream.hubStep, hpc]⟩
  | leave hpc =>
    obtain rfl : .leaving = pc := by simpa [pcOf, hpc] using hpc'
    exact ⟨_, rfl, by simp [view, pcOf, Stream.hubStep, hpc]⟩

/-- `terminal_event` returns to the stream as it does to the generator. -/
theorem view_read {db : Store} (h : st.Read db st')
    (hreads : ∀ e, SessionStore.terminalEvent db st.sid ≠ .error e)
    (hs : view phase hub now st = some s) :
    ∃ final s', SessionStore.terminalEvent db st.sid = .ok final ∧
      step st.sid phase q milliseconds (.check final) s = some s' ∧
      view phase hub now st' = some s' := by
  rcases view_eq_some.mp hs with ⟨pc, hpc', rfl⟩
  cases h with
  | refused hpc _ => simp [pcOf, hpc] at hpc'
  | opened p hpc _ => simp [pcOf, hpc] at hpc'
  | raised e _ he => exact absurd he (hreads e)
  | final ev hpc hev =>
    rcases hpc with hpc | ⟨deadline, hpc⟩
    · obtain rfl : .checking = pc := by simpa [pcOf, hpc] using hpc'
      exact ⟨some ev, _, hev, rfl, by simp [view, pcOf, State.yield]⟩
    · obtain rfl : .polling deadline = pc := by simpa [pcOf, hpc] using hpc'
      exact ⟨some ev, _, hev, rfl, by simp [view, pcOf, State.yield]⟩
  | nothing hpc hev =>
    obtain rfl : .checking = pc := by simpa [pcOf, hpc] using hpc'
    exact ⟨none, _, hev, rfl, by simp [view, pcOf]⟩
  | keepalive deadline hpc hev =>
    obtain rfl : .polling deadline = pc := by simpa [pcOf, hpc] using hpc'
    exact ⟨none, _, hev, rfl, by simp [view, pcOf, State.yield]⟩

end

/-! ## Runs of the server -/

variable {env : Env} {σ σ' : Doppelganger.State} {i : ℕ} {st st' : Stream}

/-- Stream `i` meets no Redis error and its client stays. -/
def leftAlone (i : ℕ) : Lts.Guard Doppelganger.State Doppelganger.Label := fun l _ =>
  l ≠ .close i ∧ ∀ fault, l = .read i fault → fault = .none

/-- What stream `i` has done since its generator was made is an undisturbed run of it. -/
inductive Refines (σ : Doppelganger.State) (i : ℕ) (st : Stream) : Prop
  | before (hpc : st.pc = .checkingPhase ∨ ∃ status, st.pc = .refused status)
      (hqueue : st.queue = []) (hout : st.out = [])
  | running (phase : Str) (hub : Hub) (now : ℕ) (ls : List (Label ℕ)) (s : State ℕ)
      (hnew : ∀ sid, i ∉ EventHub.targets hub sid)
      (hrun : (lts st.sid phase i milliseconds hub now).Run (undisturbed st.sid) (init hub now) ls s)
      (hview : view phase (σ.workers st.worker).hub σ.store.now st = some s)

namespace Refines

/-- Steps that neither the stream nor its surroundings take part in. -/
theorem of_same (h : Refines σ i st)
    (hhub : (σ'.workers st.worker).hub = (σ.workers st.worker).hub)
    (hnow : σ'.store.now = σ.store.now) : Refines σ' i st := by
  cases h with
  | before hpc hqueue hout => exact .before hpc hqueue hout
  | running phase hub now ls s hnew hrun hview =>
    exact .running phase hub now ls s hnew hrun (by rw [hhub, hnow, hview])

/-- One step of the generator more. -/
theorem extend {phase : Str} {hub : Hub} {now : ℕ} {ls : List (Label ℕ)} {s s' : State ℕ}
    (hnew : ∀ sid, i ∉ EventHub.targets hub sid)
    (hrun : (lts st.sid phase i milliseconds hub now).Run (undisturbed st.sid) (init hub now) ls s)
    (hsid : st'.sid = st.sid) {l : Label ℕ} (hok : undisturbed st.sid l s)
    (hstep : step st.sid phase i milliseconds l s = some s')
    (hview : view phase (σ'.workers st'.worker).hub σ'.store.now st' = some s') :
    Refines σ' i st' := by
  refine .running phase hub now (ls ++ [l]) s' hnew ?_ hview
  rw [hsid]
  exact hrun.append (Lts.Run.single hok hstep)

/-- The queue is not in the hub before the generator runs. -/
theorem notMem_of_before (hf : Flow env σ) (hst : σ.streams i = some st)
    (hpc : st.pc.subscribed = false) (w : ℕ) (sid : Str) :
    i ∉ EventHub.targets (σ.workers w).hub sid := by
  intro hmem
  rcases (hf.hub w sid i).mp hmem with ⟨st₁, hst₁, _, _, hsub⟩
  obtain rfl := Option.some.inj (hst.symm.trans hst₁)
  rw [hpc] at hsub
  cases hsub

/-- A step of the stream itself. -/
theorem own_step (hterm : ∀ sid e, SessionStore.terminalEvent σ.store sid ≠ .error e)
    (hf : Flow env σ) (hst : σ.streams i = some st) (h : Refines σ i st) :
    (∀ st', st.Read σ.store st' → Refines (σ.setStream i st') i st') ∧
    (∀ st', st.Advanced σ.store.now st' →
      Refines ((σ.setWorker st.worker { σ.workers st.worker with
        hub := st.hubStep i (σ.workers st.worker).hub }).setStream i st') i st') := by
  cases h with
  | before hpc hqueue hout =>
    constructor
    · intro st' hread
      cases hread with
      | refused _ _ => exact .before (Or.inr ⟨404, rfl⟩) hqueue hout
      | opened phase _ _ =>
        -- the generator is made here
        have hsub : st.pc.subscribed = false := by
          rcases hpc with hpc | ⟨status, hpc⟩ <;> rw [hpc] <;> rfl
        refine .running phase (σ.workers st.worker).hub σ.store.now [] _
          (notMem_of_before hf hst hsub st.worker) (Lts.Run.nil _) ?_
        simp [view, pcOf, hqueue, hout, init]
      | raised _ hpc' _ | final _ hpc' _ =>
        rcases hpc with hpc | ⟨status, hpc⟩ <;> simp [hpc] at hpc'
      | nothing hpc' _ | keepalive _ hpc' _ =>
        rcases hpc with hpc | ⟨status, hpc⟩ <;> simp [hpc] at hpc'
    · intro st' hadv
      exfalso
      rcases hpc with hpc | ⟨status, hpc⟩ <;> cases hadv <;> simp_all
  | running phase hub now ls s hnew hrun hview =>
    constructor
    · intro st' hread
      rcases view_read hread (hterm st.sid) hview with ⟨final, s', hfinal, hstep, hview'⟩
      refine extend hnew hrun ?_ ?_ hstep ?_
      · cases hread <;> rfl
      · refine ⟨by simp, by simp, by simp [fromFinalize], ?_⟩
        rintro _ ⟨rfl⟩
        exact ⟨σ.store, hfinal⟩
      · have hworker : st'.worker = st.worker := by cases hread <;> rfl
        rw [hworker]
        exact hview'
    · intro st' hadv
      rcases view_advanced (q := i) hadv hview with ⟨s', hstep, hview'⟩
      rcases hadv.frame with ⟨hsid, hworker, _⟩
      refine extend hnew hrun hsid (by simp [undisturbed, fromFinalize]) hstep ?_
      simpa [hworker] using hview'

/-- What the environment does. -/
theorem other_step {l : Label ℕ} (h : Refines σ i st) (hsid : st'.sid = st.sid)
    (hpc : st'.pc = st.pc) (hok : ∀ s, undisturbed st.sid l s)
    (hbefore : st.pc.subscribed = false → st'.queue = st.queue ∧ st'.out = st.out)
    (hstep : ∀ phase s, view phase (σ.workers st.worker).hub σ.store.now st = some s →
      ∃ s', step st.sid phase i milliseconds l s = some s' ∧
        view phase (σ'.workers st'.worker).hub σ'.store.now st' = some s') : Refines σ' i st' := by
  cases h with
  | before hpc' hqueue hout =>
    have hsub : st.pc.subscribed = false := by
      rcases hpc' with hpc' | ⟨status, hpc'⟩ <;> rw [hpc'] <;> rfl
    rcases hbefore hsub with ⟨hqueue', hout'⟩
    exact .before (hpc ▸ hpc') (hqueue'.trans hqueue) (hout'.trans hout)
  | running phase hub now ls s hnew hrun hview =>
    rcases hstep phase s hview with ⟨s', hs', hview'⟩
    exact extend hnew hrun hsid (hok s) hs' hview'

end Refines

/-- Redis commands do not move the clock. -/
theorem now_of_command {r : ℕ} {db : Store} {hd hd' : Handler} {effect : Effect}
    (h : Command env r db hd effect hd') : effect.store.now = db.now := by
  cases h with
  | create form v sid createdAt => simp
  | _ => rfl

/-- One step of the server is one step of the generator, or none. -/
theorem refines_of_step (hterm : ∀ sid e, SessionStore.terminalEvent σ.store sid ≠ .error e)
    (hf : Flow env σ) {l : Doppelganger.Label} (hok : leftAlone i l σ)
    (hs : Doppelganger.step env l σ = some σ') (hst : σ.streams i = some st)
    (hst' : σ'.streams i = some st') (h : Refines σ i st) : Refines σ' i st' := by
  have hsame : σ'.streams i = σ.streams i → st' = st := fun heq =>
    Option.some.inj (hst'.symm.trans (heq.trans hst))
  cases l with
  | request _ _ _ | embed _ _ | name _ _ | answer _ =>
    have hdata := sameData_of_step rfl hs
    obtain rfl := hsame (by rw [hdata.streams])
    exact h.of_same (by rw [hdata.workers]) (by rw [hdata.store])
  | redis r fault =>
    rcases step_redis hs with ⟨_, effect, _, _, hcmd, hcases⟩
    have hnow := now_of_command (command_of_redis hcmd)
    rcases hcases with ⟨_, rfl⟩ | ⟨_, rfl⟩ | ⟨_, rfl⟩
    · obtain rfl := hsame rfl
      exact h.of_same (by simp) hnow
    · obtain rfl := hsame rfl
      exact h.of_same rfl rfl
    · obtain rfl := hsame rfl
      exact h.of_same (by simp) hnow
  | stream j sid w =>
    rcases step_stream hs with ⟨hnone, rfl⟩
    have hj : i ≠ j := by
      rintro rfl
      simp [hst] at hnone
    obtain rfl := hsame (State.setStream_streams_ne _ hj _)
    exact h.of_same rfl rfl
  | read j fault =>
    rcases step_read hs with ⟨st₁, st₂, hst₁, rfl, hcases⟩
    by_cases hj : i = j
    · subst hj
      obtain rfl := Option.some.inj (hst.symm.trans hst₁)
      obtain rfl : st₂ = st' := by simpa using hst'
      rcases hcases with ⟨_, hread⟩ | ⟨hfault, _⟩
      · exact (Refines.own_step hterm hf hst h).1 _ (Stream.read_of_redis hread)
      · exact absurd (hok.2 fault rfl) hfault
    · obtain rfl := hsame (State.setStream_streams_ne _ hj _)
      exact h.of_same rfl rfl
  | advance j =>
    rcases step_advance hs with ⟨st₁, st₂, hst₁, hadv, rfl⟩
    by_cases hj : i = j
    · subst hj
      obtain rfl := Option.some.inj (hst.symm.trans hst₁)
      obtain rfl : st₂ = st' := by simpa using hst'
      exact (Refines.own_step hterm hf hst h).2 _ (Stream.advanced_of_advance hadv)
    · obtain rfl := hsame (State.setStream_streams_ne _ hj _)
      by_cases hw : st₁.worker = st'.worker
      · -- another stream of the worker, which may enter or leave the hub
        have hhub : ((((σ.setWorker st₁.worker { σ.workers st₁.worker with
            hub := st₁.hubStep j (σ.workers st₁.worker).hub }).setStream j st₂).workers
            st'.worker).hub) = st₁.hubStep j (σ.workers st'.worker).hub := by simp [hw]
        have hjq : ¬ j = i := fun heq => hj heq.symm
        cases hpc : st₁.pc with
        | created p =>
          refine h.other_step (l := .subscribe st₁.sid j) rfl rfl
            (fun s => by simp [undisturbed, fromFinalize]) (fun _ => ⟨rfl, rfl⟩) ?_
          intro phase s hview
          rcases view_eq_some.mp hview with ⟨pc, hpc', rfl⟩
          refine ⟨_, if_neg hjq, view_eq_some.mpr ⟨pc, hpc', ?_⟩⟩
          rw [hhub, Stream.hubStep, hpc]
          rfl
        | leaving =>
          refine h.other_step (l := .unsubscribe st₁.sid j) rfl rfl
            (fun s => by simp [undisturbed, fromFinalize]) (fun _ => ⟨rfl, rfl⟩) ?_
          intro phase s hview
          rcases view_eq_some.mp hview with ⟨pc, hpc', rfl⟩
          refine ⟨_, if_neg hjq, view_eq_some.mpr ⟨pc, hpc', ?_⟩⟩
          rw [hhub, Stream.hubStep, hpc]
          rfl
        | _ => exact h.of_same (by rw [hhub, Stream.hubStep, hpc]) rfl
      · exact h.of_same (by simp [State.setWorker_workers_ne _ (Ne.symm hw)]) rfl
  | close j =>
    rcases step_close hs with ⟨st₁, st₂, _, _, rfl⟩
    have hj : i ≠ j := by
      rintro rfl
      exact hok.1 rfl
    obtain rfl := hsame (State.setStream_streams_ne _ hj _)
    exact h.of_same rfl rfl
  | listen w =>
    obtain rfl := step_listen hs
    obtain rfl := hsame rfl
    refine h.of_same ?_ rfl
    by_cases hw : st'.worker = w <;> simp [hw, State.setWorker_workers_ne]
  | disconnect w =>
    obtain rfl := step_disconnect hs
    obtain rfl := hsame rfl
    refine h.of_same ?_ rfl
    by_cases hw : st'.worker = w <;> simp [hw, State.setWorker_workers_ne]
  | lose w n =>
    obtain rfl := step_lose hs
    obtain rfl := hsame rfl
    refine h.of_same ?_ rfl
    by_cases hw : st'.worker = w <;> simp [hw, State.setWorker_workers_ne]
  | tick d =>
    obtain rfl := step_tick hs
    obtain rfl := hsame rfl
    refine h.other_step (l := .tick d) rfl rfl (fun s => by simp [undisturbed, fromFinalize])
      (fun _ => ⟨rfl, rfl⟩) ?_
    intro phase s hview
    rcases view_eq_some.mp hview with ⟨pc, hpc', rfl⟩
    refine ⟨⟨(σ.workers st'.worker).hub, σ.store.now + d, pc, st'.queue, st'.out⟩, ?_, ?_⟩
    · simp [step]
    · exact view_eq_some.mpr ⟨pc, hpc', rfl⟩
  | deliver w =>
    rcases step_deliver hs with ⟨m, rest, hm, rfl⟩
    rcases hf.flying w m (by simp [hm]) with ⟨k, _, hk⟩
    have hhub : (((σ.deliverTo w m).setWorker w { σ.workers w with inflight := rest }).workers
        st.worker).hub = (σ.workers st.worker).hub := by
      by_cases hw : st.worker = w <;> simp [hw, State.setWorker_workers_ne]
    by_cases hi : i ∈ EventHub.targets (σ.workers w).hub (EventHub.sessionOfChannel m.channel)
    · -- the message reaches the queue of this stream
      rcases (hf.hub w _ i).mp hi with ⟨st₁, hst₁, _, hworker, hsub⟩
      obtain rfl := Option.some.inj (hst.symm.trans hst₁)
      obtain rfl : { st with queue := EventHub.putNowait st.queue m.data } = st' := by
        have htaken := σ.deliverTo_of_mem hst hi
        rw [State.setWorker_streams, htaken] at hst'
        exact Option.some.inj hst'
      refine h.other_step (l := .arrive m) rfl rfl ?_ ?_ ?_
      · intro s
        refine ⟨by simp, by simp, ?_, by simp⟩
        rintro _ ⟨rfl⟩
        exact ⟨env, k.sid, k.form, k.score, hk⟩
      · intro hno
        rw [hsub] at hno
        cases hno
      · intro phase s hview
        rcases view_eq_some.mp hview with ⟨pc, hpc', rfl⟩
        rw [← hworker] at hi
        refine ⟨_, if_pos hi, view_eq_some.mpr ⟨pc, hpc', ?_⟩⟩
        rw [hhub]
        rfl
    · obtain rfl := hsame (by rw [State.setWorker_streams, σ.deliverTo_of_notMem hi])
      exact h.of_same hhub rfl

theorem refines_of_reach (h : (server env).Reach (leftAlone i) σ) (hst : σ.streams i = some st) :
    Refines σ i st := by
  have hinv : (Inv env σ ∧ Flow env σ) ∧ ∀ st, σ.streams i = some st → Refines σ i st := by
    refine h.invariant (P := fun σ => (Inv env σ ∧ Flow env σ) ∧
      ∀ st, σ.streams i = some st → Refines σ i st) ⟨⟨Inv.init, Flow.init⟩, ?_⟩ ?_
    · intro st hst
      cases hst
    · rintro l σ σ' hok hs ⟨⟨hi, hf⟩, hrefines⟩
      refine ⟨⟨hi.of_step hs, hf.of_step hi hs⟩, fun st' hst' => ?_⟩
      cases hst : σ.streams i with
      | none =>
        rcases new_of_step hs hst hst' with ⟨sid, w, _, rfl⟩
        exact .before (Or.inl rfl) rfl rfl
      | some st =>
        refine refines_of_step (fun sid e he => ?_) hf hok hs hst hst' (hrefines st hst)
        rcases hi.terminalEvent_ok sid with ⟨final, hfinal⟩
        rw [he] at hfinal
        cases hfinal
  exact hinv.2 st hst

/-- A stream that met no Redis error and whose client stayed has yielded, when it is over, the retry
line, CONNECTED, at most sixty keepalives and one terminal message. -/
theorem stream_output (h : (server env).Reach (leftAlone i) σ) (hst : σ.streams i = some st)
    (hclosed : st.pc = .closed) :
    ∃ phase k data, k ≤ maxStreamSeconds / heartbeatSeconds ∧ isTerminal data = some true ∧
      st.out = [.retry, .message (connectedEvent phase).dumps] ++
        List.replicate k .keepalive ++ [.message data] := by
  cases refines_of_reach h hst with
  | before hpc _ _ =>
    exfalso
    rcases hpc with hpc | ⟨status, hpc⟩ <;> rw [hpc] at hclosed <;> cases hclosed
  | running phase hub now ls s hnew hrun hview =>
    rcases view_eq_some.mp hview with ⟨pc, hpc, rfl⟩
    have hover : pc = .closed := by
      rw [hclosed] at hpc
      exact (Option.some.inj hpc).symm
    have hshape := shape_of_run hrun
    simp only [hover] at hshape
    rcases hshape with ⟨k, data, hterm, hout⟩
    have hlimit := (onTime_of_run (hrun.mono fun _ _ hok => hok.2.2.1)).1.le_limit
    have hbeats : st.out.count .keepalive = k := by simp [hout, opened]
    exact ⟨phase, k, data, hbeats ▸ hlimit, hterm, hout⟩

end Generator

end Doppelganger
