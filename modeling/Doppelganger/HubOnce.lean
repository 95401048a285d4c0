import Doppelganger.HubThreads

/-!
# One listener per process, and no queue wiped at start-up

`_ensure_listener` follows `OncePerProcess`: `self._queues = {}` and the start of the
listener are the work, `_pid` is the variable. From this come the facts about memory:
a thread that has read `_queues` holds the dict `_queues` still refers to, and from the
reset on the sets of that dict hold queues of this process only.

`Safe` is the invariant, `one_listener_per_process` what it says.
-/

open Text Redis

namespace Doppelganger

namespace HubThreads

variable {σ σ' : State} {i q : ℕ} {t : Thread} {pc : Pc}

/-! ## Threads and listeners -/

@[simp] theorem setThread_threads_self : (σ.setThread i t).threads i = some t := by
  simp [State.setThread]

theorem setThread_threads_ne {j : ℕ} (h : j ≠ i) : (σ.setThread i t).threads j = σ.threads j := by
  simp [State.setThread, h]

theorem pc?_of_thread (h : σ.threads i = some t) : σ.pc? i = some t.pc := by simp [State.pc?, h]

theorem setThread_pc? (j : ℕ) : (σ.setThread i t).pc? j = if j = i then some t.pc else σ.pc? j := by
  by_cases h : j = i
  · subst h
    simp [State.pc?]
  · simp [State.pc?, setThread_threads_ne h, h]

theorem goto_pc? (j : ℕ) : (σ.goto i t pc).pc? j = if j = i then some pc else σ.pc? j :=
  setThread_pc? j

theorem child_pc? (pid j : ℕ) : (σ.child pid).pc? j = (σ.pc? j).map fun _ => .inherited := by
  simp only [State.pc?, State.child]
  cases σ.threads j <;> rfl

theorem put_pc (n : ℕ) (m : Message) : (State.put t n m).pc = t.pc := rfl

/-- What holds of every thread still holds when one of them has moved on. -/
theorem threads_setThread {P : ℕ → Thread → Prop} (hall : ∀ j t, σ.threads j = some t → P j t)
    (hi : P i t) {j : ℕ} {t' : Thread} (h : (σ.setThread i t).threads j = some t') : P j t' := by
  by_cases hj : j = i
  · subst hj
    rw [setThread_threads_self] at h
    exact Option.some.inj h ▸ hi
  · rw [setThread_threads_ne hj] at h
    exact hall j t' h

/-- The same for listeners. -/
theorem listeners_setListener {l : ℕ} {listener : Listener} {P : ℕ → Listener → Prop}
    (hall : ∀ l x, σ.listeners l = some x → P l x) (hl : P l listener) {l' : ℕ} {x : Listener}
    (h : (σ.setListener l listener).listeners l' = some x) : P l' x := by
  by_cases heq : l' = l
  · subst heq
    have hx : listener = x := by simpa [State.setListener] using h
    exact hx ▸ hl
  · exact hall l' x (by simpa [State.setListener, heq] using h)

/-! ## Once per process -/

/-- What the threads share of `_ensure_listener`, and where they stand in it. -/
def State.view (σ : State) : OncePerProcess.View ℕ where
  pid := σ.pid
  pids := σ.pids
  stamp := σ.stamp
  lock := σ.lock
  phase := fun i => (σ.pc? i).elim .outside Pc.phase

theorem phase_of_thread (h : σ.threads i = some t) : σ.view.phase i = t.pc.phase := by
  simp [State.view, pc?_of_thread h]

theorem view_setThread (i : ℕ) (t : Thread) :
    (σ.setThread i t).view = σ.view.to i t.pc.phase := by
  ext j
  · rfl
  · rfl
  · rfl
  · rfl
  · simp only [State.view, OncePerProcess.to_phase, setThread_pc?]
    split_ifs <;> rfl

theorem view_goto (i : ℕ) (t : Thread) (pc : Pc) : (σ.goto i t pc).view = σ.view.to i pc.phase :=
  view_setThread i _

/-- A thread within its phase. -/
theorem once_same (hi : OncePerProcess.Inv σ.view) (ht : σ.threads i = some t) (pc : Pc)
    (hphase : pc.phase = t.pc.phase) : OncePerProcess.Inv (σ.goto i t pc).view := by
  rw [view_goto, hphase, OncePerProcess.to_self (phase_of_thread ht)]
  exact hi

/-- A thread that enters its next phase. -/
theorem once_next (hi : OncePerProcess.Inv σ.view)
    (hstep : OncePerProcess.Step σ.view (σ.view.to i pc.phase)) :
    OncePerProcess.Inv (σ.goto i t pc).view := by
  rw [view_goto]
  exact hi.step hstep

theorem once_of_acted (hi : OncePerProcess.Inv σ.view) (ht : σ.threads i = some t)
    (h : Acted σ i t σ') : OncePerProcess.Inv σ'.view := by
  have hphase := phase_of_thread ht
  cases h with
  | hit hpc hstamp => exact once_next hi (.hit i (by rw [hphase, hpc]; rfl) hstamp)
  | miss hpc _ => exact once_next hi (.miss i (by rw [hphase, hpc]; rfl))
  | acquire hpc hlock =>
    have hstep := hi.step (.acquire i (by rw [hphase, hpc]; rfl) hlock)
    rw [← show (σ.goto i t .retesting).view = σ.view.to i .retesting from view_goto i t _] at hstep
    exact hstep
  | found hpc hstamp => exact once_next hi (.found i (by rw [hphase, hpc]; rfl) hstamp)
  | begin hpc hstamp => exact once_next hi (.begin i (by rw [hphase, hpc]; rfl) hstamp)
  | reset hpc => exact once_same hi ht .starting (by rw [hpc]; rfl)
  | start hpc => exact once_same hi ht .stamping (by rw [hpc]; rfl)
  | stamp hpc =>
    have hstep := hi.step (.stamp i (by rw [hphase, hpc]; rfl))
    rw [← show (σ.goto i t .releasing).view = σ.view.to i .releasing from view_goto i t _] at hstep
    exact hstep
  | unwind hpc =>
    have hstep := hi.step (.giveUp i (by rw [hphase, hpc]; rfl))
    rw [← show (σ.goto i t .failed).view = σ.view.to i .outside from view_goto i t _] at hstep
    exact hstep
  | release hpc =>
    have hstep := hi.step (.release i (by rw [hphase, hpc]; rfl))
    rw [← show (σ.goto i t .loading).view = σ.view.to i .through from view_goto i t _] at hstep
    exact hstep
  | load hpc => exact once_same hi ht _ (by rw [hpc]; rfl)
  | default d hpc =>
    exact once_same hi ht (.adding (σ.heap.setdefault d t.sid).2) (by rw [hpc]; rfl)
  | add s hpc => exact once_same hi ht .subscribed (by rw [hpc]; rfl)
  | look hpc => exact once_same hi ht _ (by rw [hpc]; rfl)
  | get d s hpc _ => exact once_same hi ht _ (by rw [hpc]; rfl)
  | discard s hpc => exact once_same hi ht (.checking s) (by rw [hpc]; rfl)
  | empty s hpc _ => exact once_same hi ht _ (by rw [hpc]; rfl)
  | finish hpc =>
    have hthrough : t.pc.phase = .through := by
      rcases hpc with ⟨d, hpc, _⟩ | ⟨s, hpc, _⟩
      · rw [hpc]
        rfl
      · rw [hpc]
        rfl
    exact once_next hi (.leave i (by rw [hphase, hthrough]))
  | relook hpc => exact once_same hi ht _ (by rw [hpc]; rfl)
  | pop d hpc =>
    have hnext : OncePerProcess.Inv (σ.goto i t .done).view :=
      once_next hi (.leave i (by rw [hphase, hpc]; rfl))
    exact hnext

theorem once_of_step {l : Label} (hi : OncePerProcess.Inv σ.view) (h : Moved σ l σ') :
    OncePerProcess.Inv σ'.view := by
  cases h with
  | call i sid hnone =>
    have hphase : σ.view.phase i = .outside := by simp [State.view, State.pc?, hnone]
    rw [view_setThread]
    exact hi.step (.enter i hphase)
  | act i t ht hact => exact once_of_acted hi ht hact
  | raise i t ht hpc => exact once_same hi ht _ (by rw [hpc]; rfl)
  | close i t ht hpc => exact once_same hi ht _ (by rw [hpc]; rfl)
  | read i t data queue ht hpc _ =>
    rw [view_setThread, OncePerProcess.to_self (phase_of_thread ht)]
    exact hi
  | listen l listener _ hheard => cases hheard <;> exact hi
  | offer l q listener t n m todo _ ht _ _ =>
    rw [view_setThread, put_pc]
    have hview : (σ.setListener l { listener with pc := .offering n m (todo.erase q) }).view =
        σ.view := rfl
    rw [hview, OncePerProcess.to_self (phase_of_thread ht)]
    exact hi
  | publish sid data => exact hi
  | fork pid hlock hnew =>
    have hstep := hi.step (.fork pid hlock hnew)
    have hview : (σ.child pid).view =
        { σ.view with pid := pid, pids := pid :: σ.pids, phase := fun _ => .outside } := by
      ext j
      · rfl
      · rfl
      · rfl
      · rfl
      · simp only [State.view, child_pc?]
        cases σ.pc? j <;> rfl
    rw [hview]
    exact hstep

/-! ## References -/

/-- The dict a thread has read from `_queues`. -/
def Pc.dict? : Pc → Option ℕ
  | .defaulting d => some d
  | .getting d => some d
  | .popping d => some d
  | _ => none

/-- The set a thread has found. -/
def Pc.set? : Pc → Option ℕ
  | .adding s => some s
  | .discarding s => some s
  | .checking s => some s
  | _ => none

def ListenerPc.dict? : ListenerPc → Option ℕ
  | .getting _ _ d => some d
  | _ => none

theorem Pc.phase_of_dict? {d : ℕ} (h : pc.dict? = some d) : pc.phase = .through := by
  cases pc <;> simp [Pc.dict?] at h <;> rfl

/-- What the threads and `_queues` refer to is there, and a dict that was read is the present one. -/
structure Refs (σ : State) : Prop where
  heap : σ.heap.Ok
  queues : σ.queues < σ.heap.nextDict
  dicts : ∀ i t, σ.threads i = some t → ∀ d, t.pc.dict? = some d → d = σ.queues
  sets : ∀ i t, σ.threads i = some t → ∀ s, t.pc.set? = some s → s < σ.heap.nextSet

/-- A thread moves on, the heap grows. -/
theorem Refs.grow (hr : Refs σ) (pc : Pc) (hthreads : σ'.threads = (σ.goto i t pc).threads)
    (hqueues : σ'.queues = σ.queues) (hheap : σ'.heap.Ok)
    (hdict : σ'.heap.nextDict = σ.heap.nextDict) (hset : σ.heap.nextSet ≤ σ'.heap.nextSet)
    (hd : pc.dict? = none ∨ pc.dict? = some σ.queues)
    (hs : ∀ s, pc.set? = some s → s < σ'.heap.nextSet) : Refs σ' where
  heap := hheap
  queues := by
    rw [hqueues, hdict]
    exact hr.queues
  dicts := by
    intro j t' hj
    rw [hthreads] at hj
    rw [hqueues]
    refine threads_setThread (P := fun _ t => ∀ d, t.pc.dict? = some d → d = σ.queues) hr.dicts
      ?_ hj
    intro d hpc
    rcases hd with hd | hd
    · exact absurd (hd.symm.trans hpc) nofun
    · exact Option.some.inj (hpc.symm.trans hd)
  sets := by
    intro j t' hj
    rw [hthreads] at hj
    exact threads_setThread (P := fun _ t => ∀ s, t.pc.set? = some s → s < σ'.heap.nextSet)
      (fun k t hk s h => (hr.sets k t hk s h).trans_le hset) hs hj

/-- A thread moves on. -/
theorem Refs.move (hr : Refs σ) (pc : Pc) (hthreads : σ'.threads = (σ.goto i t pc).threads)
    (hqueues : σ'.queues = σ.queues) (hheap : σ'.heap = σ.heap)
    (hd : pc.dict? = none ∨ pc.dict? = some σ.queues)
    (hs : pc.set? = none ∨ ∃ s, pc.set? = some s ∧ s < σ.heap.nextSet) : Refs σ' := by
  refine hr.grow pc hthreads hqueues (hheap ▸ hr.heap) (by rw [hheap]) (by rw [hheap]) hd ?_
  intro s hpc
  rw [hheap]
  rcases hs with hs | ⟨s', hs, hlt⟩
  · exact absurd (hs.symm.trans hpc) nofun
  · exact Option.some.inj (hs.symm.trans hpc) ▸ hlt

/-- The threads refer to what they referred to, and nothing they refer to has changed. -/
theorem Refs.of_threads (hr : Refs σ) (hqueues : σ'.queues = σ.queues) (hheap : σ'.heap = σ.heap)
    (hthreads : ∀ i t', σ'.threads i = some t' → (t'.pc.dict? = none ∧ t'.pc.set? = none) ∨
      ∃ t, σ.threads i = some t ∧ t'.pc = t.pc) : Refs σ' where
  heap := hheap ▸ hr.heap
  queues := by
    rw [hqueues, hheap]
    exact hr.queues
  dicts := by
    intro i t' ht' d hd
    rw [hqueues]
    rcases hthreads i t' ht' with ⟨hno, _⟩ | ⟨t, ht, hpc⟩
    · exact absurd (hno.symm.trans hd) nofun
    · exact hr.dicts i t ht d (hpc ▸ hd)
  sets := by
    intro i t' ht' s hs
    rw [hheap]
    rcases hthreads i t' ht' with ⟨_, hno⟩ | ⟨t, ht, hpc⟩
    · exact absurd (hno.symm.trans hs) nofun
    · exact hr.sets i t ht s (hpc ▸ hs)

/-- `self._queues = {}` while nobody has read the dict that goes. -/
theorem Refs.reset (honce : OncePerProcess.Inv σ.view) (hr : Refs σ) (ht : σ.threads i = some t)
    (hpc : t.pc = .resetting) :
    Refs { σ.goto i t .starting with
      queues := σ.heap.nextDict, heap := { σ.heap with nextDict := σ.heap.nextDict + 1 } } := by
  have hworking : σ.view.phase i = .working := by
    rw [phase_of_thread ht, hpc]
    rfl
  have hnone : ∀ j t', σ.threads j = some t' → ∀ d, t'.pc.dict? ≠ some d := by
    intro j t' hj d hd
    refine honce.not_through hworking j ?_
    rw [phase_of_thread hj, Pc.phase_of_dict? hd]
  refine ⟨⟨?_, hr.heap.set⟩, Nat.lt_succ_self _, ?_, ?_⟩
  · intro d sid s hs
    rcases hr.heap.dict d sid s hs with ⟨h₁, h₂⟩
    exact ⟨Nat.lt_succ_of_lt h₁, h₂⟩
  · intro _ _ hj
    exact threads_setThread (P := fun _ t => ∀ d, t.pc.dict? = some d → d = σ.heap.nextDict)
      (fun k t hk d hd => absurd hd (hnone k t hk d)) (fun d hd => by cases hd) hj
  · intro _ _ hj
    exact threads_setThread (P := fun _ t => ∀ s, t.pc.set? = some s → s < σ.heap.nextSet)
      hr.sets (fun s hs => by cases hs) hj

theorem refs_of_acted (honce : OncePerProcess.Inv σ.view) (hr : Refs σ)
    (ht : σ.threads i = some t) (h : Acted σ i t σ') : Refs σ' := by
  have hdict : ∀ d, t.pc.dict? = some d → d = σ.queues := hr.dicts i t ht
  have hset : ∀ s, t.pc.set? = some s → s < σ.heap.nextSet := hr.sets i t ht
  cases h with
  | hit => exact hr.move .loading rfl rfl rfl (Or.inl rfl) (Or.inl rfl)
  | miss => exact hr.move .acquiring rfl rfl rfl (Or.inl rfl) (Or.inl rfl)
  | acquire => exact hr.move .retesting rfl rfl rfl (Or.inl rfl) (Or.inl rfl)
  | found => exact hr.move .releasing rfl rfl rfl (Or.inl rfl) (Or.inl rfl)
  | begin => exact hr.move .resetting rfl rfl rfl (Or.inl rfl) (Or.inl rfl)
  | reset hpc => exact hr.reset honce ht hpc
  | start => exact hr.move .stamping rfl rfl rfl (Or.inl rfl) (Or.inl rfl)
  | stamp => exact hr.move .releasing rfl rfl rfl (Or.inl rfl) (Or.inl rfl)
  | unwind => exact hr.move .failed rfl rfl rfl (Or.inl rfl) (Or.inl rfl)
  | release => exact hr.move .loading rfl rfl rfl (Or.inl rfl) (Or.inl rfl)
  | load => exact hr.move (.defaulting σ.queues) rfl rfl rfl (Or.inr rfl) (Or.inl rfl)
  | default d hpc =>
    have hd : d = σ.queues := hdict d (by rw [hpc]; rfl)
    refine hr.grow (.adding (σ.heap.setdefault d t.sid).2) rfl rfl
      (hr.heap.setdefault (hd ▸ hr.queues)) Heap.setdefault_nextDict Heap.setdefault_nextSet_le
      (Or.inl rfl) ?_
    rintro s ⟨rfl⟩
    exact Heap.setdefault_snd_lt hr.heap
  | add s hpc =>
    exact hr.grow .subscribed rfl rfl (hr.heap.add (hset s (by rw [hpc]; rfl))) rfl le_rfl
      (Or.inl rfl) nofun
  | look => exact hr.move (.getting σ.queues) rfl rfl rfl (Or.inr rfl) (Or.inl rfl)
  | get d s hpc hs =>
    exact hr.move (.discarding s) rfl rfl rfl (Or.inl rfl)
      (Or.inr ⟨s, rfl, (hr.heap.dict d t.sid s hs).2⟩)
  | discard s hpc =>
    refine hr.grow (.checking s) rfl rfl hr.heap.discard rfl le_rfl (Or.inl rfl) ?_
    rintro s' ⟨rfl⟩
    exact hset s (by rw [hpc]; rfl)
  | empty => exact hr.move .relooking rfl rfl rfl (Or.inl rfl) (Or.inl rfl)
  | finish => exact hr.move .done rfl rfl rfl (Or.inl rfl) (Or.inl rfl)
  | relook => exact hr.move (.popping σ.queues) rfl rfl rfl (Or.inr rfl) (Or.inl rfl)
  | pop d hpc =>
    exact hr.grow .done rfl rfl hr.heap.pop rfl le_rfl (Or.inl rfl) nofun

theorem refs_of_step {l : Label} (honce : OncePerProcess.Inv σ.view) (hr : Refs σ)
    (h : Moved σ l σ') : Refs σ' := by
  cases h with
  | call i sid _ =>
    refine hr.of_threads rfl rfl ?_
    intro j t' hj
    exact threads_setThread (P := fun j t' => (t'.pc.dict? = none ∧ t'.pc.set? = none) ∨
      ∃ t, σ.threads j = some t ∧ t'.pc = t.pc) (fun _ t h => Or.inr ⟨t, h, rfl⟩)
      (Or.inl ⟨rfl, rfl⟩) hj
  | act i t ht hact => exact refs_of_acted honce hr ht hact
  | raise => exact hr.move .unwinding rfl rfl rfl (Or.inl rfl) (Or.inl rfl)
  | close => exact hr.move .looking rfl rfl rfl (Or.inl rfl) (Or.inl rfl)
  | read i t data queue ht _ _ =>
    refine hr.of_threads rfl rfl ?_
    intro j t' hj
    refine threads_setThread (P := fun j t' => (t'.pc.dict? = none ∧ t'.pc.set? = none) ∨
      ∃ t, σ.threads j = some t ∧ t'.pc = t.pc) (fun _ t h => Or.inr ⟨t, h, rfl⟩) ?_ hj
    exact Or.inr ⟨t, ht, rfl⟩
  | listen l listener _ hheard => cases hheard <;> exact ⟨hr.heap, hr.queues, hr.dicts, hr.sets⟩
  | offer l q listener t n m todo _ ht _ _ =>
    refine hr.of_threads rfl rfl ?_
    intro j t' hj
    refine threads_setThread (P := fun j t' => (t'.pc.dict? = none ∧ t'.pc.set? = none) ∨
      ∃ t, σ.threads j = some t ∧ t'.pc = t.pc) (fun _ t h => Or.inr ⟨t, h, rfl⟩) ?_ hj
    exact Or.inr ⟨t, ht, rfl⟩
  | publish => exact ⟨hr.heap, hr.queues, hr.dicts, hr.sets⟩
  | fork pid _ _ =>
    refine hr.of_threads rfl rfl ?_
    intro j t' hj
    rcases Option.map_eq_some_iff.mp hj with ⟨t, _, rfl⟩
    exact Or.inl ⟨rfl, rfl⟩

/-! ## The registry -/

/-- At a step after `self._queues = {}`, up to the write of `_pid`. -/
def Pc.wiped : Pc → Bool
  | .starting => true
  | .stamping => true
  | _ => false

/-- `_queues` has been reset in this process. -/
def State.Wiped (σ : State) : Prop :=
  σ.stamp = some σ.pid ∨ ∃ i pc, σ.pc? i = some pc ∧ pc.wiped = true

/-- Thread `q` was started in this process. -/
def State.Own (σ : State) (q : ℕ) : Prop := ∃ pc, σ.pc? q = some pc ∧ pc ≠ .inherited

/-- What a step within a process does to the threads and to the registry. -/
structure Grew (σ σ' : State) : Prop where
  stamp : σ.stamp = some σ.pid → σ'.stamp = some σ'.pid
  threads : ∀ q, (σ.pc? q).isSome = true → (σ'.pc? q).isSome = true
  inherited : ∀ q, σ'.pc? q = some .inherited ↔ σ.pc? q = some .inherited
  members : ∀ s q, q ∈ σ'.heap.set s →
    q ∈ σ.heap.set s ∨ (σ'.Own q ∧ σ'.stamp = some σ'.pid)
  entries : ∀ sid s, σ'.heap.dict σ'.queues sid = some s →
    σ.heap.dict σ.queues sid = some s ∨ σ'.heap.set s = ∅
  wiped : σ'.Wiped → σ.Wiped ∨ ∀ sid, σ'.heap.dict σ'.queues sid = none

theorem Grew.own (h : Grew σ σ') (hq : σ.Own q) : σ'.Own q := by
  rcases hq with ⟨pc, hpc, hne⟩
  obtain ⟨pc', hpc'⟩ := Option.isSome_iff_exists.mp (h.threads q (by rw [hpc]; rfl))
  refine ⟨pc', hpc', ?_⟩
  rintro rfl
  rw [(h.inherited q).mp hpc'] at hpc
  exact hne (Option.some.inj hpc).symm

/-- A queue of an earlier process is registered, or one of this process, which is past the start. -/
structure Registered (σ : State) : Prop where
  member : ∀ s q, q ∈ σ.heap.set s →
    σ.pc? q = some .inherited ∨ (σ.Own q ∧ σ.stamp = some σ.pid)
  /-- From the reset on the sets in the dict hold queues of this process only. -/
  clean : σ.Wiped → ∀ sid s q, σ.heap.dict σ.queues sid = some s → q ∈ σ.heap.set s → σ.Own q

theorem Registered.of_grew (hreg : Registered σ) (h : Grew σ σ') : Registered σ' where
  member := by
    intro s q hq
    rcases h.members s q hq with hq | hq
    · rcases hreg.member s q hq with hinherited | ⟨hown, hstamp⟩
      · exact Or.inl ((h.inherited q).mpr hinherited)
      · exact Or.inr ⟨h.own hown, h.stamp hstamp⟩
    · exact Or.inr hq
  clean := by
    intro hwiped sid s q hs hq
    rcases h.wiped hwiped with hwiped | hnone
    · rcases h.entries sid s hs with hs' | hempty
      · rcases h.members s q hq with hq | ⟨hown, _⟩
        · exact h.own (hreg.clean hwiped sid s q hs' hq)
        · exact hown
      · rw [hempty] at hq
        exact absurd hq (Finset.notMem_empty q)
    · rw [hnone sid] at hs
      cases hs

/-- Thread `i`, which is `t`, has gone on to `pc`, and nothing else is said. -/
structure Went (σ : State) (i : ℕ) (t : Thread) (pc : Pc) (σ' : State) : Prop where
  was : σ.threads i = some t
  threads : σ'.threads = (σ.goto i t pc).threads
  own : t.pc ≠ .inherited
  own' : pc ≠ .inherited
  pid : σ'.pid = σ.pid

namespace Went

variable (h : Went σ i t pc σ')
include h

theorem pc? (j : ℕ) : σ'.pc? j = if j = i then some pc else σ.pc? j := by
  rw [← goto_pc?, State.pc?, h.threads]
  rfl

theorem pc?_self : σ'.pc? i = some pc := by simp [h.pc?]

theorem own_self : σ'.Own i := ⟨pc, h.pc?_self, h.own'⟩

theorem wiped (hstamp : σ'.stamp = σ.stamp) (hpc : pc.wiped = true → σ.Wiped) :
    σ'.Wiped → σ.Wiped := by
  rintro (hw | ⟨j, pc', hj, hw⟩)
  · left
    rwa [hstamp, h.pid] at hw
  · rw [h.pc?] at hj
    split_ifs at hj with hji
    · exact hpc (by rwa [Option.some.inj hj])
    · exact Or.inr ⟨j, pc', hj, hw⟩

/-- The registry only loses entries and members, or gets a new set or an own member. -/
theorem grew (hstamp : σ.stamp = some σ.pid → σ'.stamp = some σ'.pid)
    (hmembers : ∀ s q, q ∈ σ'.heap.set s →
      q ∈ σ.heap.set s ∨ (σ'.Own q ∧ σ'.stamp = some σ'.pid))
    (hentries : ∀ sid s, σ'.heap.dict σ'.queues sid = some s →
      σ.heap.dict σ.queues sid = some s ∨ σ'.heap.set s = ∅)
    (hwiped : σ'.Wiped → σ.Wiped ∨ ∀ sid, σ'.heap.dict σ'.queues sid = none) : Grew σ σ' where
  stamp := hstamp
  threads := by
    intro q hq
    rw [h.pc?]
    split_ifs
    · rfl
    · exact hq
  inherited := by
    intro q
    rw [h.pc?]
    split_ifs with hqi
    · rw [hqi, pc?_of_thread h.was]
      simp [h.own, h.own']
    · rfl
  members := hmembers
  entries := hentries
  wiped := hwiped

/-- The registry is not touched. -/
theorem grew_of_eq (hstamp : σ'.stamp = σ.stamp) (hqueues : σ'.queues = σ.queues)
    (hheap : σ'.heap = σ.heap) (hpc : pc.wiped = true → σ.Wiped) : Grew σ σ' := by
  refine h.grew ?_ ?_ ?_ ?_
  · intro hs
    rw [hstamp, h.pid, hs]
  · intro s q hq
    rw [hheap] at hq
    exact Or.inl hq
  · intro sid s hs
    rw [hheap, hqueues] at hs
    exact Or.inl hs
  · exact fun hw => Or.inl (h.wiped hstamp hpc hw)

end Went

/-- Within a process, where threads stand as they stood. -/
theorem grew_of_pc? (hpc : σ'.pc? = σ.pc?) (hpid : σ'.pid = σ.pid) (hstamp : σ'.stamp = σ.stamp)
    (hqueues : σ'.queues = σ.queues) (hheap : σ'.heap = σ.heap) : Grew σ σ' where
  stamp := by
    intro hs
    rw [hstamp, hpid, hs]
  threads := by
    intro q hq
    rwa [hpc]
  inherited := by
    intro q
    rw [hpc]
  members := by
    intro s q hq
    rw [hheap] at hq
    exact Or.inl hq
  entries := by
    intro sid s hs
    rw [hheap, hqueues] at hs
    exact Or.inl hs
  wiped := by
    intro hw
    left
    rwa [State.Wiped, hstamp, hpid, hpc] at hw

theorem wiped_of_thread (ht : σ.threads i = some t) (h : t.pc.wiped = true) : σ.Wiped :=
  Or.inr ⟨i, t.pc, pc?_of_thread ht, h⟩

theorem grew_of_acted (honce : OncePerProcess.Inv σ.view) (hr : Refs σ)
    (ht : σ.threads i = some t) (h : Acted σ i t σ') : Grew σ σ' := by
  -- a thread past the start finds `_pid` written
  have hstamped : t.pc.phase = .through → σ.stamp = some σ.pid := by
    intro hphase
    exact honce.released i (Or.inr (by rw [phase_of_thread ht, hphase]))
  cases h with
  | hit hpc =>
    exact Went.grew_of_eq (show Went σ i t .loading _ from
      ⟨ht, rfl, by simp [hpc], nofun, rfl⟩) rfl rfl rfl nofun
  | miss hpc =>
    exact Went.grew_of_eq (show Went σ i t .acquiring _ from
      ⟨ht, rfl, by simp [hpc], nofun, rfl⟩) rfl rfl rfl
      nofun
  | acquire hpc =>
    exact Went.grew_of_eq (show Went σ i t .retesting _ from
      ⟨ht, rfl, by simp [hpc], nofun, rfl⟩) rfl rfl rfl
      nofun
  | found hpc =>
    exact Went.grew_of_eq (show Went σ i t .releasing _ from
      ⟨ht, rfl, by simp [hpc], nofun, rfl⟩) rfl rfl rfl
      nofun
  | begin hpc =>
    exact Went.grew_of_eq (show Went σ i t .resetting _ from
      ⟨ht, rfl, by simp [hpc], nofun, rfl⟩) rfl rfl rfl
      nofun
  | reset hpc =>
    refine Went.grew (show Went σ i t .starting _ from
      ⟨ht, rfl, by simp [hpc], nofun, rfl⟩) id ?_ ?_ ?_
    · exact fun s q hq => Or.inl hq
    · intro sid s hs
      have hnone := hr.heap.dict_nextDict sid
      exact absurd (hs.symm.trans hnone) nofun
    · exact fun _ => Or.inr hr.heap.dict_nextDict
  | start hpc =>
    exact Went.grew_of_eq (show Went σ i t .stamping _ from
      ⟨ht, rfl, by simp [hpc], nofun, rfl⟩) rfl rfl rfl
      fun _ => wiped_of_thread ht (by rw [hpc]; rfl)
  | stamp hpc =>
    refine Went.grew (show Went σ i t .releasing _ from
      ⟨ht, rfl, by simp [hpc], nofun, rfl⟩) (fun _ => rfl) ?_ ?_ ?_
    · exact fun s q hq => Or.inl hq
    · exact fun sid s hs => Or.inl hs
    · exact fun _ => Or.inl (wiped_of_thread ht (by rw [hpc]; rfl))
  | unwind hpc =>
    exact Went.grew_of_eq (show Went σ i t .failed _ from
      ⟨ht, rfl, by simp [hpc], nofun, rfl⟩) rfl rfl rfl nofun
  | release hpc =>
    exact Went.grew_of_eq (show Went σ i t .loading _ from
      ⟨ht, rfl, by simp [hpc], nofun, rfl⟩) rfl rfl rfl nofun
  | load hpc =>
    exact Went.grew_of_eq (show Went σ i t (.defaulting σ.queues) _ from
      ⟨ht, rfl, by simp [hpc], nofun, rfl⟩) rfl rfl rfl nofun
  | default d hpc =>
    have hd : d = σ.queues := hr.dicts i t ht d (by rw [hpc]; rfl)
    subst hd
    have hwent : Went σ i t (.adding (σ.heap.setdefault σ.queues t.sid).2)
        { σ.goto i t (.adding (σ.heap.setdefault σ.queues t.sid).2) with
          heap := (σ.heap.setdefault σ.queues t.sid).1 } :=
      ⟨ht, rfl, by simp [hpc], nofun, rfl⟩
    refine hwent.grew id ?_ ?_ (fun hw => Or.inl (hwent.wiped rfl nofun hw))
    · intro s q hq
      left
      rwa [Heap.setdefault_set] at hq
    · intro sid s hs
      rcases Heap.setdefault_dict hs with hs | ⟨_, _, _, rfl⟩
      · exact Or.inl hs
      · right
        rw [Heap.setdefault_set]
        exact Finset.eq_empty_of_forall_notMem hr.heap.notMem_nextSet
  | add s hpc =>
    have hwent : Went σ i t .subscribed { σ.goto i t .subscribed with heap := σ.heap.add s i } :=
      ⟨ht, rfl, by simp [hpc], nofun, rfl⟩
    refine hwent.grew id ?_ (fun sid s hs => Or.inl hs) (fun hw => Or.inl (hwent.wiped rfl nofun hw))
    intro s' q hq
    rcases Heap.mem_add.mp hq with ⟨_, rfl⟩ | hq
    · exact Or.inr ⟨hwent.own_self, hstamped (by rw [hpc]; rfl)⟩
    · exact Or.inl hq
  | look hpc =>
    exact Went.grew_of_eq (show Went σ i t (.getting σ.queues) _ from
      ⟨ht, rfl, by simp [hpc], nofun, rfl⟩) rfl rfl rfl nofun
  | get d s hpc =>
    exact Went.grew_of_eq (show Went σ i t (.discarding s) _ from
      ⟨ht, rfl, by simp [hpc], nofun, rfl⟩) rfl rfl rfl nofun
  | discard s hpc =>
    have hwent : Went σ i t (.checking s)
        { σ.goto i t (.checking s) with heap := σ.heap.discard s i } :=
      ⟨ht, rfl, by simp [hpc], nofun, rfl⟩
    refine hwent.grew id ?_ (fun sid s hs => Or.inl hs) (fun hw => Or.inl (hwent.wiped rfl nofun hw))
    exact fun s' q hq => Or.inl (Heap.mem_discard.mp hq).1
  | empty s hpc =>
    exact Went.grew_of_eq (show Went σ i t .relooking _ from
      ⟨ht, rfl, by simp [hpc], nofun, rfl⟩) rfl rfl rfl
      nofun
  | finish hpc =>
    have hne : t.pc ≠ .inherited := by
      rcases hpc with ⟨d, hpc, _⟩ | ⟨s, hpc, _⟩ <;> simp [hpc]
    exact Went.grew_of_eq (show Went σ i t .done _ from ⟨ht, rfl, hne, nofun, rfl⟩) rfl rfl rfl nofun
  | relook hpc =>
    exact Went.grew_of_eq (show Went σ i t (.popping σ.queues) _ from
      ⟨ht, rfl, by simp [hpc], nofun, rfl⟩) rfl rfl rfl nofun
  | pop d hpc =>
    have hwent : Went σ i t .done { σ.goto i t .done with heap := σ.heap.pop d t.sid } :=
      ⟨ht, rfl, by simp [hpc], nofun, rfl⟩
    refine hwent.grew id (fun s q hq => Or.inl hq) ?_ (fun hw => Or.inl (hwent.wiped rfl nofun hw))
    exact fun sid s hs => Or.inl (Heap.pop_dict.mp hs).1

theorem setThread_same_pc? (ht : σ.threads i = some t) {t' : Thread} (h : t'.pc = t.pc) :
    (σ.setThread i t').pc? = σ.pc? := by
  funext j
  rw [setThread_pc?]
  split_ifs with hj
  · rw [hj, h, pc?_of_thread ht]
  · rfl

theorem grew_of_step {l : Label} (honce : OncePerProcess.Inv σ.view) (hr : Refs σ)
    (h : Moved σ l σ') (hfork : ∀ pid, l ≠ .fork pid) : Grew σ σ' := by
  cases h with
  | call i sid hnone =>
    have hpc : ∀ q, (σ.setThread i ⟨sid, .testing, [], []⟩).pc? q =
        if q = i then some .testing else σ.pc? q := setThread_pc?
    have hi : σ.pc? i = none := by simp [State.pc?, hnone]
    refine ⟨id, ?_, ?_, fun s q hq => Or.inl hq, fun sid s hs => Or.inl hs, ?_⟩
    · intro q hq
      rw [hpc]
      split_ifs
      · rfl
      · exact hq
    · intro q
      rw [hpc]
      split_ifs with hq
      · simp [hq, hi]
      · rfl
    · rintro (hw | ⟨j, pc', hj, hw⟩)
      · exact Or.inl (Or.inl hw)
      · rw [hpc] at hj
        split_ifs at hj
        · obtain rfl := Option.some.inj hj
          cases hw
        · exact Or.inl (Or.inr ⟨j, pc', hj, hw⟩)
  | act i t ht hact => exact grew_of_acted honce hr ht hact
  | raise i t ht hpc =>
    exact Went.grew_of_eq (show Went σ i t .unwinding _ from
      ⟨ht, rfl, by simp [hpc], nofun, rfl⟩) rfl rfl rfl nofun
  | close i t ht hpc =>
    exact Went.grew_of_eq (show Went σ i t .looking _ from
      ⟨ht, rfl, by simp [hpc], nofun, rfl⟩) rfl rfl rfl nofun
  | read i t data queue ht hpc _ =>
    exact grew_of_pc? (setThread_same_pc? ht rfl) rfl rfl rfl rfl
  | listen l listener _ hheard => cases hheard <;> exact grew_of_pc? rfl rfl rfl rfl rfl
  | offer l q listener t n m todo _ ht _ _ =>
    refine grew_of_pc? ?_ rfl rfl rfl rfl
    exact setThread_same_pc? (i := q) (t := t) ht (put_pc n m)
  | publish => exact grew_of_pc? rfl rfl rfl rfl rfl
  | fork pid _ _ => exact absurd rfl (hfork pid)

theorem registered_of_step {l : Label} (honce : OncePerProcess.Inv σ.view) (hr : Refs σ)
    (hreg : Registered σ) (h : Moved σ l σ') : Registered σ' := by
  by_cases hfork : ∀ pid, l ≠ .fork pid
  · exact hreg.of_grew (grew_of_step honce hr h hfork)
  · push Not at hfork
    rcases hfork with ⟨pid, rfl⟩
    cases h with
    | fork pid _ hnew =>
      constructor
      · intro s q hq
        left
        rw [child_pc?]
        rcases hreg.member s q hq with hpc | ⟨⟨pc, hpc, _⟩, _⟩ <;> simp [hpc]
      · rintro (hw | ⟨i, pc, hpc, hw⟩)
        · exact absurd hw (honce.fork_stamp hnew)
        · rw [child_pc?] at hpc
          rcases Option.map_eq_some_iff.mp hpc with ⟨_, _, rfl⟩
          cases hw

/-! ## The listener -/

/-- How many listeners the process has. -/
structure Started (σ : State) : Prop where
  before : σ.stamp ≠ some σ.pid → (∀ i, σ.pc? i ≠ some .stamping) → σ.started = 0
  stamping : ∀ i, σ.pc? i = some .stamping → σ.started = 1
  stamped : σ.stamp = some σ.pid → σ.started = 1
  listeners : ∀ l listener, σ.listeners l = some listener → l < σ.started

/-- A thread goes on, and not to or from the write of `_pid`. -/
theorem Started.went (hs : Started σ) (h : Went σ i t pc σ') (hpc : t.pc ≠ .stamping)
    (hpc' : pc ≠ .stamping) (hstamp : σ'.stamp = σ.stamp) (hstarted : σ'.started = σ.started)
    (hlisteners : σ'.listeners = σ.listeners) : Started σ' where
  before := by
    intro hne hnone
    rw [hstarted]
    refine hs.before (by rwa [hstamp, h.pid] at hne) ?_
    intro j hj
    refine hnone j ?_
    rw [h.pc?, if_neg, hj]
    rintro rfl
    rw [pc?_of_thread h.was] at hj
    exact hpc (Option.some.inj hj)
  stamping := by
    intro j hj
    rw [h.pc?] at hj
    rw [hstarted]
    split_ifs at hj with hji
    · exact absurd (Option.some.inj hj) hpc'
    · exact hs.stamping j hj
  stamped := by
    intro hst
    rw [hstarted]
    exact hs.stamped (by rwa [hstamp, h.pid] at hst)
  listeners := by
    intro l x hl
    rw [hlisteners] at hl
    rw [hstarted]
    exact hs.listeners l x hl

/-- While a thread is in the work before the start of a listener, there is none. -/
theorem Started.zero (hs : Started σ) (honce : OncePerProcess.Inv σ.view)
    (ht : σ.threads i = some t) (hphase : t.pc.phase = .working) (hpc : t.pc ≠ .stamping) :
    σ.started = 0 := by
  have hworking : σ.view.phase i = .working := by rw [phase_of_thread ht, hphase]
  refine hs.before (honce.working i hworking) ?_
  intro j hj
  -- two threads would be in the work
  have hjworking : σ.view.phase j = .working := by
    show (σ.pc? j).elim .outside Pc.phase = .working
    rw [hj]
    rfl
  obtain rfl : j = i := honce.sole (by rw [hjworking]; rfl) (by rw [hworking]; rfl)
  rw [pc?_of_thread ht] at hj
  exact hpc (Option.some.inj hj)

theorem Started.no_listener (hs : Started σ) (hzero : σ.started = 0) (l : ℕ) :
    σ.listeners l = none := by
  cases hl : σ.listeners l with
  | none => rfl
  | some x =>
    have hlt := hs.listeners l x hl
    omega

theorem started_of_acted (honce : OncePerProcess.Inv σ.view) (hs : Started σ)
    (ht : σ.threads i = some t) (h : Acted σ i t σ') : Started σ' := by
  cases h with
  | hit hpc =>
    exact Started.went hs (show Went σ i t .loading _ from
      ⟨ht, rfl, by simp [hpc], nofun, rfl⟩) (by simp [hpc]) nofun rfl rfl rfl
  | miss hpc =>
    exact Started.went hs (show Went σ i t .acquiring _ from
      ⟨ht, rfl, by simp [hpc], nofun, rfl⟩) (by simp [hpc]) nofun rfl rfl rfl
  | acquire hpc =>
    exact Started.went hs (show Went σ i t .retesting _ from
      ⟨ht, rfl, by simp [hpc], nofun, rfl⟩) (by simp [hpc]) nofun rfl rfl rfl
  | found hpc =>
    exact Started.went hs (show Went σ i t .releasing _ from
      ⟨ht, rfl, by simp [hpc], nofun, rfl⟩) (by simp [hpc]) nofun rfl rfl rfl
  | begin hpc =>
    exact Started.went hs (show Went σ i t .resetting _ from
      ⟨ht, rfl, by simp [hpc], nofun, rfl⟩) (by simp [hpc]) nofun rfl rfl rfl
  | reset hpc =>
    exact Started.went hs (show Went σ i t .starting _ from
      ⟨ht, rfl, by simp [hpc], nofun, rfl⟩) (by simp [hpc]) nofun rfl rfl rfl
  | start hpc =>
    have hzero : σ.started = 0 := hs.zero honce ht (by rw [hpc]; rfl) (by simp [hpc])
    refine ⟨?_, fun _ _ => by rw [hzero], fun _ => by rw [hzero], ?_⟩
    · intro _ hnone
      have hself : (σ.goto i t .stamping).pc? i = some .stamping := by simp [goto_pc?]
      exact absurd hself (hnone i)
    · intro l x hl
      refine listeners_setListener (σ := σ.goto i t .stamping)
        (P := fun l _ => l < σ.started + 1) ?_ (Nat.lt_succ_self _) hl
      exact fun l x hl => Nat.lt_succ_of_lt (hs.listeners l x hl)
  | stamp hpc =>
    have hone : σ.started = 1 := hs.stamping i (by rw [pc?_of_thread ht, hpc])
    exact ⟨fun hne => absurd rfl hne, fun _ _ => hone, fun _ => hone, hs.listeners⟩
  | unwind hpc =>
    exact Started.went hs (show Went σ i t .failed _ from
      ⟨ht, rfl, by simp [hpc], nofun, rfl⟩) (by simp [hpc]) nofun rfl rfl rfl
  | release hpc =>
    exact Started.went hs (show Went σ i t .loading _ from
      ⟨ht, rfl, by simp [hpc], nofun, rfl⟩) (by simp [hpc]) nofun rfl rfl rfl
  | load hpc =>
    exact Started.went hs (show Went σ i t (.defaulting σ.queues) _ from
      ⟨ht, rfl, by simp [hpc], nofun, rfl⟩) (by simp [hpc]) nofun rfl rfl rfl
  | default d hpc =>
    exact Started.went hs (show Went σ i t (.adding (σ.heap.setdefault d t.sid).2) _ from
      ⟨ht, rfl, by simp [hpc], nofun, rfl⟩) (by simp [hpc]) nofun rfl rfl rfl
  | add s hpc =>
    exact Started.went hs (show Went σ i t .subscribed _ from
      ⟨ht, rfl, by simp [hpc], nofun, rfl⟩) (by simp [hpc]) nofun rfl rfl rfl
  | look hpc =>
    exact Started.went hs (show Went σ i t (.getting σ.queues) _ from
      ⟨ht, rfl, by simp [hpc], nofun, rfl⟩) (by simp [hpc]) nofun rfl rfl rfl
  | get d s hpc =>
    exact Started.went hs (show Went σ i t (.discarding s) _ from
      ⟨ht, rfl, by simp [hpc], nofun, rfl⟩) (by simp [hpc]) nofun rfl rfl rfl
  | discard s hpc =>
    exact Started.went hs (show Went σ i t (.checking s) _ from
      ⟨ht, rfl, by simp [hpc], nofun, rfl⟩) (by simp [hpc]) nofun rfl rfl rfl
  | empty s hpc =>
    exact Started.went hs (show Went σ i t .relooking _ from
      ⟨ht, rfl, by simp [hpc], nofun, rfl⟩) (by simp [hpc]) nofun rfl rfl rfl
  | finish hpc =>
    have hne : t.pc ≠ .inherited ∧ t.pc ≠ .stamping := by
      rcases hpc with ⟨d, hpc, _⟩ | ⟨s, hpc, _⟩ <;> simp [hpc]
    exact Started.went hs (show Went σ i t .done _ from ⟨ht, rfl, hne.1, nofun, rfl⟩) hne.2 nofun
      rfl rfl rfl
  | relook hpc =>
    exact Started.went hs (show Went σ i t (.popping σ.queues) _ from
      ⟨ht, rfl, by simp [hpc], nofun, rfl⟩) (by simp [hpc]) nofun rfl rfl rfl
  | pop d hpc =>
    exact Started.went hs (show Went σ i t .done _ from
      ⟨ht, rfl, by simp [hpc], nofun, rfl⟩) (by simp [hpc]) nofun rfl rfl rfl

/-- Threads stand as they stood, and the listeners are the same. -/
theorem Started.of_pc? (hs : Started σ) (hpc : σ'.pc? = σ.pc?) (hpid : σ'.pid = σ.pid)
    (hstamp : σ'.stamp = σ.stamp) (hstarted : σ'.started = σ.started)
    (hlisteners : ∀ l, (σ'.listeners l).isSome = true → (σ.listeners l).isSome = true) :
    Started σ' where
  before := by
    intro hne hnone
    rw [hstarted]
    rw [hstamp, hpid] at hne
    rw [hpc] at hnone
    exact hs.before hne hnone
  stamping := by
    intro j hj
    rw [hstarted]
    rw [hpc] at hj
    exact hs.stamping j hj
  stamped := by
    intro hst
    rw [hstarted]
    rw [hstamp, hpid] at hst
    exact hs.stamped hst
  listeners := by
    intro l x hl
    rw [hstarted]
    obtain ⟨y, hy⟩ := Option.isSome_iff_exists.mp (hlisteners l (by rw [hl]; rfl))
    exact hs.listeners l y hy

theorem isSome_setListener {l l' : ℕ} {listener x : Listener} (hl : σ.listeners l = some listener)
    (h : ((σ.setListener l x).listeners l').isSome = true) : (σ.listeners l').isSome = true := by
  by_cases hl' : l' = l
  · rw [hl', hl]
    rfl
  · simpa [State.setListener, hl'] using h

theorem started_of_step {l : Label} (honce : OncePerProcess.Inv σ.view) (hs : Started σ)
    (h : Moved σ l σ') : Started σ' := by
  cases h with
  | call i sid hnone =>
    have hpc : ∀ j, (σ.setThread i ⟨sid, .testing, [], []⟩).pc? j =
        if j = i then some .testing else σ.pc? j := setThread_pc?
    refine ⟨fun hne hno => hs.before hne fun j hj => ?_, fun j hj => ?_, hs.stamped, hs.listeners⟩
    · refine hno j ?_
      rw [hpc, if_neg, hj]
      rintro rfl
      simp [State.pc?, hnone] at hj
    · rw [hpc] at hj
      split_ifs at hj with hji
      · cases hj
      · exact hs.stamping j hj
  | act i t ht hact => exact started_of_acted honce hs ht hact
  | raise i t ht hpc =>
    exact Started.went hs (show Went σ i t .unwinding _ from
      ⟨ht, rfl, by simp [hpc], nofun, rfl⟩) (by simp [hpc]) nofun rfl rfl rfl
  | close i t ht hpc =>
    exact Started.went hs (show Went σ i t .looking _ from
      ⟨ht, rfl, by simp [hpc], nofun, rfl⟩) (by simp [hpc]) nofun rfl rfl rfl
  | read i t data queue ht hpc _ =>
    exact hs.of_pc? (setThread_same_pc? ht rfl) rfl rfl rfl fun _ => id
  | listen l listener hl hheard =>
    cases hheard <;> exact hs.of_pc? rfl rfl rfl rfl fun _ h => isSome_setListener hl h
  | offer l q listener t n m todo hl ht _ _ =>
    refine hs.of_pc? ?_ rfl rfl rfl fun _ h => isSome_setListener hl h
    exact setThread_same_pc? (i := q) (t := t) ht (put_pc n m)
  | publish =>
    refine hs.of_pc? rfl rfl rfl rfl ?_
    intro l h
    rwa [State.publish, Option.isSome_map] at h
  | fork pid hlock hnew =>
    refine ⟨fun _ _ => rfl, fun j hj => ?_, fun hst => absurd hst (honce.fork_stamp hnew), nofun⟩
    rw [child_pc?] at hj
    rcases Option.map_eq_some_iff.mp hj with ⟨_, _, hpc⟩
    cases hpc

/-- What a listener refers to: the present dict, and threads of this process. -/
def ListenerPc.Fine (σ : State) : ListenerPc → Prop
  | .getting _ _ d => d = σ.queues
  | .copying _ _ (some s) => ∀ q ∈ σ.heap.set s, σ.Own q
  | .offering _ _ todo => ∀ q ∈ todo, σ.Own q
  | _ => True

/-- Every listener is fine. -/
def Serving (σ : State) : Prop :=
  ∀ l listener, σ.listeners l = some listener → listener.pc.Fine σ

theorem ListenerPc.Fine.of_grew {lpc : ListenerPc} (h : lpc.Fine σ) (hgrew : Grew σ σ')
    (hqueues : σ'.queues = σ.queues) : lpc.Fine σ' := by
  cases lpc with
  | getting n m d => exact h.trans hqueues.symm
  | copying n m s =>
    cases s with
    | none => trivial
    | some s =>
      intro q hq
      rcases hgrew.members s q hq with hq | ⟨hown, _⟩
      · exact hgrew.own (h q hq)
      · exact hown
  | offering n m todo => exact fun q hq => hgrew.own (h q hq)
  | _ => trivial

/-- A step that keeps `_queues` and the listeners, or what they stand at. -/
theorem Serving.of_grew (hs : Serving σ) (hgrew : Grew σ σ') (hqueues : σ'.queues = σ.queues)
    (hlisteners : ∀ l x, σ'.listeners l = some x → ∃ y, σ.listeners l = some y ∧ x.pc = y.pc) :
    Serving σ' := by
  intro l x hl
  rcases hlisteners l x hl with ⟨y, hy, hpc⟩
  rw [hpc]
  exact (hs l y hy).of_grew hgrew hqueues

theorem serving_of_acted (honce : OncePerProcess.Inv σ.view) (hstarted : Started σ)
    (hs : Serving σ) (hgrew : Grew σ σ') (ht : σ.threads i = some t) (h : Acted σ i t σ') :
    Serving σ' := by
  have hsame : ∀ {τ : State}, τ.listeners = σ.listeners →
      ∀ l x, τ.listeners l = some x → ∃ y, σ.listeners l = some y ∧ x.pc = y.pc := by
    intro τ hτ l x hl
    exact ⟨x, by rw [← hτ, hl], rfl⟩
  cases h with
  | reset hpc =>
    have hzero : σ.started = 0 := hstarted.zero honce ht (by rw [hpc]; rfl) (by simp [hpc])
    intro l x hl
    exact absurd (hl.symm.trans (hstarted.no_listener hzero l)) nofun
  | start hpc =>
    have hzero : σ.started = 0 := hstarted.zero honce ht (by rw [hpc]; rfl) (by simp [hpc])
    intro l x hl
    refine listeners_setListener (σ := σ.goto i t .stamping) (P := fun _ x => x.pc.Fine _) ?_ ?_ hl
    · exact fun l y hy => absurd (hy.symm.trans (hstarted.no_listener hzero l)) nofun
    · trivial
  | _ => exact hs.of_grew hgrew rfl (hsame rfl)

theorem serving_of_heard {l : ℕ} {listener : Listener} (hstarted : Started σ)
    (hreg : Registered σ) (hs : Serving σ) (hl : σ.listeners l = some listener)
    (h : Heard σ l listener σ') : Serving σ' := by
  have hfine := hs l listener hl
  have hgrew : Grew σ σ' := by cases h <;> exact grew_of_pc? rfl rfl rfl rfl rfl
  have hmove : ∀ (x : Listener) {τ : State}, x.pc.Fine σ → τ.queues = σ.queues → Grew σ τ →
      τ.listeners = (σ.setListener l x).listeners → Serving τ := by
    intro x τ hx hqueues hτ hlisteners l' y hy
    rw [hlisteners] at hy
    refine ListenerPc.Fine.of_grew ?_ hτ hqueues
    exact listeners_setListener (P := fun _ x => x.pc.Fine σ) hs hx hy
  cases h with
  | connect hpc =>
    exact hmove { listener with pc := .polling, subscribed := true } trivial rfl hgrew rfl
  | poll n m rest hpc hinbox =>
    exact hmove { listener with pc := .loading n m, inbox := rest } trivial rfl hgrew rfl
  | load n m hpc =>
    refine hmove { listener with pc := .getting n m σ.queues } ?_ rfl hgrew rfl
    show σ.queues = σ.queues
    rfl
  | get n m d hpc =>
    refine hmove { listener with
      pc := .copying n m (σ.heap.dict d (EventHub.sessionOfChannel m.channel)) } ?_ rfl hgrew rfl
    rw [hpc] at hfine
    obtain rfl : d = σ.queues := hfine
    show ListenerPc.Fine σ (.copying n m (σ.heap.dict σ.queues (EventHub.sessionOfChannel m.channel)))
    cases hset : σ.heap.dict σ.queues (EventHub.sessionOfChannel m.channel) with
    | none => trivial
    | some s =>
      have hwiped : σ.Wiped := by
        by_contra hno
        have hzero : σ.started = 0 := by
          refine hstarted.before (fun hstamp => hno (Or.inl hstamp)) ?_
          intro i hi
          exact hno (Or.inr ⟨i, _, hi, rfl⟩)
        rw [hstarted.no_listener hzero l] at hl
        cases hl
      exact fun q hq => hreg.clean hwiped _ s q hset hq
  | copy n m s hpc =>
    refine hmove { listener with pc := .offering n m (s.elim ∅ σ.heap.set) } ?_ rfl hgrew rfl
    rw [hpc] at hfine
    cases s with
    | none => exact fun q hq => absurd hq (Finset.notMem_empty q)
    | some s => exact hfine
  | finish n m hpc => exact hmove { listener with pc := .polling } trivial rfl hgrew rfl

theorem serving_of_step {l : Label} (honce : OncePerProcess.Inv σ.view) (hr : Refs σ)
    (hstarted : Started σ) (hreg : Registered σ) (hs : Serving σ) (h : Moved σ l σ') :
    Serving σ' := by
  have hgrew : (∀ pid, l ≠ .fork pid) → Grew σ σ' := grew_of_step honce hr h
  cases h with
  | act i t ht hact => exact serving_of_acted honce hstarted hs (hgrew nofun) ht hact
  | listen l listener hl hheard => exact serving_of_heard hstarted hreg hs hl hheard
  | offer l q listener t n m todo hl ht hpc hq =>
    intro l' y hy
    refine ListenerPc.Fine.of_grew ?_ (hgrew nofun) rfl
    refine listeners_setListener (P := fun _ x => x.pc.Fine σ) hs ?_ hy
    have hfine := hs l listener hl
    rw [hpc] at hfine
    exact fun q' hq' => hfine q' (Finset.mem_of_mem_erase hq')
  | publish sid data =>
    refine hs.of_grew (hgrew nofun) rfl ?_
    intro l x hl
    rcases Option.map_eq_some_iff.mp hl with ⟨y, hy, rfl⟩
    refine ⟨y, hy, ?_⟩
    unfold State.hear
    split_ifs <;> rfl
  | fork pid _ _ => exact fun _ _ hl => by cases hl
  | _ => exact hs.of_grew (hgrew nofun) rfl fun l x hl => ⟨x, hl, rfl⟩

/-- What holds of every process, whatever its calls have done so far. -/
structure Safe (σ : State) : Prop where
  once : OncePerProcess.Inv σ.view
  refs : Refs σ
  registered : Registered σ
  started : Started σ
  serving : Serving σ

theorem Safe.init (pid : ℕ) : Safe (State.init pid) where
  once := OncePerProcess.Inv.init pid
  refs := ⟨⟨nofun, fun s q hq => absurd hq (Finset.notMem_empty q)⟩, Nat.one_pos, nofun, nofun⟩
  registered := ⟨fun s q hq => absurd hq (Finset.notMem_empty q), fun _ sid s q hs => by cases hs⟩
  started := ⟨fun _ _ => rfl, nofun, nofun, nofun⟩
  serving := nofun

theorem Safe.step {l : Label} (hs : Safe σ) (h : State.step l σ = some σ') : Safe σ' := by
  have hmoved := moved_of_step h
  exact ⟨once_of_step hs.once hmoved, refs_of_step hs.once hs.refs hmoved,
    registered_of_step hs.once hs.refs hs.registered hmoved,
    started_of_step hs.once hs.started hmoved,
    serving_of_step hs.once hs.refs hs.started hs.registered hs.serving hmoved⟩

theorem Safe.of_reach {pid : ℕ} {ok : Lts.Guard State Label} (h : (machine pid).Reach ok σ) :
    Safe σ :=
  h.invariant (Safe.init pid) fun _ _ _ _ hs hi => hi.step hs

/-- In a process that has just started and in every child of a chain of forks, however the steps of
its calls interleave: no second listener is started, and one has been once a call is past
`_ensure_listener`; when `_queues` is reset no call is past it, and every queue that goes was
registered before the fork; and no such queue is offered anything. -/
theorem one_listener_per_process {pid : ℕ} {σ : State} (h : (machine pid).Reach Lts.anyStep σ) :
    (σ.started ≤ 1 ∧ (σ.stamp = some σ.pid → σ.started = 1) ∧
      ∀ i pc, σ.pc? i = some pc → pc.phase = .through → σ.stamp = some σ.pid) ∧
    (∀ i, σ.pc? i = some .resetting →
      (∀ j pc, σ.pc? j = some pc → pc.phase ≠ .through) ∧
      ∀ sid s q, σ.heap.dict σ.queues sid = some s → q ∈ σ.heap.set s →
        σ.pc? q = some .inherited) ∧
    ∀ l q σ', State.step (.offer l q) σ = some σ' → σ.pc? q ≠ some .inherited := by
  have hsafe := Safe.of_reach h
  have hthrough : ∀ i pc, σ.pc? i = some pc → pc.phase = .through → σ.stamp = some σ.pid := by
    intro i pc hpc hphase
    refine hsafe.once.released i (Or.inr ?_)
    show (σ.pc? i).elim .outside Pc.phase = .through
    rw [hpc]
    exact hphase
  refine ⟨⟨?_, hsafe.started.stamped, hthrough⟩, ?_, ?_⟩
  · by_cases hstamp : σ.stamp = some σ.pid
    · exact (hsafe.started.stamped hstamp).le
    · by_cases hstamping : ∃ i, σ.pc? i = some .stamping
      · rcases hstamping with ⟨i, hi⟩
        exact (hsafe.started.stamping i hi).le
      · push Not at hstamping
        rw [hsafe.started.before hstamp hstamping]
        exact Nat.zero_le 1
  · intro i hi
    have hworking : σ.view.phase i = .working := by
      show (σ.pc? i).elim .outside Pc.phase = .working
      rw [hi]
      rfl
    have hstamp := hsafe.once.working i hworking
    refine ⟨fun j pc hj hphase => hstamp (hthrough j pc hj hphase), ?_⟩
    intro sid s q _ hq
    rcases hsafe.registered.member s q hq with hinherited | ⟨_, hst⟩
    · exact hinherited
    · exact absurd hst hstamp
  · intro l q σ' hoffer
    cases moved_of_step hoffer with
    | offer l q listener t n m todo hl ht hpc hq =>
      have hfine := hsafe.serving l listener hl
      rw [hpc] at hfine
      rcases hfine q hq with ⟨pc, hown, hne⟩
      rw [hown]
      exact fun heq => hne (Option.some.inj heq)

namespace Sample

/-- Two threads of a process subscribe to one session, the second gets the lock first; then a thread
of a child is about to reset `_queues`. -/
def resetting : List Label := List.flatten
  [[.call 0 (lit "s"), .act 0, .call 1 (lit "s")], List.replicate 10 (.act 1),
    List.replicate 6 (.act 0), [.fork 8, .call 2 (lit "s")], List.replicate 3 (.act 2)]

end Sample

/-- It applies to a child whose parent has queues registered. -/
theorem one_listener_per_process_sample :
    0 ∈ ((machine 7).after Sample.resetting).heap.set 0 ∧
      ((machine 7).after Sample.resetting).pc? 0 = some .inherited := by
  have hrun := (machine 7).run_after Sample.resetting (by decide +kernel)
  have hmem : 0 ∈ ((machine 7).after Sample.resetting).heap.set 0 := by decide +kernel
  refine ⟨hmem, ((one_listener_per_process ⟨_, hrun⟩).2.1 2 ?_).2 (lit "s") 0 0 ?_ hmem⟩ <;>
    decide +kernel

end HubThreads

end Doppelganger
