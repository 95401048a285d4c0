import Doppelganger.HubOnce

/-!
# Is a subscribed queue registered?

`subscribe` and `unsubscribe` share a dict of sets without a lock. `unsubscribe` tests
that the set it found is empty, and pops the entry some steps later; in between another
thread may have found the same set and added its queue to it, or may be about to.

`Linked` says that nobody has lost the registration this way. A step keeps it exactly
when it is `calm` (`linked_step_iff`), so a run stays linked exactly when its steps are
all calm; `subscription_lost` is a run that does not.
-/

open Text Redis

namespace Doppelganger

namespace HubThreads

variable {σ σ' : State} {i q : ℕ} {t : Thread} {pc : Pc}

/-! ## Past the `add` -/

/-- Past `subscribe`'s `add`, in this process or an earlier one. -/
def Pc.added : Pc → Bool
  | .subscribed => true
  | .looking => true
  | .getting _ => true
  | .discarding _ => true
  | .checking _ => true
  | .relooking => true
  | .popping _ => true
  | .done => true
  | .inherited => true
  | _ => false

theorem added_of_returned (h : pc.returned = true) : pc.added = true := by
  cases pc <;> first | rfl | cases h

/-- Thread `q` is past the `add`. -/
def State.Added (σ : State) (q : ℕ) : Prop := ∃ pc, σ.pc? q = some pc ∧ pc.added = true

/-- A step of a call moves its thread and no other, and a thread gets to be subscribed by its `add`
alone. -/
theorem went_of_acted (ht : σ.threads i = some t) (h : Acted σ i t σ') :
    ∃ pc, Went σ i t pc σ' ∧ (t.pc.added = true → pc.added = true) ∧
      (pc = .subscribed → ∃ s, t.pc = .adding s) := by
  cases h with
  | hit hpc => exact ⟨.loading, ⟨ht, rfl, by simp [hpc], nofun, rfl⟩, by simp [hpc, Pc.added], nofun⟩
  | miss hpc =>
    exact ⟨.acquiring, ⟨ht, rfl, by simp [hpc], nofun, rfl⟩, by simp [hpc, Pc.added], nofun⟩
  | acquire hpc =>
    exact ⟨.retesting, ⟨ht, rfl, by simp [hpc], nofun, rfl⟩, by simp [hpc, Pc.added], nofun⟩
  | found hpc =>
    exact ⟨.releasing, ⟨ht, rfl, by simp [hpc], nofun, rfl⟩, by simp [hpc, Pc.added], nofun⟩
  | begin hpc =>
    exact ⟨.resetting, ⟨ht, rfl, by simp [hpc], nofun, rfl⟩, by simp [hpc, Pc.added], nofun⟩
  | reset hpc =>
    exact ⟨.starting, ⟨ht, rfl, by simp [hpc], nofun, rfl⟩, by simp [hpc, Pc.added], nofun⟩
  | start hpc =>
    exact ⟨.stamping, ⟨ht, rfl, by simp [hpc], nofun, rfl⟩, by simp [hpc, Pc.added], nofun⟩
  | stamp hpc =>
    exact ⟨.releasing, ⟨ht, rfl, by simp [hpc], nofun, rfl⟩, by simp [hpc, Pc.added], nofun⟩
  | unwind hpc =>
    exact ⟨.failed, ⟨ht, rfl, by simp [hpc], nofun, rfl⟩, by simp [hpc, Pc.added], nofun⟩
  | release hpc =>
    exact ⟨.loading, ⟨ht, rfl, by simp [hpc], nofun, rfl⟩, by simp [hpc, Pc.added], nofun⟩
  | load hpc =>
    exact ⟨.defaulting σ.queues, ⟨ht, rfl, by simp [hpc], nofun, rfl⟩, by simp [hpc, Pc.added], nofun⟩
  | default d hpc =>
    exact ⟨.adding (σ.heap.setdefault d t.sid).2, ⟨ht, rfl, by simp [hpc], nofun, rfl⟩,
      by simp [hpc, Pc.added], nofun⟩
  | add s hpc =>
    exact ⟨.subscribed, ⟨ht, rfl, by simp [hpc], nofun, rfl⟩, fun _ => rfl, fun _ => ⟨s, hpc⟩⟩
  | look hpc =>
    exact ⟨.getting σ.queues, ⟨ht, rfl, by simp [hpc], nofun, rfl⟩, fun _ => rfl, nofun⟩
  | get d s hpc =>
    exact ⟨.discarding s, ⟨ht, rfl, by simp [hpc], nofun, rfl⟩, fun _ => rfl, nofun⟩
  | discard s hpc =>
    exact ⟨.checking s, ⟨ht, rfl, by simp [hpc], nofun, rfl⟩, fun _ => rfl, nofun⟩
  | empty s hpc =>
    exact ⟨.relooking, ⟨ht, rfl, by simp [hpc], nofun, rfl⟩, fun _ => rfl, nofun⟩
  | finish hpc =>
    have hne : t.pc ≠ .inherited := by
      rcases hpc with ⟨d, hpc, _⟩ | ⟨s, hpc, _⟩ <;> simp [hpc]
    exact ⟨.done, ⟨ht, rfl, hne, nofun, rfl⟩, fun _ => rfl, nofun⟩
  | relook hpc =>
    exact ⟨.popping σ.queues, ⟨ht, rfl, by simp [hpc], nofun, rfl⟩, fun _ => rfl, nofun⟩
  | pop d hpc =>
    exact ⟨.done, ⟨ht, rfl, by simp [hpc], nofun, rfl⟩, fun _ => rfl, nofun⟩

/-- Who is past the `add` stays so. -/
theorem added_of_step {l : Label} (h : Moved σ l σ') (hq : σ.Added q) : σ'.Added q := by
  rcases hq with ⟨pc, hpc, hadded⟩
  have hgoto : ∀ {i t pc'}, σ.threads i = some t → (t.pc.added = true → pc'.added = true) →
      (σ.goto i t pc').Added q := by
    intro i t pc' ht himp
    by_cases hqi : q = i
    · subst hqi
      obtain rfl : t.pc = pc := Option.some.inj ((pc?_of_thread ht).symm.trans hpc)
      exact ⟨pc', by simp [goto_pc?], himp hadded⟩
    · exact ⟨pc, by simp [goto_pc?, hqi, hpc], hadded⟩
  cases h with
  | call i sid hnone =>
    refine ⟨pc, ?_, hadded⟩
    rw [setThread_pc?, if_neg, hpc]
    rintro rfl
    simp [State.pc?, hnone] at hpc
  | act i t ht hact =>
    rcases went_of_acted ht hact with ⟨pc', hwent, himp, _⟩
    rcases hgoto ht himp with ⟨pc₁, hpc₁, h₁⟩
    refine ⟨pc₁, ?_, h₁⟩
    rw [hwent.pc?, ← goto_pc?, hpc₁]
  | raise i t ht hpc' => exact hgoto ht (by simp [hpc', Pc.added])
  | close i t ht hpc' => exact hgoto ht fun _ => rfl
  | read i t data queue ht hpc' _ =>
    refine ⟨pc, ?_, hadded⟩
    rw [← hpc]
    exact congrFun (setThread_same_pc? ht (show { t with queue }.pc = t.pc from rfl)) q
  | listen l listener _ hheard => cases hheard <;> exact ⟨pc, hpc, hadded⟩
  | offer l q' listener t n m todo _ ht _ _ =>
    refine ⟨pc, ?_, hadded⟩
    rw [← hpc]
    exact congrFun (setThread_same_pc? (i := q') (t := t) ht (put_pc n m)) q
  | publish => exact ⟨pc, hpc, hadded⟩
  | fork pid _ _ => exact ⟨.inherited, by simp [child_pc?, hpc], rfl⟩

/-- A member of a set is past the `add`. -/
def MembersAdded (σ : State) : Prop := ∀ s q, q ∈ σ.heap.set s → σ.Added q

theorem members_of_acted (hm : MembersAdded σ) (ht : σ.threads i = some t) (h : Acted σ i t σ')
    (hkeep : ∀ q, σ.Added q → σ'.Added q) : MembersAdded σ' := by
  intro s q hq
  cases h with
  | default d hpc =>
    refine hkeep q (hm s q ?_)
    rwa [Heap.setdefault_set] at hq
  | add s' hpc =>
    rcases Heap.mem_add.mp hq with ⟨_, rfl⟩ | hq
    · exact ⟨.subscribed, by simp [State.pc?, State.goto], rfl⟩
    · exact hkeep q (hm s q hq)
  | discard s' hpc => exact hkeep q (hm s q (Heap.mem_discard.mp hq).1)
  | _ => exact hkeep q (hm s q hq)

theorem members_of_step {l : Label} (hm : MembersAdded σ) (h : Moved σ l σ') : MembersAdded σ' := by
  have hkeep : ∀ q, σ.Added q → σ'.Added q := fun q => added_of_step h
  cases h with
  | act i t ht hact => exact members_of_acted hm ht hact hkeep
  | listen l listener _ hheard => cases hheard <;> exact fun s q hq => hkeep q (hm s q hq)
  | _ => exact fun s q hq => hkeep q (hm s q hq)

/-! ## Linked -/

/-- Every subscribed queue is in the set that `_queues` maps its session to. -/
def State.Linked (σ : State) : Prop :=
  ∀ i sid, σ.Live i sid → ∃ s, σ.heap.dict σ.queues sid = some s ∧ i ∈ σ.heap.set s

/-- The queues registered for a session: the members of the set `_queues` maps it to. -/
def State.registry (σ : State) (sid : Str) : Finset ℕ :=
  (σ.heap.dict σ.queues sid).elim ∅ σ.heap.set

theorem mem_registry {sid : Str} : i ∈ σ.registry sid ↔
    ∃ s, σ.heap.dict σ.queues sid = some s ∧ i ∈ σ.heap.set s := by
  unfold State.registry
  cases hs : σ.heap.dict σ.queues sid with
  | none => simp
  | some s => simp

/-- The next message of a session is offered to every queue subscribed to it: that is whom a listener
finds that takes the message up now. -/
theorem State.Linked.offers {pid l n : ℕ} {m : Message} {x : Listener} (h : σ.Linked)
    (hl : σ.listeners l = some x) (hpc : x.pc = .loading n m) :
    ∃ σ' todo, (machine pid).exec [.listen l, .listen l, .listen l] σ = some σ' ∧
      σ'.listeners l = some { x with pc := .offering n m todo } ∧
      ∀ i, σ.Live i (EventHub.sessionOfChannel m.channel) → i ∈ todo := by
  let todo := σ.registry (EventHub.sessionOfChannel m.channel)
  refine ⟨σ.setListener l { x with pc := .offering n m todo }, todo, ?_, ?_,
    fun i hlive => mem_registry.mpr (h i _ hlive)⟩
  · simp [Lts.exec, machine, State.step, State.listen, hl, hpc, State.setListener, todo,
      State.registry]
  · simp [State.setListener]

/-- A step by which nobody loses its registration: a queue is added to a set that `_queues` still maps
the session to, and an entry is popped while no thread is subscribed to the session. -/
def calm : Lts.Guard State Label
  | .act i, σ => ∀ t, σ.threads i = some t →
      (∀ s, t.pc = .adding s → σ.heap.dict σ.queues t.sid = some s) ∧
      ∀ d, t.pc = .popping d → ∀ j, ¬ σ.Live j t.sid
  | _, _ => True

/-- Nobody is subscribed newly, and what the subscribed are registered by stays. -/
structure Kept (σ σ' : State) : Prop where
  live : ∀ i sid, σ'.Live i sid → σ.Live i sid
  entry : ∀ sid s, σ.heap.dict σ.queues sid = some s → σ'.heap.dict σ'.queues sid = some s
  member : ∀ i sid s, σ'.Live i sid → i ∈ σ.heap.set s → i ∈ σ'.heap.set s

theorem Kept.linked (h : Kept σ σ') (hlinked : σ.Linked) : σ'.Linked := by
  intro i sid hlive
  rcases hlinked i sid (h.live i sid hlive) with ⟨s, hs, hi⟩
  exact ⟨s, h.entry sid s hs, h.member i sid s hlive hi⟩

theorem linked_of_no_live (h : ∀ i sid, ¬ σ.Live i sid) : σ.Linked :=
  fun i sid hlive => absurd hlive (h i sid)

theorem Went.live_of_ne (h : Went σ i t pc σ') (hpc : pc ≠ .subscribed) (j : ℕ) (sid : Str)
    (hlive : σ'.Live j sid) : σ.Live j sid := by
  rcases hlive with ⟨t', ht', hpc', hsid⟩
  rw [h.threads] at ht'
  by_cases hj : j = i
  · subst hj
    rw [State.goto, setThread_threads_self] at ht'
    obtain rfl := Option.some.inj ht'
    exact absurd hpc' hpc
  · rw [State.goto, setThread_threads_ne hj] at ht'
    exact ⟨t', ht', hpc', hsid⟩

/-- A thread that is not subscribed is not live. -/
theorem not_live_of_thread (ht : σ.threads i = some t) (hpc : t.pc ≠ .subscribed) (sid : Str) :
    ¬ σ.Live i sid := by
  rintro ⟨t', ht', hpc', _⟩
  obtain rfl := Option.some.inj (ht.symm.trans ht')
  exact hpc hpc'

/-- In the work no thread is subscribed. -/
theorem no_live_of_working (honce : OncePerProcess.Inv σ.view) (ht : σ.threads i = some t)
    (hpc : t.pc.phase = .working) (j : ℕ) (sid : Str) : ¬ σ.Live j sid := by
  rintro ⟨t', ht', hpc', _⟩
  refine honce.not_through (i := i) (by rw [phase_of_thread ht, hpc]) j ?_
  rw [phase_of_thread ht', hpc']
  rfl

/-- The `add` keeps it exactly when it goes to the set that is mapped. -/
theorem linked_add_iff {s : ℕ} (hm : MembersAdded σ) (hlinked : σ.Linked)
    (ht : σ.threads i = some t) (hpc : t.pc = .adding s) :
    { σ.goto i t .subscribed with heap := σ.heap.add s i }.Linked ↔
      σ.heap.dict σ.queues t.sid = some s := by
  have hwent : Went σ i t .subscribed { σ.goto i t .subscribed with heap := σ.heap.add s i } :=
    ⟨ht, rfl, by simp [hpc], nofun, rfl⟩
  constructor
  · intro hlinked'
    obtain ⟨s', hs', hi⟩ := hlinked' i t.sid
      ⟨{ t with pc := .subscribed }, by simp [State.goto], rfl, rfl⟩
    rcases Heap.mem_add.mp hi with ⟨rfl, _⟩ | hi
    · exact hs'
    · -- before its `add` it is in no set
      rcases hm s' i hi with ⟨pc, hadding, hadded⟩
      rw [pc?_of_thread ht, hpc] at hadding
      obtain rfl := Option.some.inj hadding
      cases hadded
  · intro hs j sid hlive
    rcases hlive with ⟨t', ht', hpc', hsid⟩
    by_cases hj : j = i
    · subst hj
      rw [hwent.threads, State.goto, setThread_threads_self] at ht'
      obtain rfl := Option.some.inj ht'
      subst hsid
      exact ⟨s, hs, Heap.mem_add.mpr (Or.inl ⟨rfl, rfl⟩)⟩
    · rw [hwent.threads, State.goto, setThread_threads_ne hj] at ht'
      rcases hlinked j sid ⟨t', ht', hpc', hsid⟩ with ⟨s', hs', hj'⟩
      exact ⟨s', hs', Heap.mem_add.mpr (Or.inr hj')⟩

/-- The `pop` keeps it exactly when nobody is subscribed to the session. -/
theorem linked_pop_iff (hlinked : σ.Linked) (ht : σ.threads i = some t)
    (hpc : t.pc = .popping σ.queues) :
    { σ.goto i t .done with heap := σ.heap.pop σ.queues t.sid }.Linked ↔
      ∀ j, ¬ σ.Live j t.sid := by
  have hwent : Went σ i t .done { σ.goto i t .done with heap := σ.heap.pop σ.queues t.sid } :=
    ⟨ht, rfl, by simp [hpc], nofun, rfl⟩
  constructor
  · intro hlinked' j hlive
    have hji : j ≠ i := by
      rintro rfl
      exact not_live_of_thread ht (by simp [hpc]) _ hlive
    rcases hlive with ⟨t', ht', hpc', hsid⟩
    obtain ⟨s, hs, _⟩ := hlinked' j t.sid
      ⟨t', by rw [hwent.threads, State.goto, setThread_threads_ne hji, ht'], hpc', hsid⟩
    exact (Heap.pop_dict.mp hs).2 ⟨rfl, rfl⟩
  · intro hnone j sid hlive'
    have hlive := hwent.live_of_ne nofun j sid hlive'
    rcases hlinked j sid hlive with ⟨s, hs, hj⟩
    refine ⟨s, Heap.pop_dict.mpr ⟨hs, ?_⟩, hj⟩
    rintro ⟨_, rfl⟩
    exact hnone j hlive

theorem live_setThread {t' : Thread} (ht : σ.threads i = some t) (hpc : t'.pc = t.pc)
    (hsid : t'.sid = t.sid) (j : ℕ) (sid : Str) (hlive : (σ.setThread i t').Live j sid) :
    σ.Live j sid := by
  rcases hlive with ⟨u, hu, hupc, husid⟩
  by_cases hj : j = i
  · subst hj
    rw [setThread_threads_self] at hu
    obtain rfl := Option.some.inj hu
    exact ⟨t, ht, hpc ▸ hupc, hsid ▸ husid⟩
  · rw [setThread_threads_ne hj] at hu
    exact ⟨u, hu, hupc, husid⟩

/-- The registry is not touched. -/
theorem Kept.of_eq (hlive : ∀ i sid, σ'.Live i sid → σ.Live i sid) (hqueues : σ'.queues = σ.queues)
    (hheap : σ'.heap = σ.heap) : Kept σ σ' where
  live := hlive
  entry := by
    intro sid s hs
    rwa [hheap, hqueues]
  member := by
    intro i sid s _ hi
    rwa [hheap]

/-- A subscribed queue stays in the sets it is in. -/
theorem member_stays {l : Label} (h : Moved σ l σ') {sid : Str} {s : ℕ} (hlive : σ'.Live i sid)
    (hi : i ∈ σ.heap.set s) : i ∈ σ'.heap.set s := by
  cases h with
  | act j t ht hact =>
    cases hact with
    | default d hpc =>
      show i ∈ (σ.heap.setdefault d t.sid).1.set s
      rwa [Heap.setdefault_set]
    | add s' hpc => exact Heap.mem_add.mpr (Or.inr hi)
    | discard s' hpc =>
      refine Heap.mem_discard.mpr ⟨hi, ?_⟩
      rintro ⟨_, rfl⟩
      have hchecking : (σ.goto i t (.checking s')).threads i = some { t with pc := .checking s' } :=
        setThread_threads_self
      exact not_live_of_thread hchecking nofun sid hlive
    | _ => exact hi
  | listen l listener _ hheard => cases hheard <;> exact hi
  | _ => exact hi

theorem linked_acted_iff (hsafe : Safe σ) (hm : MembersAdded σ) (hlinked : σ.Linked)
    (ht : σ.threads i = some t) (h : Acted σ i t σ') : σ'.Linked ↔ calm (.act i) σ := by
  rcases went_of_acted ht h with ⟨pc, hwent, _, hadding⟩
  have hmember : ∀ j sid s, σ'.Live j sid → j ∈ σ.heap.set s → j ∈ σ'.heap.set s :=
    fun j sid s => member_stays (.act i t ht h)
  -- a step that is neither an `add` nor a `pop` is calm
  have hcalm : (∀ s, t.pc ≠ .adding s) → (∀ d, t.pc ≠ .popping d) → calm (.act i) σ := by
    intro hadd hpop t' ht'
    obtain rfl := Option.some.inj (ht.symm.trans ht')
    exact ⟨fun s hs => absurd hs (hadd s), fun d hd => absurd hd (hpop d)⟩
  have hlive : (∀ s, t.pc ≠ .adding s) → ∀ j sid, σ'.Live j sid → σ.Live j sid := by
    intro hadd
    refine hwent.live_of_ne ?_
    intro hpc
    rcases hadding hpc with ⟨s, hs⟩
    exact hadd s hs
  have hplain : (∀ s, t.pc ≠ .adding s) → (∀ d, t.pc ≠ .popping d) → σ'.queues = σ.queues →
      σ'.heap = σ.heap → (σ'.Linked ↔ calm (.act i) σ) := by
    intro hadd hpop hqueues hheap
    exact iff_of_true ((Kept.of_eq (hlive hadd) hqueues hheap).linked hlinked) (hcalm hadd hpop)
  cases h with
  | hit hpc => exact hplain (by simp [hpc]) (by simp [hpc]) rfl rfl
  | miss hpc => exact hplain (by simp [hpc]) (by simp [hpc]) rfl rfl
  | acquire hpc => exact hplain (by simp [hpc]) (by simp [hpc]) rfl rfl
  | found hpc => exact hplain (by simp [hpc]) (by simp [hpc]) rfl rfl
  | begin hpc => exact hplain (by simp [hpc]) (by simp [hpc]) rfl rfl
  | reset hpc =>
    refine iff_of_true ?_ (hcalm (by simp [hpc]) (by simp [hpc]))
    refine linked_of_no_live ?_
    intro j sid hj
    exact no_live_of_working hsafe.once ht (by rw [hpc]; rfl) j sid
      (hlive (by simp [hpc]) j sid hj)
  | start hpc => exact hplain (by simp [hpc]) (by simp [hpc]) rfl rfl
  | stamp hpc => exact hplain (by simp [hpc]) (by simp [hpc]) rfl rfl
  | unwind hpc => exact hplain (by simp [hpc]) (by simp [hpc]) rfl rfl
  | release hpc => exact hplain (by simp [hpc]) (by simp [hpc]) rfl rfl
  | load hpc => exact hplain (by simp [hpc]) (by simp [hpc]) rfl rfl
  | default d hpc =>
    refine iff_of_true (Kept.linked ⟨hlive (by simp [hpc]), ?_, hmember⟩ hlinked)
      (hcalm (by simp [hpc]) (by simp [hpc]))
    exact fun sid s hs => Heap.setdefault_dict_of_some hs
  | add s hpc =>
    rw [linked_add_iff hm hlinked ht hpc]
    constructor
    · intro hs t' ht'
      obtain rfl := Option.some.inj (ht.symm.trans ht')
      refine ⟨fun s' hs' => ?_, fun d hd => ?_⟩
      · obtain rfl : s' = s := by simpa [hpc] using hs'.symm
        exact hs
      · simp [hpc] at hd
    · exact fun hcalm => (hcalm t ht).1 s hpc
  | look hpc => exact hplain (by simp [hpc]) (by simp [hpc]) rfl rfl
  | get d s hpc => exact hplain (by simp [hpc]) (by simp [hpc]) rfl rfl
  | discard s hpc =>
    exact iff_of_true (Kept.linked ⟨hlive (by simp [hpc]), fun _ _ hs => hs, hmember⟩ hlinked)
      (hcalm (by simp [hpc]) (by simp [hpc]))
  | empty s hpc => exact hplain (by simp [hpc]) (by simp [hpc]) rfl rfl
  | finish hpc =>
    have hne : (∀ s, t.pc ≠ .adding s) ∧ ∀ d, t.pc ≠ .popping d := by
      rcases hpc with ⟨d, hpc, _⟩ | ⟨s, hpc, _⟩ <;> simp [hpc]
    exact hplain hne.1 hne.2 rfl rfl
  | relook hpc => exact hplain (by simp [hpc]) (by simp [hpc]) rfl rfl
  | pop d hpc =>
    obtain rfl : d = σ.queues := hsafe.refs.dicts i t ht d (by rw [hpc]; rfl)
    rw [linked_pop_iff hlinked ht hpc]
    constructor
    · intro hnone t' ht'
      obtain rfl := Option.some.inj (ht.symm.trans ht')
      exact ⟨fun s hs => by simp [hpc] at hs, fun _ _ => hnone⟩
    · exact fun hcalm => (hcalm t ht).2 _ hpc

/-- A step keeps every registration exactly when it is calm. -/
theorem linked_step_iff {l : Label} (hsafe : Safe σ) (hm : MembersAdded σ) (hlinked : σ.Linked)
    (h : Moved σ l σ') : σ'.Linked ↔ calm l σ := by
  have hplain : ∀ {τ : State}, (∀ i sid, τ.Live i sid → σ.Live i sid) → τ.queues = σ.queues →
      τ.heap = σ.heap → (τ.Linked ↔ True) := fun hlive hqueues hheap =>
    iff_true_intro ((Kept.of_eq hlive hqueues hheap).linked hlinked)
  cases h with
  | call i sid hnone =>
    refine hplain (fun j sid' hj => ?_) rfl rfl
    rcases hj with ⟨u, hu, hupc, husid⟩
    by_cases hji : j = i
    · subst hji
      rw [setThread_threads_self] at hu
      obtain rfl := Option.some.inj hu
      cases hupc
    · rw [setThread_threads_ne hji] at hu
      exact ⟨u, hu, hupc, husid⟩
  | act i t ht hact => exact linked_acted_iff hsafe hm hlinked ht hact
  | raise i t ht hpc =>
    exact hplain (Went.live_of_ne (show Went σ i t .unwinding _ from
      ⟨ht, rfl, by simp [hpc], nofun, rfl⟩) nofun) rfl rfl
  | close i t ht hpc =>
    exact hplain (Went.live_of_ne (show Went σ i t .looking _ from
      ⟨ht, rfl, by simp [hpc], nofun, rfl⟩) nofun) rfl rfl
  | read i t data queue ht hpc _ => exact hplain (live_setThread ht rfl rfl) rfl rfl
  | listen l listener _ hheard => cases hheard <;> exact hplain (fun _ _ => id) rfl rfl
  | offer l q listener t n m todo _ ht _ _ =>
    refine hplain (fun j sid hj => ?_) rfl rfl
    have hput : ((σ.setListener l { listener with pc := .offering n m (todo.erase q) }).setThread q
        (State.put t n m)).Live j sid := hj
    exact live_setThread (σ := σ.setListener l { listener with pc := .offering n m (todo.erase q) })
      ht (by rfl) (by rfl) j sid hput
  | publish => exact hplain (fun _ _ => id) rfl rfl
  | fork pid _ _ =>
    refine iff_true_intro (linked_of_no_live ?_)
    rintro j sid ⟨u, hu, hupc, _⟩
    rcases Option.map_eq_some_iff.mp hu with ⟨_, _, rfl⟩
    cases hupc

/-- What holds of every process, with the members of the sets. -/
def Tracked (σ : State) : Prop := Safe σ ∧ MembersAdded σ

theorem Tracked.init (pid : ℕ) : Tracked (State.init pid) :=
  ⟨Safe.init pid, fun _ q hq => absurd hq (Finset.notMem_empty q)⟩

theorem Tracked.step {l : Label} (h : Tracked σ) (hs : State.step l σ = some σ') : Tracked σ' :=
  ⟨h.1.step hs, members_of_step h.2 (moved_of_step hs)⟩

theorem linked_init (pid : ℕ) : (State.init pid).Linked := by
  rintro i sid ⟨t, ht, _⟩
  cases ht

/-- In every state of a run, every queue whose `subscribe` has returned and whose `unsubscribe` has not
begun is in the set that `_queues` maps its session to, exactly if every step of the run is calm. -/
theorem linked_iff_calm {pid : ℕ} {ls : List Label} {σ : State}
    (h : (machine pid).Run Lts.anyStep (State.init pid) ls σ) :
    (machine pid).Always State.Linked (State.init pid) ls ↔
      (machine pid).Run calm (State.init pid) ls σ :=
  h.always_iff (I := Tracked) (fun _ _ _ _ hs hi => hi.step hs)
    (fun _ _ _ _ hs hi hlinked => linked_step_iff hi.1 hi.2 hlinked (moved_of_step hs))
    (Tracked.init pid) (linked_init pid)

namespace Sample

/-- The first stream of a process subscribes to the session, and the listener connects. -/
def listening : List Label := .call 0 (lit "s") :: List.replicate 10 (.act 0) ++ [.listen 0]

/-- The browser reconnects: the new stream has found the set of the old one when `unsubscribe` finds
it empty, adds its queue, and then the entry is popped. -/
def overlapping : List Label :=
  [.close 0, .act 0, .act 0, .act 0, .call 1 (lit "s"), .act 1, .act 1, .act 1, .act 0, .act 1,
    .act 0, .act 0]

/-- The same streams one after the other. -/
def reconnecting : List Label :=
  .close 0 :: List.replicate 6 (.act 0) ++ .call 1 (lit "s") :: List.replicate 4 (.act 1)

end Sample

/-- With the listener running, a reconnect loses the new stream's queue. -/
theorem subscription_lost :
    ¬ ∀ (ls ls' : List Label) (τ σ : State),
      (machine 7).Run Lts.anyStep (State.init 7) ls τ → τ.hears = true →
      (machine 7).Run Lts.anyStep τ ls' σ → σ.Linked := by
  intro h
  have hrun : (machine 7).Run Lts.anyStep (State.init 7) (Sample.listening ++ Sample.overlapping)
      ((machine 7).after (Sample.listening ++ Sample.overlapping)) :=
    (machine 7).run_after _ (by decide +kernel)
  rcases hrun.split with ⟨τ, h₁, h₂⟩
  have hτ : τ = (machine 7).after Sample.listening :=
    h₁.deterministic ((machine 7).run_after Sample.listening (by decide +kernel))
  have hhears : τ.hears = true := by
    rw [hτ]
    decide +kernel
  have hlive : ((machine 7).after (Sample.listening ++ Sample.overlapping)).Live 1 (lit "s") := by
    have ht : ((machine 7).after (Sample.listening ++ Sample.overlapping)).threads 1 =
        some ⟨lit "s", .subscribed, [], []⟩ := by rfl
    exact ⟨_, ht, rfl, rfl⟩
  rcases h _ _ τ _ h₁ hhears h₂ 1 (lit "s") hlive with ⟨s, hs, _⟩
  have hnone : ((machine 7).after (Sample.listening ++ Sample.overlapping)).heap.dict
      ((machine 7).after (Sample.listening ++ Sample.overlapping)).queues (lit "s") = none := by
    decide +kernel
  rw [hnone] at hs
  cases hs

/-- It applies to both ways. -/
theorem linked_iff_calm_sample :
    (machine 7).Always State.Linked (State.init 7) (Sample.listening ++ Sample.reconnecting) ↔
      (machine 7).Run calm (State.init 7) (Sample.listening ++ Sample.reconnecting)
        ((machine 7).after (Sample.listening ++ Sample.reconnecting)) :=
  linked_iff_calm ((machine 7).run_after _ (by decide +kernel))

end HubThreads

end Doppelganger
