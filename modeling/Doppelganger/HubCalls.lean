import Doppelganger.HubLinks

/-!
# The hub's calls as single steps

The rest of the development takes `subscribe` and `unsubscribe` as atomic. Step by step
they are, at the `add` and at the `discard`, as long as two calls for one session stay
`apart`: no `subscribe` looks up a set while an `unsubscribe` is between its `discard` and
its `pop`, and no `unsubscribe` discards while a `subscribe` is about to add. Calls for
different sessions may interleave in any way.

Under gevent a call is not interrupted between these points, which is enough
(`apart_of_uninterrupted`).
-/

open Text Redis

namespace Doppelganger

namespace HubThreads

variable {σ σ' : State} {i j : ℕ} {t u : Thread} {pc : Pc} {l : Label} {sid : Str} {s : ℕ}

/-! ## The atomic hub -/

/-- A call, or the reset in `_ensure_listener`. -/
inductive Call where
  | subscribe (sid : Str) (q : ℕ)
  | unsubscribe (sid : Str) (q : ℕ)
  | reset
deriving DecidableEq

/-- The hub, a call at a time. -/
def calls : Lts Hub Call where
  init := EventHub.empty
  step
    | .subscribe sid q, hub => some (EventHub.subscribe hub sid q)
    | .unsubscribe sid q, hub => some (EventHub.unsubscribe hub sid q)
    | .reset, _ => some EventHub.empty

/-- The step at which a call happens. -/
def happens : Label → State → Option Call
  | .act i, σ => (σ.threads i).bind fun t =>
    match t.pc with
    | .resetting => some .reset
    | .adding _ => some (.subscribe t.sid i)
    | .discarding _ => some (.unsubscribe t.sid i)
    | _ => none
  | _, _ => none

/-! ## Calls that stay apart -/

/-- `unsubscribe` between its `discard` and its return. -/
def Pc.closing : Pc → Bool
  | .checking _ => true
  | .relooking => true
  | .popping _ => true
  | _ => false

/-- Two calls for one session stay apart. -/
def apart : Lts.Guard State Label
  | .act i, σ => ∀ t, σ.threads i = some t →
      (∀ d, t.pc = .defaulting d → ∀ j u, σ.threads j = some u → u.sid = t.sid →
        u.pc.closing = false) ∧
      ∀ s, t.pc = .discarding s → ∀ j u, σ.threads j = some u → u.sid = t.sid →
        ∀ s', u.pc ≠ .adding s'
  | _, _ => True

/-- What thread `i` of session `sid` relies on at `pc`. -/
def State.Fits (σ : State) (i : ℕ) (sid : Str) : Pc → Prop
  | .adding s => σ.heap.dict σ.queues sid = some s
  | .subscribed => i ∈ σ.registry sid
  | .looking => i ∈ σ.registry sid
  | .getting _ => i ∈ σ.registry sid
  | .discarding s => σ.heap.dict σ.queues sid = some s ∧ i ∈ σ.heap.set s
  | .checking s => ∀ s', σ.heap.dict σ.queues sid = some s' → s' = s
  | .relooking => σ.registry sid = ∅
  | .popping _ => σ.registry sid = ∅
  | _ => True

/-- The invariant of calls that stay apart. -/
structure Orderly (σ : State) : Prop where
  /-- Each session has a set of its own. -/
  own : ∀ sid sid' s, σ.heap.dict σ.queues sid = some s → σ.heap.dict σ.queues sid' = some s →
    sid = sid'
  fits : ∀ i t, σ.threads i = some t → σ.Fits i t.sid t.pc
  apart : ∀ i j t u s, σ.threads i = some t → σ.threads j = some u → t.sid = u.sid →
    t.pc = .adding s → u.pc.closing = false

theorem registry_of_dict (h : σ.heap.dict σ.queues sid = some s) :
    σ.registry sid = σ.heap.set s := by
  simp [State.registry, h]

theorem registry_congr (hqueues : σ'.queues = σ.queues) (hheap : σ'.heap = σ.heap) :
    σ'.registry sid = σ.registry sid := by
  rw [State.registry, State.registry, hqueues, hheap]

theorem fits_congr (hqueues : σ'.queues = σ.queues) (hheap : σ'.heap = σ.heap)
    (h : σ.Fits i sid pc) : σ'.Fits i sid pc := by
  cases pc <;> simp_all [State.Fits, registry_congr hqueues hheap]

namespace Orderly

theorem linked (ho : Orderly σ) : σ.Linked := by
  rintro i sid ⟨t, ht, hpc, rfl⟩
  have hfit := ho.fits i t ht
  rw [hpc] at hfit
  exact mem_registry.mp hfit

theorem init (pid : ℕ) : Orderly (State.init pid) where
  own := by simp [State.init]
  fits := by simp [State.init]
  apart := by simp [State.init]

/-- Thread `i` goes on to `pc`; the heap may change. -/
theorem went (ho : Orderly σ) (hwent : Went σ i t pc σ')
    (hown : ∀ sid sid' s, σ'.heap.dict σ'.queues sid = some s →
      σ'.heap.dict σ'.queues sid' = some s → sid = sid')
    (hfit : σ'.Fits i t.sid pc)
    (hothers : ∀ j u, j ≠ i → σ.threads j = some u → σ'.Fits j u.sid u.pc)
    (hadding : ∀ s, pc = .adding s → ∀ j u, σ.threads j = some u → u.sid = t.sid →
      u.pc.closing = false)
    (hclosing : pc.closing = true → t.pc.closing = true ∨ ∀ j u, σ.threads j = some u →
      u.sid = t.sid → ∀ s, u.pc ≠ .adding s) : Orderly σ' := by
  have hthread : ∀ {j u}, σ'.threads j = some u →
      (j = i ∧ u = { t with pc }) ∨ (j ≠ i ∧ σ.threads j = some u) := by
    intro j u hu
    rw [hwent.threads] at hu
    by_cases hj : j = i
    · subst hj
      rw [State.goto, setThread_threads_self] at hu
      exact Or.inl ⟨rfl, (Option.some.inj hu).symm⟩
    · rw [State.goto, setThread_threads_ne hj] at hu
      exact Or.inr ⟨hj, hu⟩
  refine ⟨hown, ?_, ?_⟩
  · intro j u hu
    rcases hthread hu with ⟨rfl, rfl⟩ | ⟨hj, hu⟩
    · exact hfit
    · exact hothers j u hj hu
  · intro j k u v s hu hv hsid hpc
    rcases hthread hu with ⟨rfl, rfl⟩ | ⟨hj, hu⟩
    · rcases hthread hv with ⟨rfl, rfl⟩ | ⟨hk, hv⟩
      · rw [show pc = .adding s from hpc]
        rfl
      · exact hadding s hpc k v hv hsid.symm
    · rcases hthread hv with ⟨rfl, rfl⟩ | ⟨hk, hv⟩
      · -- thread `k` closes, thread `j` adds
        by_contra hno
        have hclose : pc.closing = true := by simpa using hno
        rcases hclosing hclose with hbefore | hnone
        · rw [ho.apart j k u t s hu hwent.was hsid hpc] at hbefore
          cases hbefore
        · exact hnone j u hu hsid s hpc
      · exact ho.apart j k u v s hu hv hsid hpc

/-- The registry is not touched. -/
theorem went_same (ho : Orderly σ) (hwent : Went σ i t pc σ') (hqueues : σ'.queues = σ.queues)
    (hheap : σ'.heap = σ.heap) (hfit : σ.Fits i t.sid pc) (hadding : ∀ s, pc ≠ .adding s)
    (hclosing : pc.closing = true → t.pc.closing = true) : Orderly σ' := by
  refine ho.went hwent ?_ (fits_congr hqueues hheap hfit) ?_ ?_ ?_
  · rw [hqueues, hheap]
    exact ho.own
  · intro j u _ hu
    exact fits_congr hqueues hheap (ho.fits j u hu)
  · intro s hs
    exact absurd hs (hadding s)
  · intro hclose
    exact Or.inl (hclosing hclose)

end Orderly

/-! ## One step of a call -/

/-- `setdefault` registers nobody. -/
theorem registry_default {d : ℕ} (hok : σ.heap.Ok) (hd : d = σ.queues) (pc : Pc) (t : Thread)
    (sid sid' : Str) :
    { σ.goto i t pc with heap := (σ.heap.setdefault d sid).1 }.registry sid' = σ.registry sid' := by
  subst hd
  ext q
  simp only [mem_registry]
  constructor
  · rintro ⟨s, hs, hq⟩
    have hset : (σ.heap.setdefault σ.queues sid).1.set = σ.heap.set := Heap.setdefault_set
    rcases Heap.setdefault_dict hs with hs | ⟨_, _, _, rfl⟩
    · exact ⟨s, hs, hset ▸ hq⟩
    · exact absurd (hset ▸ hq) (hok.notMem_nextSet q)
  · rintro ⟨s, hs, hq⟩
    refine ⟨s, Heap.setdefault_dict_of_some hs, ?_⟩
    show q ∈ (σ.heap.setdefault σ.queues sid).1.set s
    rwa [Heap.setdefault_set]

/-- `add` registers the queue. -/
theorem registry_add (ho : Orderly σ) (hs : σ.heap.dict σ.queues sid = some s) (pc : Pc)
    (t : Thread) (sid' : Str) (q : ℕ) :
    q ∈ { σ.goto i t pc with heap := σ.heap.add s i }.registry sid' ↔
      (sid' = sid ∧ q = i) ∨ q ∈ σ.registry sid' := by
  simp only [mem_registry]
  constructor
  · rintro ⟨s', hs', hq⟩
    rcases Heap.mem_add.mp hq with ⟨rfl, rfl⟩ | hq
    · exact Or.inl ⟨ho.own sid' sid s' hs' hs, rfl⟩
    · exact Or.inr ⟨s', hs', hq⟩
  · rintro (⟨rfl, rfl⟩ | ⟨s', hs', hq⟩)
    · exact ⟨s, hs, Heap.mem_add.mpr (Or.inl ⟨rfl, rfl⟩)⟩
    · exact ⟨s', hs', Heap.mem_add.mpr (Or.inr hq)⟩

/-- `discard` removes it. -/
theorem registry_discard (ho : Orderly σ) (hs : σ.heap.dict σ.queues sid = some s) (pc : Pc)
    (t : Thread) (sid' : Str) (q : ℕ) :
    q ∈ { σ.goto i t pc with heap := σ.heap.discard s i }.registry sid' ↔
      q ∈ σ.registry sid' ∧ ¬ (sid' = sid ∧ q = i) := by
  simp only [mem_registry]
  constructor
  · rintro ⟨s', hs', hq⟩
    rcases Heap.mem_discard.mp hq with ⟨hq, hne⟩
    refine ⟨⟨s', hs', hq⟩, ?_⟩
    rintro ⟨rfl, rfl⟩
    exact hne ⟨Option.some.inj (hs'.symm.trans hs), rfl⟩
  · rintro ⟨⟨s', hs', hq⟩, hne⟩
    refine ⟨s', hs', Heap.mem_discard.mpr ⟨hq, ?_⟩⟩
    rintro ⟨rfl, rfl⟩
    exact hne ⟨ho.own sid' sid s' hs' hs, rfl⟩

/-- `pop` of an entry that is empty removes nobody. -/
theorem registry_pop (hempty : σ.registry sid = ∅) (pc : Pc) (t : Thread) (sid' : Str) :
    { σ.goto i t pc with heap := σ.heap.pop σ.queues sid }.registry sid' = σ.registry sid' := by
  ext q
  simp only [mem_registry]
  constructor
  · rintro ⟨s, hs, hq⟩
    exact ⟨s, (Heap.pop_dict.mp hs).1, hq⟩
  · rintro ⟨s, hs, hq⟩
    refine ⟨s, Heap.pop_dict.mpr ⟨hs, ?_⟩, hq⟩
    rintro ⟨_, rfl⟩
    rw [registry_of_dict hs] at hempty
    rw [hempty] at hq
    exact absurd hq (Finset.notMem_empty q)

/-- A point outside the two calls relies on nothing. -/
theorem fits_of_phase (h : pc.phase ≠ .through) : σ.Fits i sid pc := by
  cases pc <;> trivial

/-- Going on from one point to another while the heap stays as it is. -/
theorem went_goto (ht : σ.threads i = some t) (hpc : t.pc ≠ .inherited) (hpc' : pc ≠ .inherited) :
    Went σ i t pc (σ.goto i t pc) :=
  ⟨ht, rfl, hpc, hpc', rfl⟩

section Steps

variable (ho : Orderly σ) (ht : σ.threads i = some t)

include ho ht

/-- `setdefault`: no other call for the session is closing. -/
theorem orderly_default (hsafe : Safe σ) {d : ℕ} (hpc : t.pc = .defaulting d)
    (hok : ∀ j u, σ.threads j = some u → u.sid = t.sid → u.pc.closing = false) :
    Orderly { σ.goto i t (.adding (σ.heap.setdefault d t.sid).2) with
      heap := (σ.heap.setdefault d t.sid).1 } := by
  obtain rfl : d = σ.queues := hsafe.refs.dicts i t ht d (by rw [hpc]; rfl)
  have hheap := hsafe.refs.heap
  have hset : (σ.heap.setdefault σ.queues t.sid).1.set = σ.heap.set := Heap.setdefault_set
  refine ho.went ⟨ht, rfl, by simp [hpc], by simp, rfl⟩ ?_ Heap.setdefault_dict_self ?_ ?_ ?_
  · intro sid sid' s hs hs'
    rcases Heap.setdefault_dict hs with hs | ⟨_, rfl, _, rfl⟩
    · rcases Heap.setdefault_dict hs' with hs' | ⟨_, rfl, _, rfl⟩
      · exact ho.own sid sid' s hs hs'
      · exact absurd (hheap.dict _ _ _ hs).2 (Nat.lt_irrefl _)
    · rcases Heap.setdefault_dict hs' with hs' | ⟨_, rfl, _, _⟩
      · exact absurd (hheap.dict _ _ _ hs').2 (Nat.lt_irrefl _)
      · rfl
  · intro j u _ hu
    have hfit := ho.fits j u hu
    have hreg := registry_default (i := i) hheap rfl
        (.adding (σ.heap.setdefault σ.queues t.sid).2) t t.sid u.sid
    cases hupc : u.pc with
    | adding s =>
      rw [hupc] at hfit
      exact Heap.setdefault_dict_of_some hfit
    | subscribed | looking | getting _ | relooking | popping _ =>
      rw [hupc] at hfit
      simp only [State.Fits] at hfit ⊢
      rwa [hreg]
    | discarding s =>
      rw [hupc] at hfit
      exact ⟨Heap.setdefault_dict_of_some hfit.1, hset ▸ hfit.2⟩
    | checking s =>
      rw [hupc] at hfit
      intro s' hs'
      rcases Heap.setdefault_dict hs' with hs' | ⟨_, hsid, _, _⟩
      · exact hfit s' hs'
      · have hclosing := hok j u hu hsid
        rw [hupc] at hclosing
        cases hclosing
    | _ => trivial
  · intro _ _ j u hu hsid
    exact hok j u hu hsid
  · intro hclose
    cases hclose

/-- `add`: no other call for the session is closing. -/
theorem orderly_add (hpc : t.pc = .adding s) :
    Orderly { σ.goto i t .subscribed with heap := σ.heap.add s i } := by
  have hs : σ.heap.dict σ.queues t.sid = some s := by
    have hfit := ho.fits i t ht
    rwa [hpc] at hfit
  have hreg := fun sid' q => registry_add (i := i) ho hs .subscribed t sid' q
  refine ho.went ⟨ht, rfl, by simp [hpc], by simp, rfl⟩ ho.own
    ((hreg t.sid i).mpr (Or.inl ⟨rfl, rfl⟩)) ?_ (by simp) (by simp [Pc.closing])
  intro j u _ hu
  have hfit := ho.fits j u hu
  -- a closing call is one for another session
  have hempty : u.pc.closing = true → σ.registry u.sid = ∅ →
      { σ.goto i t .subscribed with heap := σ.heap.add s i }.registry u.sid = ∅ := by
    intro hclosing hempty
    refine Finset.eq_empty_of_forall_notMem ?_
    intro q hq
    rcases (hreg u.sid q).mp hq with ⟨hsid, _⟩ | hq
    · rw [ho.apart i j t u s ht hu hsid.symm hpc] at hclosing
      cases hclosing
    · rw [hempty] at hq
      exact absurd hq (Finset.notMem_empty q)
  cases hupc : u.pc with
  | subscribed | looking | getting _ =>
    rw [hupc] at hfit
    exact (hreg u.sid j).mpr (Or.inr hfit)
  | discarding s' =>
    rw [hupc] at hfit
    exact ⟨hfit.1, Heap.mem_add.mpr (Or.inr hfit.2)⟩
  | relooking | popping _ =>
    rw [hupc] at hfit hempty
    exact hempty rfl hfit
  | adding _ | checking _ =>
    rw [hupc] at hfit
    exact hfit
  | _ => trivial

/-- `discard`: no other call for the session is about to add. -/
theorem orderly_discard (hpc : t.pc = .discarding s)
    (hok : ∀ j u, σ.threads j = some u → u.sid = t.sid → ∀ s', u.pc ≠ .adding s') :
    Orderly { σ.goto i t (.checking s) with heap := σ.heap.discard s i } := by
  have hfit := ho.fits i t ht
  rw [hpc] at hfit
  have hreg := fun sid' q => registry_discard (i := i) ho hfit.1 (.checking s) t sid' q
  refine ho.went ⟨ht, rfl, by simp [hpc], by simp, rfl⟩ ho.own ?_ ?_ (by simp) ?_
  · intro s' hs'
    exact Option.some.inj (hs'.symm.trans hfit.1)
  · intro j u hj hu
    have hfit' := ho.fits j u hu
    have hempty : σ.registry u.sid = ∅ →
        { σ.goto i t (.checking s) with heap := σ.heap.discard s i }.registry u.sid = ∅ := by
      intro hempty
      refine Finset.eq_empty_of_forall_notMem ?_
      intro q hq
      have hold := ((hreg u.sid q).mp hq).1
      rw [hempty] at hold
      exact Finset.notMem_empty q hold
    have hother : ¬ (u.sid = t.sid ∧ j = i) := fun h => hj h.2
    cases hupc : u.pc with
    | subscribed | looking | getting _ =>
      rw [hupc] at hfit'
      exact (hreg u.sid j).mpr ⟨hfit', hother⟩
    | discarding s' =>
      rw [hupc] at hfit'
      exact ⟨hfit'.1, Heap.mem_discard.mpr ⟨hfit'.2, fun h => hj h.2⟩⟩
    | relooking | popping _ =>
      rw [hupc] at hfit'
      exact hempty hfit'
    | adding _ | checking _ =>
      rw [hupc] at hfit'
      exact hfit'
    | _ => trivial
  · exact fun _ => Or.inr hok

/-- `pop`: the entry is that of an empty set, and nobody is about to add to it. -/
theorem orderly_pop (hsafe : Safe σ) {d : ℕ} (hpc : t.pc = .popping d) :
    Orderly { σ.goto i t .done with heap := σ.heap.pop d t.sid } := by
  obtain rfl : d = σ.queues := hsafe.refs.dicts i t ht d (by rw [hpc]; rfl)
  have hempty : σ.registry t.sid = ∅ := by
    have hfit := ho.fits i t ht
    rwa [hpc] at hfit
  refine ho.went ⟨ht, rfl, by simp [hpc], by simp, rfl⟩ ?_ trivial ?_ (by simp)
    (by simp [Pc.closing])
  · intro sid sid' s hs hs'
    exact ho.own sid sid' s (Heap.pop_dict.mp hs).1 (Heap.pop_dict.mp hs').1
  · intro j u _ hu
    have hfit := ho.fits j u hu
    have hreg := registry_pop (i := i) hempty .done t u.sid
    cases hupc : u.pc with
    | adding s' =>
      rw [hupc] at hfit
      refine Heap.pop_dict.mpr ⟨hfit, ?_⟩
      rintro ⟨_, hsid⟩
      have hclosing := ho.apart j i u t s' hu ht hsid hupc
      rw [hpc] at hclosing
      cases hclosing
    | subscribed | looking | getting _ | relooking | popping _ =>
      rw [hupc] at hfit
      simp only [State.Fits] at hfit ⊢
      rwa [hreg]
    | discarding s' =>
      rw [hupc] at hfit
      refine ⟨Heap.pop_dict.mpr ⟨hfit.1, ?_⟩, hfit.2⟩
      rintro ⟨_, hsid⟩
      rw [← hsid, registry_of_dict hfit.1] at hempty
      have hmem := hfit.2
      rw [hempty] at hmem
      exact Finset.notMem_empty j hmem
    | checking s' =>
      rw [hupc] at hfit
      intro s'' hs''
      exact hfit s'' (Heap.pop_dict.mp hs'').1
    | _ => trivial

/-- The reset: no call is past `_ensure_listener`. -/
theorem orderly_reset (hsafe : Safe σ) (hpc : t.pc = .resetting) :
    Orderly { σ.goto i t .starting with
      queues := σ.heap.nextDict
      heap := { σ.heap with nextDict := σ.heap.nextDict + 1 } } := by
  have hnone := hsafe.refs.heap.dict_nextDict
  refine ho.went ⟨ht, rfl, by simp [hpc], by simp, rfl⟩ ?_ trivial ?_ (by simp)
    (by simp [Pc.closing])
  · intro sid sid' s hs
    rw [hnone sid] at hs
    cases hs
  · intro j u _ hu
    refine fits_of_phase ?_
    intro hthrough
    refine hsafe.once.not_through (i := i) (by rw [phase_of_thread ht, hpc]; rfl) j ?_
    rw [phase_of_thread hu, hthrough]

end Steps

theorem orderly_of_acted (ho : Orderly σ) (hsafe : Safe σ) (hok : apart (.act i) σ)
    (ht : σ.threads i = some t) (h : Acted σ i t σ') : Orderly σ' := by
  have hfit := ho.fits i t ht
  have hgo : ∀ pc, t.pc ≠ .inherited → pc ≠ .inherited → σ.Fits i t.sid pc →
      (∀ s, pc ≠ .adding s) → (pc.closing = true → t.pc.closing = true) →
      ∀ {σ'}, σ'.threads = (σ.goto i t pc).threads → σ'.pid = σ.pid → σ'.queues = σ.queues →
        σ'.heap = σ.heap → Orderly σ' := by
    intro pc hpc hpc' hfit' hadding hclosing σ' hthreads hpid hqueues hheap
    exact ho.went_same ⟨ht, hthreads, hpc, hpc', hpid⟩ hqueues hheap hfit' hadding hclosing
  cases h with
  | default d hpc => exact orderly_default ho ht hsafe hpc ((hok t ht).1 d hpc)
  | add s hpc => exact orderly_add ho ht hpc
  | discard s hpc => exact orderly_discard ho ht hpc ((hok t ht).2 s hpc)
  | pop d hpc => exact orderly_pop ho ht hsafe hpc
  | reset hpc => exact orderly_reset ho ht hsafe hpc
  | get d s hpc hs =>
    obtain rfl : d = σ.queues := hsafe.refs.dicts i t ht d (by rw [hpc]; rfl)
    rw [hpc] at hfit
    have hmem : i ∈ σ.registry t.sid := hfit
    rw [registry_of_dict hs] at hmem
    exact hgo (.discarding s) (by simp [hpc]) (by simp) ⟨hs, hmem⟩ (by simp) (by simp [Pc.closing])
      rfl rfl rfl rfl
  | look hpc =>
    rw [hpc] at hfit
    exact hgo (.getting σ.queues) (by simp [hpc]) (by simp) hfit (by simp)
      (by simp [Pc.closing]) rfl rfl rfl rfl
  | empty s hpc hset =>
    rw [hpc] at hfit
    refine hgo .relooking (by simp [hpc]) (by simp) ?_ (by simp) (by simp [hpc, Pc.closing])
      rfl rfl rfl rfl
    -- the entry that is there maps to the set that was found empty
    refine Finset.eq_empty_of_forall_notMem ?_
    intro q hq
    rcases mem_registry.mp hq with ⟨s', hs', hq⟩
    obtain rfl := hfit s' hs'
    rw [hset] at hq
    exact Finset.notMem_empty q hq
  | relook hpc =>
    rw [hpc] at hfit
    exact hgo (.popping σ.queues) (by simp [hpc]) (by simp) hfit (by simp)
      (by simp [hpc, Pc.closing]) rfl rfl rfl rfl
  | finish hpc =>
    have hne : t.pc ≠ .inherited := by
      rcases hpc with ⟨d, hpc, _⟩ | ⟨s, hpc, _⟩ <;> simp [hpc]
    exact hgo .done hne (by simp) trivial (by simp) (by simp [Pc.closing]) rfl rfl rfl rfl
  | hit hpc =>
    exact hgo .loading (by simp [hpc]) (by simp) trivial (by simp) (by simp [Pc.closing])
      rfl rfl rfl rfl
  | miss hpc =>
    exact hgo .acquiring (by simp [hpc]) (by simp) trivial (by simp) (by simp [Pc.closing])
      rfl rfl rfl rfl
  | acquire hpc =>
    exact hgo .retesting (by simp [hpc]) (by simp) trivial (by simp) (by simp [Pc.closing])
      rfl rfl rfl rfl
  | found hpc =>
    exact hgo .releasing (by simp [hpc]) (by simp) trivial (by simp) (by simp [Pc.closing])
      rfl rfl rfl rfl
  | begin hpc =>
    exact hgo .resetting (by simp [hpc]) (by simp) trivial (by simp) (by simp [Pc.closing])
      rfl rfl rfl rfl
  | start hpc =>
    exact hgo .stamping (by simp [hpc]) (by simp) trivial (by simp) (by simp [Pc.closing])
      rfl rfl rfl rfl
  | stamp hpc =>
    exact hgo .releasing (by simp [hpc]) (by simp) trivial (by simp) (by simp [Pc.closing])
      rfl rfl rfl rfl
  | unwind hpc =>
    exact hgo .failed (by simp [hpc]) (by simp) trivial (by simp) (by simp [Pc.closing])
      rfl rfl rfl rfl
  | release hpc =>
    exact hgo .loading (by simp [hpc]) (by simp) trivial (by simp) (by simp [Pc.closing])
      rfl rfl rfl rfl
  | load hpc =>
    exact hgo (.defaulting σ.queues) (by simp [hpc]) (by simp) trivial (by simp)
      (by simp [Pc.closing]) rfl rfl rfl rfl

/-- Threads may change what their queues hold. -/
theorem Orderly.of_threads (ho : Orderly σ) (hqueues : σ'.queues = σ.queues)
    (hheap : σ'.heap = σ.heap) (hthreads : ∀ j u, σ'.threads j = some u →
      u.pc.phase ≠ .through ∨ ∃ v, σ.threads j = some v ∧ v.sid = u.sid ∧ v.pc = u.pc) :
    Orderly σ' := by
  have hcalm : ∀ {pc : Pc}, pc.phase ≠ .through → pc.closing = false ∧ ∀ s, pc ≠ .adding s := by
    intro pc hphase
    cases pc <;> simp_all [Pc.closing, Pc.phase]
  refine ⟨?_, ?_, ?_⟩
  · rw [hqueues, hheap]
    exact ho.own
  · intro j u hu
    rcases hthreads j u hu with hphase | ⟨v, hv, hsid, hpc⟩
    · exact fits_of_phase hphase
    · rw [← hsid, ← hpc]
      exact fits_congr hqueues hheap (ho.fits j v hv)
  · intro j k u v s hu hv hsid hpc
    rcases hthreads j u hu with hphase | ⟨u', hu', husid, hupc⟩
    · exact absurd hpc ((hcalm hphase).2 s)
    · rcases hthreads k v hv with hphase | ⟨v', hv', hvsid, hvpc⟩
      · exact (hcalm hphase).1
      · rw [← hvpc]
        exact ho.apart j k u' v' s hu' hv' (by rw [husid, hvsid, hsid]) (hupc.trans hpc)

/-- Thread `i` gets a new queue content. -/
theorem Orderly.setThread (ho : Orderly σ) (ht : σ.threads i = some t) {t' : Thread}
    (hsid : t'.sid = t.sid) (hpc : t'.pc = t.pc) : Orderly (σ.setThread i t') := by
  refine ho.of_threads rfl rfl ?_
  intro j u hu
  by_cases hj : j = i
  · subst hj
    rw [setThread_threads_self] at hu
    obtain rfl := Option.some.inj hu
    exact Or.inr ⟨t, ht, hsid.symm, hpc.symm⟩
  · rw [setThread_threads_ne hj] at hu
    exact Or.inr ⟨u, hu, rfl, rfl⟩

/-- Calls that stay apart stay orderly. -/
theorem orderly_of_step (ho : Orderly σ) (hsafe : Safe σ) (hok : apart l σ) (h : Moved σ l σ') :
    Orderly σ' := by
  have hsame : ∀ {τ : State}, τ.queues = σ.queues → τ.heap = σ.heap → τ.threads = σ.threads →
      Orderly τ := by
    intro τ hqueues hheap hthreads
    refine ho.of_threads hqueues hheap ?_
    intro j u hu
    rw [hthreads] at hu
    exact Or.inr ⟨u, hu, rfl, rfl⟩
  cases h with
  | call i sid hnone =>
    refine ho.of_threads rfl rfl ?_
    intro j u hu
    by_cases hj : j = i
    · subst hj
      rw [setThread_threads_self] at hu
      obtain rfl := Option.some.inj hu
      exact Or.inl (by simp [Pc.phase])
    · rw [setThread_threads_ne hj] at hu
      exact Or.inr ⟨u, hu, rfl, rfl⟩
  | act i t ht hact => exact orderly_of_acted ho hsafe hok ht hact
  | raise i t ht hpc =>
    exact ho.went_same (went_goto ht (by simp [hpc]) (by simp)) rfl rfl trivial (by simp)
      (by simp [Pc.closing])
  | close i t ht hpc =>
    have hfit := ho.fits i t ht
    rw [hpc] at hfit
    exact ho.went_same (went_goto ht (by simp [hpc]) (by simp)) rfl rfl hfit (by simp)
      (by simp [Pc.closing])
  | read i t data queue ht _ _ => exact ho.setThread ht rfl rfl
  | listen l listener _ hheard => cases hheard <;> exact hsame rfl rfl rfl
  | offer l q listener t n m todo hl ht hpc hq =>
    exact Orderly.setThread
        (σ := σ.setListener l { listener with pc := .offering n m (todo.erase q) })
        (hsame rfl rfl rfl) ht rfl rfl
  | publish sid data => exact hsame rfl rfl rfl
  | fork pid _ _ =>
    refine ho.of_threads rfl rfl ?_
    intro j u hu
    left
    rcases Option.map_eq_some_iff.mp hu with ⟨v, _, rfl⟩
    simp [Pc.phase]

/-! ## The registry is the atomic hub's -/

/-- The hub and the process register the same queues. -/
def Agrees (σ : State) (hub : Hub) : Prop := ∀ sid, EventHub.targets hub sid = σ.registry sid

/-- A step is the call that happens at it, or changes nothing in the hub. -/
theorem agrees_of_step (ho : Orderly σ) (hsafe : Safe σ) (h : Moved σ l σ') {hub : Hub}
    (hagree : Agrees σ hub) :
    (happens l σ = none ∧ Agrees σ' hub) ∨
      ∃ call hub', happens l σ = some call ∧ calls.step call hub = some hub' ∧ Agrees σ' hub' := by
  have hsame : happens l σ = none → (∀ sid, σ'.registry sid = σ.registry sid) →
      (happens l σ = none ∧ Agrees σ' hub) ∨
        ∃ call hub', happens l σ = some call ∧ calls.step call hub = some hub' ∧
          Agrees σ' hub' := by
    intro hnone hreg
    left
    refine ⟨hnone, ?_⟩
    intro sid
    rw [hreg]
    exact hagree sid
  cases h with
  | act i t ht hact =>
    have hfit := ho.fits i t ht
    have hquiet : (∀ s, t.pc ≠ .adding s) → (∀ s, t.pc ≠ .discarding s) → t.pc ≠ .resetting →
        happens (.act i) σ = none := by
      intro hadd hdiscard hreset
      simp only [happens, ht, Option.bind_some]
    cases hact with
    | reset hpc =>
      right
      refine ⟨.reset, EventHub.empty, by simp [happens, ht, hpc], rfl, ?_⟩
      intro sid
      have hnone := hsafe.refs.heap.dict_nextDict sid
      rw [State.registry]
      show ∅ = (σ.heap.dict σ.heap.nextDict sid).elim ∅ σ.heap.set
      rw [hnone]
      rfl
    | default d hpc =>
      have hd : d = σ.queues := hsafe.refs.dicts i t ht d (by rw [hpc]; rfl)
      refine hsame (hquiet (by simp [hpc]) (by simp [hpc]) (by simp [hpc])) ?_
      intro sid
      exact registry_default hsafe.refs.heap hd _ t t.sid sid
    | add s hpc =>
      rw [hpc] at hfit
      right
      refine ⟨.subscribe t.sid i, _, by simp [happens, ht, hpc], rfl, ?_⟩
      intro sid
      ext q
      rw [EventHub.mem_targets_subscribe, registry_add ho hfit, hagree sid]
    | discard s hpc =>
      rw [hpc] at hfit
      right
      refine ⟨.unsubscribe t.sid i, _, by simp [happens, ht, hpc], rfl, ?_⟩
      intro sid
      ext q
      rw [EventHub.mem_targets_unsubscribe, registry_discard ho hfit.1, hagree sid]
    | pop d hpc =>
      obtain rfl : d = σ.queues := hsafe.refs.dicts i t ht d (by rw [hpc]; rfl)
      rw [hpc] at hfit
      refine hsame (hquiet (by simp [hpc]) (by simp [hpc]) (by simp [hpc])) ?_
      intro sid
      exact registry_pop hfit _ t sid
    | finish hpc =>
      refine hsame (hquiet ?_ ?_ ?_) fun _ => rfl
      · rcases hpc with ⟨d, hpc, _⟩ | ⟨s, hpc, _⟩ <;> simp [hpc]
      · rcases hpc with ⟨d, hpc, _⟩ | ⟨s, hpc, _⟩ <;> simp [hpc]
      · rcases hpc with ⟨d, hpc, _⟩ | ⟨s, hpc, _⟩ <;> simp [hpc]
    | hit hpc | miss hpc | acquire hpc | found hpc | begin hpc | start hpc | stamp hpc | unwind hpc
    | release hpc | load hpc | look hpc | get _ _ hpc | empty _ hpc | relook hpc =>
      exact hsame (hquiet (by simp [hpc]) (by simp [hpc]) (by simp [hpc])) fun _ => rfl
  | listen l listener _ hheard => cases hheard <;> exact hsame rfl fun _ => rfl
  | _ => exact hsame rfl fun _ => rfl

/-- Let calls for one session stay apart, while everything else interleaves in any way, in a new
process and along any chain of forks. Then the queues registered are those of a hub whose calls are
single steps, taken in the order of their `add`s and `discard`s; and every queue whose `subscribe`
has returned and whose `unsubscribe` has not begun is registered. -/
theorem calls_are_atomic {pid : ℕ} {ls : List Label}
    (h : (machine pid).Run apart (State.init pid) ls σ) :
    (∃ hub, calls.Run Lts.anyStep EventHub.empty
        ((machine pid).project happens ls (State.init pid)) hub ∧ Agrees σ hub) ∧ σ.Linked := by
  have hproject : ∃ hub, calls.Run Lts.anyStep EventHub.empty
      ((machine pid).project happens ls (State.init pid)) hub ∧
      (Safe σ ∧ Orderly σ) ∧ Agrees σ hub := by
    refine h.project (R := fun σ hub => (Safe σ ∧ Orderly σ) ∧ Agrees σ hub) ?_
      ⟨⟨Safe.init pid, Orderly.init pid⟩, ?_⟩
    · rintro l σ σ' hub hok hs ⟨⟨hsafe, ho⟩, hagree⟩
      have hmoved := moved_of_step hs
      have hinv : Safe σ' ∧ Orderly σ' :=
        ⟨hsafe.step hs, orderly_of_step ho hsafe hok hmoved⟩
      rcases agrees_of_step ho hsafe hmoved hagree with ⟨hnone, hagree'⟩ |
        ⟨call, hub', hcall, hstep, hagree'⟩
      · exact Or.inl ⟨hnone, hinv, hagree'⟩
      · exact Or.inr ⟨call, hub', hcall, hstep, hinv, hagree'⟩
    · intro sid
      rfl
  rcases hproject with ⟨hub, hrun, ⟨_, ho⟩, hagree⟩
  exact ⟨⟨hub, hrun, hagree⟩, ho.linked⟩

/-- So calls that stay apart are calm: nobody loses its registration. -/
theorem calm_of_apart {pid : ℕ} {ls : List Label}
    (h : (machine pid).Run apart (State.init pid) ls σ) :
    (machine pid).Run calm (State.init pid) ls σ := by
  refine (h.always_iff (P := State.Linked) (I := Tracked) (fun _ _ _ _ hs hi => hi.step hs)
    (fun _ _ _ _ hs hi hlinked => linked_step_iff hi.1 hi.2 hlinked (moved_of_step hs))
    (Tracked.init pid) (linked_init pid)).mp ?_
  rintro before τ ⟨rest, rfl⟩ hτ
  rcases h.split with ⟨τ', hbefore, _⟩
  obtain rfl := Option.some.inj (hτ.symm.trans (Lts.exec_of_run hbefore))
  have hinv : Safe τ ∧ Orderly τ := hbefore.invariant (P := fun τ => Safe τ ∧ Orderly τ)
    ⟨Safe.init pid, Orderly.init pid⟩ fun _ _ _ hok hs hi =>
      ⟨hi.1.step hs, orderly_of_step hi.2 hi.1 hok (moved_of_step hs)⟩
  exact hinv.2.linked

/-! ## Two ways to stay apart -/

/-- Between the first and the last access to the dict or a set in one of the two calls. -/
def Pc.midway : Pc → Bool
  | .defaulting _ => true
  | .adding _ => true
  | .getting _ => true
  | .discarding _ => true
  | pc => pc.closing

/-- A call that has begun to use `_queues` goes on before anything else happens: nothing between its
first and its last access makes a greenlet wait. -/
def uninterrupted : Lts.Guard State Label := fun l σ =>
  ∀ j u, σ.threads j = some u → u.pc.midway = true → l = .act j

/-- Under gevent calls stay apart. -/
theorem apart_of_uninterrupted (hok : uninterrupted l σ) : apart l σ := by
  cases l with
  | act i =>
    intro t ht
    -- a thread that is midway is the one that steps
    have hsame : ∀ {j u}, σ.threads j = some u → u.pc.midway = true → u = t := by
      intro j u hu hmid
      obtain rfl := Label.act.inj (hok j u hu hmid)
      exact Option.some.inj (hu.symm.trans ht)
    constructor
    · intro d hpc j u hu _
      by_contra hno
      have hclosing : u.pc.closing = true := by simpa using hno
      have hmid : u.pc.midway = true := by
        cases hupc : u.pc <;> simp_all [Pc.midway, Pc.closing]
      obtain rfl := hsame hu hmid
      rw [hpc] at hclosing
      cases hclosing
    · intro s hpc j u hu _ s' hupc
      obtain rfl := hsame hu (by simp [hupc, Pc.midway])
      rw [hpc] at hupc
      cases hupc
  | _ => trivial

/-- Every thread keeps its session, and a new one gets the session of its call. -/
theorem sid_of_step {name : ℕ → Str} (hname : ∀ i sid, l = .call i sid → sid = name i)
    (h : Moved σ l σ') (hall : ∀ j u, σ.threads j = some u → u.sid = name j) :
    ∀ j u, σ'.threads j = some u → u.sid = name j := by
  have hset : ∀ {i t'}, t'.sid = name i → ∀ j u, (σ.setThread i t').threads j = some u →
      u.sid = name j := by
    intro i t' hsid j u hu
    exact threads_setThread hall hsid hu
  cases h with
  | call i sid _ => exact hset (hname i sid rfl)
  | act i t ht hact =>
    rcases went_of_acted ht hact with ⟨pc, hwent, _, _⟩
    rw [hwent.threads]
    have hsid : ({ t with pc } : Thread).sid = name i := hall i t ht
    exact hset hsid
  | raise i t ht _ => exact hset (hall i t ht)
  | close i t ht _ => exact hset (hall i t ht)
  | read i t data queue ht _ _ => exact hset (hall i t ht)
  | listen l listener _ hheard => cases hheard <;> exact hall
  | offer l q listener t n m todo _ ht _ _ => exact hset (hall q t ht)
  | publish sid data => exact hall
  | fork pid _ _ =>
    intro j u hu
    rcases Option.map_eq_some_iff.mp hu with ⟨v, hv, rfl⟩
    exact hall j v hv

/-- Calls for different sessions stay apart. -/
theorem apart_of_names {name : ℕ → Str} (hinj : Function.Injective name) {pid : ℕ} {ls : List Label}
    (h : (machine pid).Run Lts.anyStep (State.init pid) ls σ)
    (hname : ∀ i sid, .call i sid ∈ ls → sid = name i) :
    (machine pid).Run apart (State.init pid) ls σ := by
  have hlabels : ∀ l ∈ ls, ∀ i sid, l = .call i sid → sid = name i := by
    rintro l hl i sid rfl
    exact hname i sid hl
  have hguarded := (h.of_labels hlabels).guarded
    (P := fun σ => ∀ j u, σ.threads j = some u → u.sid = name j)
    (fun _ _ _ hok hs hall => sid_of_step hok.2 (moved_of_step hs) hall) (by simp [State.init])
  refine hguarded.mono ?_
  rintro l σ ⟨_, hall⟩
  cases l with
  | act i =>
    intro t ht
    have hsame : ∀ {j u}, σ.threads j = some u → u.sid = t.sid → u = t := by
      intro j u hu hsid
      rw [hall j u hu, hall i t ht] at hsid
      obtain rfl := hinj hsid
      exact Option.some.inj (hu.symm.trans ht)
    constructor
    · intro d hpc j u hu hsid
      rw [hsame hu hsid, hpc]
      rfl
    · intro s hpc j u hu hsid s'
      rw [hsame hu hsid, hpc]
      simp
  | _ => trivial

namespace Sample

/-- The session of thread `i`. -/
def name (i : ℕ) : Str := (List.replicate i (lit "x")).flatten

theorem name_injective : Function.Injective name := by
  intro i j h
  have hlen := congrArg List.length h
  have hx : (lit "x").length = 1 := by decide
  simpa [name, hx] using hlen

/-- A stream leaves while a stream of another session comes, a step of the one after a step of the
other. -/
def sideBySide : List Label := List.flatten
  [.call 0 (name 0) :: List.replicate 10 (.act 0), [.call 1 (name 1), .close 0],
    List.flatten (List.replicate 4 [.act 1, .act 0]), [.act 0, .act 0]]

end Sample

/-- It applies to calls that interleave step by step. -/
theorem calls_are_atomic_sample :
    let σ := (machine 7).after Sample.sideBySide
    (∃ hub, calls.Run Lts.anyStep EventHub.empty [.reset, .subscribe (Sample.name 0) 0,
        .unsubscribe (Sample.name 0) 0, .subscribe (Sample.name 1) 1] hub ∧ Agrees σ hub) ∧
      σ.Live 1 (Sample.name 1) ∧ σ.Linked := by
  intro σ
  have hname : ∀ i sid, .call i sid ∈ Sample.sideBySide → sid = Sample.name i := by
    intro i sid hmem
    have hcall : (i = 0 ∧ sid = Sample.name 0) ∨ (i = 1 ∧ sid = Sample.name 1) := by
      simpa [Sample.sideBySide] using hmem
    rcases hcall with ⟨rfl, rfl⟩ | ⟨rfl, rfl⟩ <;> rfl
  have hrun := apart_of_names Sample.name_injective ((machine 7).run_after Sample.sideBySide (by decide +kernel))
    hname
  rcases calls_are_atomic hrun with ⟨hatomic, hlinked⟩
  have hcalls : (machine 7).project happens Sample.sideBySide (State.init 7) =
      [.reset, .subscribe (Sample.name 0) 0, .unsubscribe (Sample.name 0) 0,
        .subscribe (Sample.name 1) 1] := by decide +kernel
  rw [hcalls] at hatomic
  have ht : σ.threads 1 = some ⟨Sample.name 1, .subscribed, [], []⟩ := by rfl
  exact ⟨hatomic, ⟨_, ht, rfl, rfl⟩, hlinked⟩

end HubThreads

end Doppelganger
