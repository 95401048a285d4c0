import Doppelganger.EventHub
import Doppelganger.Lib.OncePerProcess

/-!
# The event hub under real threads

`EventHub` step by step, in one worker process and along any chain of forks: each
read and write of `_pid` and `_queues`, each operation on the lock, on the dict and
on a set, each step of a listener thread is a step of its own, and they interleave
freely. Thread `i` serves one stream: it calls `subscribe` for its session and gets
queue `i`, and later calls `unsubscribe` with it.

Dicts and sets are objects that variables and threads refer to by number. Redis hands
every published message to the connections that are pattern-subscribed; messages are
numbered in the order they are published. `publications`, `handled` and what was `offered`
to a queue are histories that nothing reads.
-/

open Text Redis

namespace Doppelganger

namespace HubThreads

open OncePerProcess (Phase)

/-! ## Objects -/

/-- The dicts and the sets. -/
structure Heap where
  dict : ℕ → Str → Option ℕ
  set : ℕ → Finset ℕ
  /-- From here on the numbers are free. -/
  nextDict : ℕ
  nextSet : ℕ

namespace Heap

/-- `d.setdefault(sid, set())`. -/
def setdefault (h : Heap) (d : ℕ) (sid : Str) : Heap × ℕ :=
  match h.dict d sid with
  | some s => (h, s)
  | none =>
    ({ h with
        dict := Function.update h.dict d (Function.update (h.dict d) sid (some h.nextSet))
        nextSet := h.nextSet + 1 }, h.nextSet)

/-- `s.add(q)`. -/
def add (h : Heap) (s q : ℕ) : Heap := { h with set := Function.update h.set s (insert q (h.set s)) }

/-- `s.discard(q)`. -/
def discard (h : Heap) (s q : ℕ) : Heap :=
  { h with set := Function.update h.set s ((h.set s).erase q) }

/-- `d.pop(sid, None)`. -/
def pop (h : Heap) (d : ℕ) (sid : Str) : Heap :=
  { h with dict := Function.update h.dict d (Function.update (h.dict d) sid none) }

/-- Nothing refers to an object whose number is free. -/
structure Ok (h : Heap) : Prop where
  dict : ∀ d sid s, h.dict d sid = some s → d < h.nextDict ∧ s < h.nextSet
  set : ∀ s q, q ∈ h.set s → s < h.nextSet

variable {h : Heap} {d d' s s' q q' : ℕ} {sid sid' : Str}

@[simp] theorem setdefault_set : (h.setdefault d sid).1.set = h.set := by
  unfold setdefault
  split <;> rfl

@[simp] theorem setdefault_nextDict : (h.setdefault d sid).1.nextDict = h.nextDict := by
  unfold setdefault
  split <;> rfl

/-- What `setdefault` answers is in the dict now. -/
theorem setdefault_dict_self : (h.setdefault d sid).1.dict d sid = some (h.setdefault d sid).2 := by
  unfold setdefault
  split
  · next hs => exact hs
  · simp

/-- An entry is old, or maps to a set that is new. -/
theorem setdefault_dict (hs : (h.setdefault d sid).1.dict d' sid' = some s) :
    h.dict d' sid' = some s ∨ (d' = d ∧ sid' = sid ∧ h.dict d sid = none ∧ s = h.nextSet) := by
  unfold setdefault at hs
  split at hs
  · exact Or.inl hs
  · next hnone =>
    by_cases hd : d' = d
    · subst hd
      by_cases hsid : sid' = sid
      · subst hsid
        exact Or.inr ⟨rfl, rfl, hnone, by simpa using hs.symm⟩
      · exact Or.inl (by simpa [hsid] using hs)
    · exact Or.inl (by simpa [hd] using hs)

/-- Old entries stay. -/
theorem setdefault_dict_of_some (hs : h.dict d' sid' = some s) :
    (h.setdefault d sid).1.dict d' sid' = some s := by
  unfold setdefault
  split
  · exact hs
  · next hnone =>
    by_cases hd : d' = d
    · subst hd
      by_cases hsid : sid' = sid
      · subst hsid
        rw [hnone] at hs
        cases hs
      · simpa [hsid] using hs
    · simpa [hd] using hs

theorem setdefault_nextSet_le : h.nextSet ≤ (h.setdefault d sid).1.nextSet := by
  unfold setdefault
  split
  · exact le_rfl
  · exact Nat.le_succ _

theorem setdefault_snd_lt (hok : h.Ok) : (h.setdefault d sid).2 < (h.setdefault d sid).1.nextSet := by
  unfold setdefault
  split
  · next s hs => exact (hok.dict d sid s hs).2
  · exact Nat.lt_succ_self _

theorem mem_add : q' ∈ (h.add s q).set s' ↔ (s' = s ∧ q' = q) ∨ q' ∈ h.set s' := by
  by_cases hs : s' = s
  · subst hs
    simp [add]
  · simp [add, hs]

theorem mem_discard : q' ∈ (h.discard s q).set s' ↔ q' ∈ h.set s' ∧ ¬ (s' = s ∧ q' = q) := by
  by_cases hs : s' = s
  · subst hs
    simp [discard, and_comm]
  · simp [discard, hs]

theorem pop_dict : (h.pop d sid).dict d' sid' = some s ↔
    h.dict d' sid' = some s ∧ ¬ (d' = d ∧ sid' = sid) := by
  by_cases hd : d' = d
  · subst hd
    by_cases hsid : sid' = sid
    · subst hsid
      simp [pop]
    · simp [pop, hsid]
  · simp [pop, hd]

namespace Ok

theorem setdefault (hok : h.Ok) (hd : d < h.nextDict) : (h.setdefault d sid).1.Ok where
  dict := by
    intro d' sid' s hs
    rw [setdefault_nextDict]
    rcases setdefault_dict hs with hs | ⟨rfl, rfl, hnone, rfl⟩
    · rcases hok.dict d' sid' s hs with ⟨h₁, h₂⟩
      exact ⟨h₁, h₂.trans_le setdefault_nextSet_le⟩
    · refine ⟨hd, ?_⟩
      have hlt : (h.setdefault d' sid').2 < (h.setdefault d' sid').1.nextSet := setdefault_snd_lt hok
      rw [setdefault_dict_self] at hs
      exact Option.some.inj hs ▸ hlt
  set := by
    intro s q hq
    rw [setdefault_set] at hq
    exact (hok.set s q hq).trans_le setdefault_nextSet_le

theorem add (hok : h.Ok) (hs : s < h.nextSet) : (h.add s q).Ok where
  dict := hok.dict
  set := by
    intro s' q' hq
    rcases mem_add.mp hq with ⟨rfl, _⟩ | hq
    · exact hs
    · exact hok.set s' q' hq

theorem discard (hok : h.Ok) : (h.discard s q).Ok where
  dict := hok.dict
  set := fun s' q' hq => hok.set s' q' (mem_discard.mp hq).1

theorem pop (hok : h.Ok) : (h.pop d sid).Ok where
  dict := fun d' sid' s hs => hok.dict d' sid' s (pop_dict.mp hs).1
  set := hok.set

/-- A dict made now is empty. -/
theorem dict_nextDict (hok : h.Ok) (sid : Str) : h.dict h.nextDict sid = none := by
  cases hs : h.dict h.nextDict sid with
  | none => rfl
  | some s => exact absurd (hok.dict _ sid s hs).1 (lt_irrefl _)

/-- So is a set. -/
theorem notMem_nextSet (hok : h.Ok) (q : ℕ) : q ∉ h.set h.nextSet := fun hq =>
  absurd (hok.set _ q hq) (lt_irrefl _)

end Ok

end Heap

/-! ## Threads -/

/-- Where the two calls of a thread stand. -/
inductive Pc where
  /-- `_ensure_listener`: at the test without the lock. -/
  | testing
  | acquiring
  | retesting
  /-- At `self._queues = {}`. -/
  | resetting
  /-- At `Thread(...).start()`. -/
  | starting
  /-- At `self._pid = os.getpid()`. -/
  | stamping
  /-- Starting the thread has raised. -/
  | unwinding
  | releasing
  /-- `subscribe`: about to read `self._queues`. -/
  | loading
  | defaulting (dict : ℕ)
  | adding (set : ℕ)
  /-- `subscribe` has returned, `unsubscribe` has not begun. -/
  | subscribed
  /-- `unsubscribe`: about to read `self._queues`. -/
  | looking
  | getting (dict : ℕ)
  | discarding (set : ℕ)
  /-- At `if not qs`. -/
  | checking (set : ℕ)
  /-- About to read `self._queues` for `pop`. -/
  | relooking
  | popping (dict : ℕ)
  | done
  /-- `subscribe` has raised. -/
  | failed
  /-- A thread of the parent: it does not exist in this process, its queue does. -/
  | inherited
deriving DecidableEq

def Pc.phase : Pc → Phase
  | .testing => .testing
  | .acquiring => .acquiring
  | .retesting => .retesting
  | .resetting => .working
  | .starting => .working
  | .stamping => .working
  | .unwinding => .working
  | .releasing => .releasing
  | .done => .outside
  | .failed => .outside
  | .inherited => .outside
  | _ => .through

/-- `subscribe` has returned, in this process. -/
def Pc.returned : Pc → Bool
  | .subscribed => true
  | .looking => true
  | .getting _ => true
  | .discarding _ => true
  | .checking _ => true
  | .relooking => true
  | .popping _ => true
  | .done => true
  | _ => false

structure Thread where
  sid : Str
  pc : Pc
  /-- The contents of the thread's queue. -/
  queue : List Str
  /-- The messages that `put_nowait` of the queue was called with. -/
  offered : List (ℕ × Message)

/-- Where a listener thread stands. -/
inductive ListenerPc where
  /-- Up to `pubsub.psubscribe`. -/
  | connecting
  /-- In `pubsub.get_message`. -/
  | polling
  /-- With message `n` in hand, about to read `self._queues`. -/
  | loading (n : ℕ) (m : Message)
  | getting (n : ℕ) (m : Message) (dict : ℕ)
  /-- At `list(...)` of the set found, if one was. -/
  | copying (n : ℕ) (m : Message) (set : Option ℕ)
  /-- In the loop, with `todo` still to go. -/
  | offering (n : ℕ) (m : Message) (todo : Finset ℕ)

structure Listener where
  pc : ListenerPc
  /-- Its connection is pattern-subscribed. -/
  subscribed : Bool
  /-- The messages Redis has sent to the connection. -/
  inbox : List (ℕ × Message)

/-- A published message, the threads whose `subscribe` had returned by then, and those that had not
begun to unsubscribe. -/
structure Publication where
  message : Message
  returned : ℕ → Bool
  live : ℕ → Bool

/-- A process. -/
@[ext] structure State where
  pid : ℕ
  pids : List ℕ
  /-- `_lock` -/
  lock : Option ℕ
  /-- `_pid` -/
  stamp : Option ℕ
  /-- `_queues` -/
  queues : ℕ
  heap : Heap
  threads : ℕ → Option Thread
  /-- The listener threads started in this process. -/
  started : ℕ
  listeners : ℕ → Option Listener
  publications : List Publication
  handled : List ℕ

inductive Label where
  /-- A new thread `i` calls `subscribe` for session `sid`. -/
  | call (i : ℕ) (sid : Str)
  /-- The next step of the call of thread `i`. -/
  | act (i : ℕ)
  /-- Starting the listener raises in thread `i`. -/
  | raise (i : ℕ)
  /-- Thread `i` calls `unsubscribe`. -/
  | close (i : ℕ)
  /-- Thread `i` takes an item from its queue. -/
  | read (i : ℕ)
  /-- The next step of listener `l`, but for its offers. -/
  | listen (l : ℕ)
  /-- Listener `l` offers its message to queue `q`. -/
  | offer (l q : ℕ)
  /-- Somebody publishes `data` on the channel of session `sid`. -/
  | publish (sid data : Str)
  /-- The process forks; from here on, the child. -/
  | fork (pid : ℕ)

/-! ## Steps -/

namespace State

/-- A process that has just started. -/
def init (pid : ℕ) : State where
  pid := pid
  pids := [pid]
  lock := none
  stamp := none
  queues := 0
  heap := ⟨fun _ _ => none, fun _ => ∅, 1, 0⟩
  threads := fun _ => none
  started := 0
  listeners := fun _ => none
  publications := []
  handled := []

/-- Where the call of thread `i` stands. -/
def pc? (σ : State) (i : ℕ) : Option Pc := (σ.threads i).map Thread.pc

/-- `subscribe` of thread `i` for session `sid` has returned. -/
def Returned (σ : State) (i : ℕ) (sid : Str) : Prop :=
  ∃ t, σ.threads i = some t ∧ t.pc.returned = true ∧ t.sid = sid

/-- Thread `i` is subscribed to session `sid`. -/
def Live (σ : State) (i : ℕ) (sid : Str) : Prop :=
  ∃ t, σ.threads i = some t ∧ t.pc = .subscribed ∧ t.sid = sid

def setThread (σ : State) (i : ℕ) (t : Thread) : State :=
  { σ with threads := Function.update σ.threads i (some t) }

def setListener (σ : State) (l : ℕ) (listener : Listener) : State :=
  { σ with listeners := Function.update σ.listeners l (some listener) }

/-- The call of thread `i`, which is `t`, goes on to `pc`. -/
def goto (σ : State) (i : ℕ) (t : Thread) (pc : Pc) : State := σ.setThread i { t with pc }

/-- The next step of the call of thread `i`, which is `t`. -/
def act (σ : State) (i : ℕ) (t : Thread) : Option State :=
  match t.pc with
  | .testing => some (σ.goto i t (if σ.stamp = some σ.pid then .loading else .acquiring))
  | .acquiring =>
    if σ.lock = none then some { σ.goto i t .retesting with lock := some i } else none
  | .retesting => some (σ.goto i t (if σ.stamp = some σ.pid then .releasing else .resetting))
  | .resetting =>
    some { σ.goto i t .starting with
      queues := σ.heap.nextDict
      heap := { σ.heap with nextDict := σ.heap.nextDict + 1 } }
  | .starting =>
    some { (σ.goto i t .stamping).setListener σ.started ⟨.connecting, false, []⟩ with
      started := σ.started + 1 }
  | .stamping => some { σ.goto i t .releasing with stamp := some σ.pid }
  | .unwinding => some { σ.goto i t .failed with lock := none }
  | .releasing => some { σ.goto i t .loading with lock := none }
  | .loading => some (σ.goto i t (.defaulting σ.queues))
  | .defaulting d =>
    some { σ.goto i t (.adding (σ.heap.setdefault d t.sid).2) with
      heap := (σ.heap.setdefault d t.sid).1 }
  | .adding s => some { σ.goto i t .subscribed with heap := σ.heap.add s i }
  | .looking => some (σ.goto i t (.getting σ.queues))
  | .getting d =>
    match σ.heap.dict d t.sid with
    | none => some (σ.goto i t .done)
    | some s => some (σ.goto i t (.discarding s))
  | .discarding s => some { σ.goto i t (.checking s) with heap := σ.heap.discard s i }
  | .checking s => some (σ.goto i t (if σ.heap.set s = ∅ then .relooking else .done))
  | .relooking => some (σ.goto i t (.popping σ.queues))
  | .popping d => some { σ.goto i t .done with heap := σ.heap.pop d t.sid }
  | .subscribed => none
  | .done => none
  | .failed => none
  | .inherited => none

/-- The next step of listener `l`, which is `listener`. -/
def listen (σ : State) (l : ℕ) (listener : Listener) : Option State :=
  match listener.pc with
  | .connecting => some (σ.setListener l { listener with pc := .polling, subscribed := true })
  | .polling =>
    match listener.inbox with
    | [] => none
    | (n, m) :: rest => some (σ.setListener l { listener with pc := .loading n m, inbox := rest })
  | .loading n m => some (σ.setListener l { listener with pc := .getting n m σ.queues })
  | .getting n m d =>
    some (σ.setListener l { listener with
      pc := .copying n m (σ.heap.dict d (EventHub.sessionOfChannel m.channel)) })
  | .copying n m s =>
    some (σ.setListener l { listener with pc := .offering n m (s.elim ∅ σ.heap.set) })
  | .offering n _ todo =>
    if todo = ∅ then
      some { σ.setListener l { listener with pc := .polling } with handled := σ.handled ++ [n] }
    else none

/-- `q.put_nowait(msg["data"])`, where a full queue raises `queue.Full`. -/
def put (t : Thread) (n : ℕ) (m : Message) : Thread :=
  { t with
    queue := EventHub.putNowait t.queue m.data
    offered := t.offered ++ [(n, m)] }

/-- What a publication does to a listener. -/
def hear (n : ℕ) (m : Message) (listener : Listener) : Listener :=
  if listener.subscribed then { listener with inbox := listener.inbox ++ [(n, m)] } else listener

/-- A listener of the process is pattern-subscribed. -/
def hears (σ : State) : Bool :=
  (List.range σ.started).any fun l => (σ.listeners l).any Listener.subscribed

/-- `PUBLISH`. -/
def publish (σ : State) (m : Message) : State :=
  { σ with
    listeners := fun l => (σ.listeners l).map (hear σ.publications.length m)
    publications := σ.publications ++
      [⟨m, fun i => (σ.pc? i).any Pc.returned, fun i => decide (σ.pc? i = some .subscribed)⟩] }

/-- The child of a fork: threads do not live on in it, the memory does. Its histories are empty. -/
def child (σ : State) (pid : ℕ) : State :=
  { σ with
    pid := pid
    pids := pid :: σ.pids
    threads := fun i => (σ.threads i).map fun t => { t with pc := .inherited }
    started := 0
    listeners := fun _ => none
    publications := []
    handled := [] }

def step : Label → State → Option State
  | .call i sid, σ =>
    match σ.threads i with
    | none => some (σ.setThread i ⟨sid, .testing, [], []⟩)
    | some _ => none
  | .act i, σ => (σ.threads i).bind (σ.act i)
  | .raise i, σ => do
    let t ← σ.threads i
    if t.pc = .starting then return σ.goto i t .unwinding else none
  | .close i, σ => do
    let t ← σ.threads i
    if t.pc = .subscribed then return σ.goto i t .looking else none
  | .read i, σ => do
    let t ← σ.threads i
    match t.queue with
    | [] => none
    | _ :: queue => if t.pc = .subscribed then return σ.setThread i { t with queue } else none
  | .listen l, σ => (σ.listeners l).bind (σ.listen l)
  | .offer l q, σ => do
    let listener ← σ.listeners l
    let t ← σ.threads q
    match listener.pc with
    | .offering n m todo =>
      if q ∈ todo then
        return (σ.setListener l { listener with pc := .offering n m (todo.erase q) }).setThread q
          (put t n m)
      else none
    | _ => none
  | .publish sid data, σ => some (σ.publish ⟨channel sid, data⟩)
  | .fork pid, σ => if σ.lock = none ∧ pid ∉ σ.pids then some (σ.child pid) else none

end State

/-- The hub in a process that starts as `pid`. -/
def machine (pid : ℕ) : Lts State Label := ⟨State.init pid, State.step⟩

/-! ## What a step can do -/

/-- A step of the call of thread `i`, which is `t`. -/
inductive Acted (σ : State) (i : ℕ) (t : Thread) : State → Prop
  | hit : t.pc = .testing → σ.stamp = some σ.pid → Acted σ i t (σ.goto i t .loading)
  | miss : t.pc = .testing → σ.stamp ≠ some σ.pid → Acted σ i t (σ.goto i t .acquiring)
  | acquire : t.pc = .acquiring → σ.lock = none →
      Acted σ i t { σ.goto i t .retesting with lock := some i }
  | found : t.pc = .retesting → σ.stamp = some σ.pid → Acted σ i t (σ.goto i t .releasing)
  | begin : t.pc = .retesting → σ.stamp ≠ some σ.pid → Acted σ i t (σ.goto i t .resetting)
  | reset : t.pc = .resetting →
      Acted σ i t { σ.goto i t .starting with
        queues := σ.heap.nextDict
        heap := { σ.heap with nextDict := σ.heap.nextDict + 1 } }
  | start : t.pc = .starting →
      Acted σ i t { (σ.goto i t .stamping).setListener σ.started ⟨.connecting, false, []⟩ with
        started := σ.started + 1 }
  | stamp : t.pc = .stamping → Acted σ i t { σ.goto i t .releasing with stamp := some σ.pid }
  | unwind : t.pc = .unwinding → Acted σ i t { σ.goto i t .failed with lock := none }
  | release : t.pc = .releasing → Acted σ i t { σ.goto i t .loading with lock := none }
  | load : t.pc = .loading → Acted σ i t (σ.goto i t (.defaulting σ.queues))
  | default (d : ℕ) : t.pc = .defaulting d →
      Acted σ i t { σ.goto i t (.adding (σ.heap.setdefault d t.sid).2) with
        heap := (σ.heap.setdefault d t.sid).1 }
  | add (s : ℕ) : t.pc = .adding s →
      Acted σ i t { σ.goto i t .subscribed with heap := σ.heap.add s i }
  | look : t.pc = .looking → Acted σ i t (σ.goto i t (.getting σ.queues))
  | get (d s : ℕ) : t.pc = .getting d → σ.heap.dict d t.sid = some s →
      Acted σ i t (σ.goto i t (.discarding s))
  | discard (s : ℕ) : t.pc = .discarding s →
      Acted σ i t { σ.goto i t (.checking s) with heap := σ.heap.discard s i }
  | empty (s : ℕ) : t.pc = .checking s → σ.heap.set s = ∅ → Acted σ i t (σ.goto i t .relooking)
  | finish : ((∃ d, t.pc = .getting d ∧ σ.heap.dict d t.sid = none) ∨
      ∃ s, t.pc = .checking s ∧ σ.heap.set s ≠ ∅) → Acted σ i t (σ.goto i t .done)
  | relook : t.pc = .relooking → Acted σ i t (σ.goto i t (.popping σ.queues))
  | pop (d : ℕ) : t.pc = .popping d →
      Acted σ i t { σ.goto i t .done with heap := σ.heap.pop d t.sid }

theorem acted_of_act {σ σ' : State} {i : ℕ} {t : Thread} (h : σ.act i t = some σ') :
    Acted σ i t σ' := by
  cases hpc : t.pc with
  | testing =>
    simp only [State.act, hpc, Option.some.injEq] at h
    subst h
    split_ifs with hstamp
    · exact .hit hpc hstamp
    · exact .miss hpc hstamp
  | acquiring =>
    by_cases hlock : σ.lock = none
    · simp only [State.act, hpc, hlock, if_true, Option.some.injEq] at h
      subst h
      exact .acquire hpc hlock
    · simp [State.act, hpc, hlock] at h
  | retesting =>
    simp only [State.act, hpc, Option.some.injEq] at h
    subst h
    split_ifs with hstamp
    · exact .found hpc hstamp
    · exact .begin hpc hstamp
  | resetting =>
    simp only [State.act, hpc, Option.some.injEq] at h
    subst h
    exact .reset hpc
  | starting =>
    simp only [State.act, hpc, Option.some.injEq] at h
    subst h
    exact .start hpc
  | stamping =>
    simp only [State.act, hpc, Option.some.injEq] at h
    subst h
    exact .stamp hpc
  | unwinding =>
    simp only [State.act, hpc, Option.some.injEq] at h
    subst h
    exact .unwind hpc
  | releasing =>
    simp only [State.act, hpc, Option.some.injEq] at h
    subst h
    exact .release hpc
  | loading =>
    simp only [State.act, hpc, Option.some.injEq] at h
    subst h
    exact .load hpc
  | defaulting d =>
    simp only [State.act, hpc, Option.some.injEq] at h
    subst h
    exact .default d hpc
  | adding s =>
    simp only [State.act, hpc, Option.some.injEq] at h
    subst h
    exact .add s hpc
  | looking =>
    simp only [State.act, hpc, Option.some.injEq] at h
    subst h
    exact .look hpc
  | getting d =>
    cases hs : σ.heap.dict d t.sid with
    | none =>
      simp only [State.act, hpc, hs, Option.some.injEq] at h
      subst h
      exact .finish (Or.inl ⟨d, hpc, hs⟩)
    | some s =>
      simp only [State.act, hpc, hs, Option.some.injEq] at h
      subst h
      exact .get d s hpc hs
  | discarding s =>
    simp only [State.act, hpc, Option.some.injEq] at h
    subst h
    exact .discard s hpc
  | checking s =>
    simp only [State.act, hpc, Option.some.injEq] at h
    subst h
    split_ifs with hempty
    · exact .empty s hpc hempty
    · exact .finish (Or.inr ⟨s, hpc, hempty⟩)
  | relooking =>
    simp only [State.act, hpc, Option.some.injEq] at h
    subst h
    exact .relook hpc
  | popping d =>
    simp only [State.act, hpc, Option.some.injEq] at h
    subst h
    exact .pop d hpc
  | _ => simp [State.act, hpc] at h

/-- A step of listener `l`, which is `listener`. -/
inductive Heard (σ : State) (l : ℕ) (listener : Listener) : State → Prop
  | connect : listener.pc = .connecting →
      Heard σ l listener (σ.setListener l { listener with pc := .polling, subscribed := true })
  | poll (n : ℕ) (m : Message) (rest : List (ℕ × Message)) : listener.pc = .polling →
      listener.inbox = (n, m) :: rest →
      Heard σ l listener (σ.setListener l { listener with pc := .loading n m, inbox := rest })
  | load (n : ℕ) (m : Message) : listener.pc = .loading n m →
      Heard σ l listener (σ.setListener l { listener with pc := .getting n m σ.queues })
  | get (n : ℕ) (m : Message) (d : ℕ) : listener.pc = .getting n m d →
      Heard σ l listener (σ.setListener l { listener with
        pc := .copying n m (σ.heap.dict d (EventHub.sessionOfChannel m.channel)) })
  | copy (n : ℕ) (m : Message) (s : Option ℕ) : listener.pc = .copying n m s →
      Heard σ l listener
        (σ.setListener l { listener with pc := .offering n m (s.elim ∅ σ.heap.set) })
  | finish (n : ℕ) (m : Message) : listener.pc = .offering n m ∅ →
      Heard σ l listener
        { σ.setListener l { listener with pc := .polling } with handled := σ.handled ++ [n] }

theorem heard_of_listen {σ σ' : State} {l : ℕ} {listener : Listener}
    (h : σ.listen l listener = some σ') : Heard σ l listener σ' := by
  cases hpc : listener.pc with
  | connecting =>
    simp only [State.listen, hpc, Option.some.injEq] at h
    subst h
    exact .connect hpc
  | polling =>
    cases hinbox : listener.inbox with
    | nil => simp [State.listen, hpc, hinbox] at h
    | cons item rest =>
      rcases item with ⟨n, m⟩
      simp only [State.listen, hpc, hinbox, Option.some.injEq] at h
      subst h
      exact .poll n m rest hpc hinbox
  | loading n m =>
    simp only [State.listen, hpc, Option.some.injEq] at h
    subst h
    exact .load n m hpc
  | getting n m d =>
    simp only [State.listen, hpc, Option.some.injEq] at h
    subst h
    exact .get n m d hpc
  | copying n m s =>
    simp only [State.listen, hpc, Option.some.injEq] at h
    subst h
    exact .copy n m s hpc
  | offering n m todo =>
    by_cases htodo : todo = ∅
    · subst htodo
      simp only [State.listen, hpc, if_true, Option.some.injEq] at h
      subst h
      exact .finish n m hpc
    · simp [State.listen, hpc, htodo] at h

/-- The steps, by label. -/
inductive Moved (σ : State) : Label → State → Prop
  | call (i : ℕ) (sid : Str) : σ.threads i = none →
      Moved σ (.call i sid) (σ.setThread i ⟨sid, .testing, [], []⟩)
  | act (i : ℕ) (t : Thread) {σ' : State} : σ.threads i = some t → Acted σ i t σ' →
      Moved σ (.act i) σ'
  | raise (i : ℕ) (t : Thread) : σ.threads i = some t → t.pc = .starting →
      Moved σ (.raise i) (σ.goto i t .unwinding)
  | close (i : ℕ) (t : Thread) : σ.threads i = some t → t.pc = .subscribed →
      Moved σ (.close i) (σ.goto i t .looking)
  | read (i : ℕ) (t : Thread) (data : Str) (queue : List Str) : σ.threads i = some t →
      t.pc = .subscribed → t.queue = data :: queue →
      Moved σ (.read i) (σ.setThread i { t with queue })
  | listen (l : ℕ) (listener : Listener) {σ' : State} : σ.listeners l = some listener →
      Heard σ l listener σ' → Moved σ (.listen l) σ'
  | offer (l q : ℕ) (listener : Listener) (t : Thread) (n : ℕ) (m : Message) (todo : Finset ℕ) :
      σ.listeners l = some listener → σ.threads q = some t →
      listener.pc = .offering n m todo → q ∈ todo →
      Moved σ (.offer l q)
        ((σ.setListener l { listener with pc := .offering n m (todo.erase q) }).setThread q
          (State.put t n m))
  | publish (sid data : Str) : Moved σ (.publish sid data) (σ.publish ⟨channel sid, data⟩)
  | fork (pid : ℕ) : σ.lock = none → pid ∉ σ.pids → Moved σ (.fork pid) (σ.child pid)

/-- The inversion every invariant of the machine starts from. -/
theorem moved_of_step {l : Label} {σ σ' : State} (h : State.step l σ = some σ') : Moved σ l σ' := by
  cases l with
  | call i sid =>
    cases hi : σ.threads i with
    | none =>
      simp only [State.step, hi, Option.some.injEq] at h
      subst h
      exact .call i sid hi
    | some t => simp [State.step, hi] at h
  | act i =>
    rcases Option.bind_eq_some_iff.mp h with ⟨t, ht, hact⟩
    exact .act i t ht (acted_of_act hact)
  | raise i =>
    rcases Option.bind_eq_some_iff.mp h with ⟨t, ht, hraise⟩
    by_cases hpc : t.pc = .starting
    · obtain rfl : σ.goto i t .unwinding = σ' := by simpa [hpc] using hraise
      exact .raise i t ht hpc
    · simp [hpc] at hraise
  | close i =>
    rcases Option.bind_eq_some_iff.mp h with ⟨t, ht, hclose⟩
    by_cases hpc : t.pc = .subscribed
    · obtain rfl : σ.goto i t .looking = σ' := by simpa [hpc] using hclose
      exact .close i t ht hpc
    · simp [hpc] at hclose
  | read i =>
    rcases Option.bind_eq_some_iff.mp h with ⟨t, ht, hread⟩
    cases hqueue : t.queue with
    | nil => simp [hqueue] at hread
    | cons data queue =>
      by_cases hpc : t.pc = .subscribed
      · obtain rfl : σ.setThread i { t with queue } = σ' := by simpa [hqueue, hpc] using hread
        exact .read i t data queue ht hpc hqueue
      · simp [hqueue, hpc] at hread
  | listen l =>
    rcases Option.bind_eq_some_iff.mp h with ⟨listener, hl, hlisten⟩
    exact .listen l listener hl (heard_of_listen hlisten)
  | offer l q =>
    rcases Option.bind_eq_some_iff.mp h with ⟨listener, hl, hrest⟩
    rcases Option.bind_eq_some_iff.mp hrest with ⟨t, ht, hoffer⟩
    cases hpc : listener.pc with
    | offering n m todo =>
      by_cases hq : q ∈ todo
      · obtain rfl : (σ.setListener l { listener with pc := .offering n m (todo.erase q) }).setThread q
            (State.put t n m) = σ' := by simpa [hpc, hq] using hoffer
        exact .offer l q listener t n m todo hl ht hpc hq
      · simp [hpc, hq] at hoffer
    | _ => simp [hpc] at hoffer
  | publish sid data =>
    obtain rfl := Option.some.inj h
    exact .publish sid data
  | fork pid =>
    by_cases hfork : σ.lock = none ∧ pid ∉ σ.pids
    · rw [State.step, if_pos hfork] at h
      obtain rfl := Option.some.inj h
      exact .fork pid hfork.1 hfork.2
    · rw [State.step, if_neg hfork] at h
      cases h

end HubThreads

end Doppelganger
