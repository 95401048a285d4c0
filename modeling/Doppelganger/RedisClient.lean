import Doppelganger.Lib.OncePerProcess

/-!
# One Redis pool per process

`get_redis` step by step: every read and write of `_client` and `_pid`, and every
operation on the lock, is a step of its own, in any number of threads of a process
and along any chain of forks. A client is named by its place in `clients`, the list
of the processes that made one.

The callers follow `OncePerProcess`; `_client` is written before `_pid`, so a caller
that finds its own id finds a client of its own process (`Inv.own`).
-/

namespace Doppelganger

namespace RedisClient

open OncePerProcess (Phase)

/-- Where a call of `get_redis` stands. -/
inductive Pc where
  /-- At `_client is not None`. -/
  | testingClient
  /-- At `_pid == os.getpid()`. -/
  | testingPid
  | acquiring
  /-- Under the lock, at `_client is None`. -/
  | retestingClient
  /-- At `_pid != os.getpid()`. -/
  | retestingPid
  /-- About to make the pool and its client. -/
  | creating
  /-- At `_client = redis.Redis(connection_pool=pool)`. -/
  | storing (client : ℕ)
  /-- At `_pid = os.getpid()`. -/
  | stamping
  /-- Making the client has raised. -/
  | unwinding
  | releasing
  /-- At `return _client`. -/
  | returning
  | returned (client : Option ℕ)
  | raised
deriving DecidableEq

def Pc.phase : Pc → Phase
  | .testingClient => .testing
  | .testingPid => .testing
  | .acquiring => .acquiring
  | .retestingClient => .retesting
  | .retestingPid => .retesting
  | .creating => .working
  | .storing _ => .working
  | .stamping => .working
  | .unwinding => .working
  | .releasing => .releasing
  | .returning => .through
  | .returned _ => .through
  | .raised => .outside

/-- A client has been made and `_pid` is not written. -/
def Pc.made : Pc → Bool
  | .storing _ => true
  | .stamping => true
  | _ => false

/-- A process. -/
@[ext] structure State where
  pid : ℕ
  pids : List ℕ
  /-- `_lock` -/
  lock : Option ℕ
  /-- `_client` -/
  client : Option ℕ
  /-- `_pid` -/
  stamp : Option ℕ
  /-- The processes that made the clients there are. -/
  clients : List ℕ
  calls : ℕ → Option Pc

inductive Label where
  /-- Thread `i` calls `get_redis`. -/
  | call (i : ℕ)
  /-- The next step of call `i`. -/
  | act (i : ℕ)
  /-- Making the client raises in call `i`. -/
  | raise (i : ℕ)
  /-- The process forks; from here on, the child. -/
  | fork (pid : ℕ)
deriving DecidableEq

namespace State

/-- A process that has just started. -/
def init (pid : ℕ) : State := ⟨pid, [pid], none, none, none, [], fun _ => none⟩

def goto (σ : State) (i : ℕ) (pc : Pc) : State :=
  { σ with calls := Function.update σ.calls i (some pc) }

/-- Call `i`, which is at `pc`, goes on. -/
def act (σ : State) (i : ℕ) : Pc → Option State
  | .testingClient => some (σ.goto i (if σ.client.isSome then .testingPid else .acquiring))
  | .testingPid => some (σ.goto i (if σ.stamp = some σ.pid then .returning else .acquiring))
  | .acquiring =>
    if σ.lock = none then some { σ.goto i .retestingClient with lock := some i } else none
  | .retestingClient => some (σ.goto i (if σ.client.isNone then .creating else .retestingPid))
  | .retestingPid => some (σ.goto i (if σ.stamp ≠ some σ.pid then .creating else .releasing))
  | .creating =>
    some { σ.goto i (.storing σ.clients.length) with clients := σ.clients ++ [σ.pid] }
  | .storing client => some { σ.goto i .stamping with client := some client }
  | .stamping => some { σ.goto i .releasing with stamp := some σ.pid }
  | .unwinding => some { σ.goto i .raised with lock := none }
  | .releasing => some { σ.goto i .returning with lock := none }
  | .returning => some (σ.goto i (.returned σ.client))
  | .returned _ => none
  | .raised => none

def step : Label → State → Option State
  | .call i, σ =>
    match σ.calls i with
    | none => some (σ.goto i .testingClient)
    | some _ => none
  | .act i, σ => (σ.calls i).bind (σ.act i)
  | .raise i, σ => if σ.calls i = some .creating then some (σ.goto i .unwinding) else none
  | .fork pid, σ =>
    -- only the thread that forks lives on in the child
    if σ.lock = none ∧ pid ∉ σ.pids then
      some { σ with pid := pid, pids := pid :: σ.pids, calls := fun _ => none }
    else none

end State

/-- `get_redis` in a process that starts as `pid`. -/
def getRedis (pid : ℕ) : Lts State Label := ⟨State.init pid, State.step⟩

/-! ## The invariant -/

/-- What the calls share, and where they stand. -/
def State.view (σ : State) : OncePerProcess.View ℕ where
  pid := σ.pid
  pids := σ.pids
  stamp := σ.stamp
  lock := σ.lock
  phase := fun i => (σ.calls i).elim .outside Pc.phase

/-- Client `c` was made in this process. -/
def State.Own (σ : State) (c : Option ℕ) : Prop := ∃ k, c = some k ∧ σ.clients[k]? = some σ.pid

/-- What a call knows. -/
def State.CallOk (σ : State) : Pc → Prop
  | .storing client => σ.Own (some client)
  | .stamping => σ.Own σ.client
  | .returned client => σ.Own client
  | _ => True

structure Inv (σ : State) : Prop where
  once : OncePerProcess.Inv σ.view
  /-- `_client` is written before `_pid`. -/
  own : σ.stamp = some σ.pid → σ.Own σ.client
  calls : ∀ i pc, σ.calls i = some pc → σ.CallOk pc
  known : ∀ p ∈ σ.clients, p ∈ σ.pids
  one : ∀ p, σ.clients.count p ≤ 1
  unmade : σ.stamp ≠ some σ.pid → (∀ i pc, σ.calls i = some pc → pc.made = false) →
    σ.clients.count σ.pid = 0

section

variable {σ σ' : State} {i : ℕ} {pc pc' : Pc}

theorem view_goto (σ : State) (i : ℕ) (pc : Pc) : (σ.goto i pc).view = σ.view.to i pc.phase := by
  ext j
  · rfl
  · rfl
  · rfl
  · rfl
  · simp only [State.view, State.goto, OncePerProcess.to_phase, Function.update_apply]
    split_ifs <;> rfl

theorem phase_of_call (h : σ.calls i = some pc) : σ.view.phase i = pc.phase := by
  simp [State.view, h]

theorem goto_calls {j : ℕ} {pc₁ : Pc} (h : (σ.goto i pc).calls j = some pc₁) :
    (j = i ∧ pc₁ = pc) ∨ (j ≠ i ∧ σ.calls j = some pc₁) := by
  by_cases hj : j = i
  · subst hj
    exact Or.inl ⟨rfl, by simpa [State.goto] using h.symm⟩
  · exact Or.inr ⟨hj, by simpa [State.goto, hj] using h⟩

/-- A step that writes neither variable and makes nothing; the lock may change hands. -/
theorem Inv.goto (hi : Inv σ) (lock : Option ℕ)
    (honce : OncePerProcess.Inv { σ.view.to i pc'.phase with lock := lock })
    (hok : σ.CallOk pc') (hmade : ∀ pc, σ.calls i = some pc → pc.made = true → pc'.made = true) :
    Inv { σ.goto i pc' with lock := lock } where
  once := by
    have hview : ({ σ.goto i pc' with lock := lock } : State).view =
        { (σ.goto i pc').view with lock := lock } := rfl
    rw [hview, view_goto]
    exact honce
  own := hi.own
  calls := by
    intro j pc₁ h
    rcases goto_calls h with ⟨_, rfl⟩ | ⟨_, hj⟩
    · exact hok
    · exact hi.calls j pc₁ hj
  known := hi.known
  one := hi.one
  unmade := by
    intro hstamp hnot
    refine hi.unmade hstamp ?_
    intro j pc₁ hj
    by_cases hji : j = i
    · subst hji
      by_contra hne
      have hyes := hmade pc₁ hj (by simpa using hne)
      have hno : pc'.made = false := hnot j pc' (by simp [State.goto])
      rw [hyes] at hno
      cases hno
    · exact hnot j pc₁ (by simpa [State.goto, hji] using hj)

/-- The same, with the lock left alone. -/
theorem Inv.move (hi : Inv σ) (hpc : σ.calls i = some pc)
    (hstep : pc'.phase = pc.phase ∨ OncePerProcess.Step σ.view (σ.view.to i pc'.phase))
    (hok : σ.CallOk pc') (hmade : pc.made = true → pc'.made = true) : Inv (σ.goto i pc') := by
  refine hi.goto σ.lock ?_ hok ?_
  · rcases hstep with hsame | hstep
    · show OncePerProcess.Inv (σ.view.to i pc'.phase)
      rw [hsame, OncePerProcess.to_self (phase_of_call hpc)]
      exact hi.once
    · exact hi.once.step hstep
  · intro pc₁ hpc₁
    obtain rfl := Option.some.inj (hpc.symm.trans hpc₁)
    exact hmade

theorem State.Own.append {c : Option ℕ} (h : σ.Own c) (p : ℕ) {calls : ℕ → Option Pc} :
    ({ σ with clients := σ.clients ++ [p], calls } : State).Own c := by
  rcases h with ⟨k, rfl, hk⟩
  have hlt : k < σ.clients.length := (List.getElem?_eq_some_iff.mp hk).1
  exact ⟨k, rfl, by rw [List.getElem?_append_left hlt, hk]⟩

/-- While a call makes the client, no other call has made one, and none is through. -/
theorem Inv.none_made (hi : Inv σ) (hpc : σ.calls i = some .creating) :
    σ.clients.count σ.pid = 0 := by
  have hphase := phase_of_call hpc
  refine hi.unmade (hi.once.working i hphase) ?_
  intro j pc hj
  by_contra hmade
  have hworking : pc.phase = .working := by
    cases pc <;> simp [Pc.made] at hmade <;> rfl
  have hphase' := phase_of_call hj
  have heq : j = i := hi.once.sole (by rw [hphase', hworking]; rfl) (by rw [hphase]; rfl)
  subst heq
  obtain rfl := Option.some.inj (hpc.symm.trans hj)
  exact hmade rfl

theorem Inv.create (hi : Inv σ) (hpc : σ.calls i = some .creating) :
    Inv { σ.goto i (.storing σ.clients.length) with clients := σ.clients ++ [σ.pid] } := by
  have hzero := hi.none_made hpc
  have hview : ({ σ.goto i (.storing σ.clients.length) with
      clients := σ.clients ++ [σ.pid] } : State).view = σ.view := by
    refine (view_goto σ i (.storing σ.clients.length)).trans ?_
    exact OncePerProcess.to_self (p := .working) (phase_of_call hpc)
  constructor
  · rw [hview]
    exact hi.once
  · intro hstamp
    exact (hi.own hstamp).append σ.pid
  · intro j pc₁ h
    rcases goto_calls h with ⟨_, rfl⟩ | ⟨_, hj⟩
    · exact ⟨σ.clients.length, rfl, by simp [State.goto]⟩
    · have hok := hi.calls j pc₁ hj
      cases pc₁ <;> first | trivial | exact State.Own.append hok σ.pid
  · intro p hp
    rcases List.mem_append.mp hp with hp | hp
    · exact hi.known p hp
    · obtain rfl := List.mem_singleton.mp hp
      exact hi.once.current
  · intro p
    show (σ.clients ++ [σ.pid]).count p ≤ 1
    rw [List.count_append, List.count_singleton]
    by_cases hp : p = σ.pid
    · subst hp
      simp [hzero]
    · have hone := hi.one p
      simpa [Ne.symm hp] using hone
  · intro _ hnot
    have hmade := hnot i (.storing σ.clients.length) (by simp [State.goto])
    cases hmade

theorem Inv.store (hi : Inv σ) {c : ℕ} (hpc : σ.calls i = some (.storing c)) :
    Inv { σ.goto i .stamping with client := some c } := by
  have hown : σ.Own (some c) := hi.calls i _ hpc
  have hphase := phase_of_call hpc
  have hview : ({ σ.goto i .stamping with client := some c } : State).view = σ.view := by
    refine (view_goto σ i .stamping).trans ?_
    exact OncePerProcess.to_self (p := .working) hphase
  constructor
  · rw [hview]
    exact hi.once
  · intro hstamp
    exact absurd hstamp (hi.once.working i hphase)
  · intro j pc₁ h
    rcases goto_calls h with ⟨_, rfl⟩ | ⟨hj, hj'⟩
    · exact hown
    · have hok := hi.calls j pc₁ hj'
      cases pc₁ with
      | stamping =>
        -- one call at a time is in the work
        have hphase' := phase_of_call hj'
        exact absurd (hi.once.sole (by rw [hphase']; rfl) (by rw [hphase]; rfl)) hj
      | _ => exact hok
  · exact hi.known
  · exact hi.one
  · intro _ hnot
    have hmade := hnot i .stamping (by simp [State.goto])
    cases hmade

theorem Inv.stampPid (hi : Inv σ) (hpc : σ.calls i = some .stamping) :
    Inv { σ.goto i .releasing with stamp := some σ.pid } := by
  have hown : σ.Own σ.client := hi.calls i _ hpc
  have hview : ({ σ.goto i .releasing with stamp := some σ.pid } : State).view =
      { σ.view.to i .releasing with stamp := some σ.pid } := by
    have hgoto := view_goto σ i .releasing
    rw [OncePerProcess.View.ext_iff] at hgoto ⊢
    exact ⟨hgoto.1, hgoto.2.1, rfl, hgoto.2.2.2.1, hgoto.2.2.2.2⟩
  constructor
  · rw [hview]
    exact hi.once.step (.stamp i (phase_of_call hpc))
  · exact fun _ => hown
  · intro j pc₁ h
    rcases goto_calls h with ⟨_, rfl⟩ | ⟨_, hj⟩
    · trivial
    · exact hi.calls j pc₁ hj
  · exact hi.known
  · exact hi.one
  · exact fun hstamp => absurd rfl hstamp

theorem Inv.fork (hi : Inv σ) {pid : ℕ} (hlock : σ.lock = none) (hnew : pid ∉ σ.pids) :
    Inv { σ with pid := pid, pids := pid :: σ.pids, calls := fun _ => none } where
  once := hi.once.step (.fork pid hlock hnew)
  own := fun hstamp => absurd hstamp (hi.once.fork_stamp hnew)
  calls := nofun
  known := fun p hp => List.mem_cons_of_mem _ (hi.known p hp)
  one := hi.one
  unmade := fun _ _ => List.count_eq_zero_of_not_mem fun hmem => hnew (hi.known pid hmem)

/-- One step of a call. -/
theorem Inv.act (hi : Inv σ) (hpc : σ.calls i = some pc) (h : σ.act i pc = some σ') : Inv σ' := by
  have hphase := phase_of_call hpc
  cases pc with
  | testingClient =>
    obtain rfl := Option.some.inj h
    by_cases hclient : σ.client.isSome = true
    · rw [if_pos hclient]
      exact hi.move hpc (Or.inl rfl) trivial nofun
    · rw [if_neg hclient]
      exact hi.move hpc (Or.inr (.miss i hphase)) trivial nofun
  | testingPid =>
    obtain rfl := Option.some.inj h
    by_cases hstamp : σ.stamp = some σ.pid
    · rw [if_pos hstamp]
      exact hi.move hpc (Or.inr (.hit i hphase hstamp)) trivial nofun
    · rw [if_neg hstamp]
      exact hi.move hpc (Or.inr (.miss i hphase)) trivial nofun
  | acquiring =>
    by_cases hlock : σ.lock = none
    · simp only [State.act, hlock, if_true, Option.some.injEq] at h
      subst h
      refine hi.goto (some i) (hi.once.step (.acquire i hphase hlock)) trivial ?_
      intro pc₁ hpc₁
      obtain rfl := Option.some.inj (hpc.symm.trans hpc₁)
      exact nofun
    · simp [State.act, hlock] at h
  | retestingClient =>
    obtain rfl := Option.some.inj h
    by_cases hclient : σ.client.isNone = true
    · rw [if_pos hclient]
      -- no client, so none of this process
      have hstamp : σ.stamp ≠ some σ.pid := by
        intro hstamp
        rcases hi.own hstamp with ⟨k, hk, _⟩
        simp [hk] at hclient
      exact hi.move hpc (Or.inr (.begin i hphase hstamp)) trivial nofun
    · rw [if_neg hclient]
      exact hi.move hpc (Or.inl rfl) trivial nofun
  | retestingPid =>
    obtain rfl := Option.some.inj h
    by_cases hstamp : σ.stamp = some σ.pid
    · rw [if_neg (not_not.mpr hstamp)]
      exact hi.move hpc (Or.inr (.found i hphase hstamp)) trivial nofun
    · rw [if_pos hstamp]
      exact hi.move hpc (Or.inr (.begin i hphase hstamp)) trivial nofun
  | creating =>
    obtain rfl := Option.some.inj h
    exact hi.create hpc
  | storing c =>
    obtain rfl := Option.some.inj h
    exact hi.store hpc
  | stamping =>
    obtain rfl := Option.some.inj h
    exact hi.stampPid hpc
  | unwinding =>
    obtain rfl := Option.some.inj h
    refine hi.goto none (hi.once.step (.giveUp i hphase)) trivial ?_
    intro pc₁ hpc₁
    obtain rfl := Option.some.inj (hpc.symm.trans hpc₁)
    exact nofun
  | releasing =>
    obtain rfl := Option.some.inj h
    refine hi.goto none (hi.once.step (.release i hphase)) trivial ?_
    intro pc₁ hpc₁
    obtain rfl := Option.some.inj (hpc.symm.trans hpc₁)
    exact nofun
  | returning =>
    obtain rfl := Option.some.inj h
    have hown := hi.own (hi.once.released i (Or.inr hphase))
    exact hi.move hpc (Or.inl rfl) hown nofun
  | returned c => cases h
  | raised => cases h

theorem Inv.step {l : Label} (hi : Inv σ) (h : State.step l σ = some σ') : Inv σ' := by
  cases l with
  | call i =>
    cases hcall : σ.calls i with
    | some pc => simp [State.step, hcall] at h
    | none =>
      simp only [State.step, hcall, Option.some.injEq] at h
      subst h
      have hphase : σ.view.phase i = .outside := by simp [State.view, hcall]
      refine hi.goto σ.lock (hi.once.step (.enter i hphase)) trivial ?_
      intro pc hpc
      rw [hcall] at hpc
      cases hpc
  | act i =>
    rcases Option.bind_eq_some_iff.mp h with ⟨pc, hpc, hact⟩
    exact hi.act hpc hact
  | raise i =>
    by_cases hpc : σ.calls i = some .creating
    · simp only [State.step, hpc, if_true, Option.some.injEq] at h
      subst h
      exact hi.move hpc (Or.inl rfl) trivial nofun
    · simp [State.step, hpc] at h
  | fork pid =>
    by_cases hfork : σ.lock = none ∧ pid ∉ σ.pids
    · rw [State.step, if_pos hfork] at h
      obtain rfl := Option.some.inj h
      exact hi.fork hfork.1 hfork.2
    · rw [State.step, if_neg hfork] at h
      cases h

theorem Inv.init (pid : ℕ) : Inv (State.init pid) where
  once := OncePerProcess.Inv.init pid
  own := nofun
  calls := nofun
  known := nofun
  one := fun p => by simp [State.init]
  unmade := fun _ _ => rfl

end

/-- In a process that has just started and in every child of a chain of forks, however the calls of
`get_redis` interleave: what a call returns is a client, made in the process of the call, and no
process makes two. -/
theorem one_pool_per_process {pid : ℕ} {σ : State} (h : (getRedis pid).Reach Lts.anyStep σ) :
    (∀ i client, σ.calls i = some (.returned client) →
      ∃ k, client = some k ∧ σ.clients[k]? = some σ.pid) ∧
    ∀ p, σ.clients.count p ≤ 1 := by
  have hi : Inv σ := h.invariant (Inv.init pid) fun _ _ _ _ hs hi => hi.step hs
  exact ⟨fun i client hcall => hi.calls i _ hcall, hi.one⟩

namespace Sample

/-- A call from its first test to its return, where there is no client yet. -/
def firstCall (i : ℕ) : List Label := .call i :: List.replicate 8 (.act i)

/-- Two threads of a process ask for the client at once, one of them gets it first; a child asks
again. -/
def forked : List Label := List.flatten
  [[.call 0, .act 0], firstCall 1, List.replicate 5 (.act 0), [.fork 8, .call 2],
    List.replicate 10 (.act 2)]

end Sample

/-- It applies to a call in the child of a process that has a client. -/
theorem one_pool_per_process_sample :
    ∃ client, ((getRedis 7).after Sample.forked).calls 2 = some (.returned client) ∧
      ∃ k, client = some k ∧ ((getRedis 7).after Sample.forked).clients[k]? =
        some ((getRedis 7).after Sample.forked).pid := by
  have hrun := (getRedis 7).run_after Sample.forked (by decide +kernel)
  have hcall : ((getRedis 7).after Sample.forked).calls 2 = some (.returned (some 1)) := by
    decide +kernel
  exact ⟨some 1, hcall, (one_pool_per_process ⟨_, hrun⟩).1 2 _ hcall⟩

end RedisClient

end Doppelganger
