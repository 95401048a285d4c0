import Doppelganger.Lib.Lts

/-!
# Once per process

A resource that every process makes for itself, on first use: a variable holds the id
of the process that made it, and a caller

* tests the variable without the lock,
* takes the lock and tests it again,
* does the work, writes the variable, releases the lock.

A fork copies the variable; the child has another id, one thread and a free lock. What
the work is does not matter here: a machine whose steps are `Step`s of its `View`, or
leave it alone, does the work with no other caller in it or through (`Inv.sole`,
`Inv.not_through`), and not again once a caller is through.
-/

universe u

namespace OncePerProcess

/-- Where a caller stands. -/
inductive Phase where
  | outside
  /-- At the test without the lock. -/
  | testing
  | acquiring
  /-- At the test under the lock. -/
  | retesting
  /-- In the work, up to the write of the variable. -/
  | working
  | releasing
  /-- Past the whole of it. -/
  | through
deriving DecidableEq

/-- Between acquiring and releasing the lock. -/
def Phase.holds : Phase → Bool
  | .retesting => true
  | .working => true
  | .releasing => true
  | _ => false

/-- What the callers share, and where they stand. -/
@[ext] structure View (ι : Type u) where
  pid : ℕ
  /-- The processes from the first one on, this one included. -/
  pids : List ℕ
  /-- The variable. -/
  stamp : Option ℕ
  lock : Option ι
  phase : ι → Phase

variable {ι : Type u}

/-- Caller `i` goes on to `p`. -/
def View.to [DecidableEq ι] (v : View ι) (i : ι) (p : Phase) : View ι :=
  { v with phase := Function.update v.phase i p }

/-- One step of one caller, or a fork. -/
inductive Step [DecidableEq ι] (v : View ι) : View ι → Prop
  | enter (i : ι) : v.phase i = .outside → Step v (v.to i .testing)
  | hit (i : ι) : v.phase i = .testing → v.stamp = some v.pid → Step v (v.to i .through)
  | miss (i : ι) : v.phase i = .testing → Step v (v.to i .acquiring)
  | acquire (i : ι) : v.phase i = .acquiring → v.lock = none →
      Step v { v.to i .retesting with lock := some i }
  | found (i : ι) : v.phase i = .retesting → v.stamp = some v.pid → Step v (v.to i .releasing)
  | begin (i : ι) : v.phase i = .retesting → v.stamp ≠ some v.pid → Step v (v.to i .working)
  | stamp (i : ι) : v.phase i = .working →
      Step v { v.to i .releasing with stamp := some v.pid }
  /-- The work has raised. -/
  | giveUp (i : ι) : v.phase i = .working → Step v { v.to i .outside with lock := none }
  | release (i : ι) : v.phase i = .releasing → Step v { v.to i .through with lock := none }
  | leave (i : ι) : v.phase i = .through → Step v (v.to i .outside)
  | fork (pid : ℕ) : v.lock = none → pid ∉ v.pids →
      Step v { v with pid, pids := pid :: v.pids, phase := fun _ => .outside }

/-- What the phases say of the shared variables. -/
structure Inv (v : View ι) : Prop where
  current : v.pid ∈ v.pids
  stamped : ∀ p, v.stamp = some p → p ∈ v.pids
  locked : ∀ i, (v.phase i).holds = true ↔ v.lock = some i
  working : ∀ i, v.phase i = .working → v.stamp ≠ some v.pid
  released : ∀ i, v.phase i = .releasing ∨ v.phase i = .through → v.stamp = some v.pid

section

variable {v v' : View ι}

/-- Nobody has called yet. -/
theorem Inv.init (pid : ℕ) : Inv (⟨pid, [pid], none, none, fun _ => .outside⟩ : View ι) where
  current := List.mem_singleton.mpr rfl
  stamped := nofun
  locked := fun i => ⟨nofun, nofun⟩
  working := nofun
  released := by
    intro i h
    rcases h with h | h <;> cases h

/-- Two callers do not hold the lock at once. -/
theorem Inv.sole (hi : Inv v) {i j : ι} (h : (v.phase i).holds = true)
    (h' : (v.phase j).holds = true) : i = j := by
  have hlock := (hi.locked i).mp h
  rw [(hi.locked j).mp h'] at hlock
  exact (Option.some.inj hlock).symm

/-- While a caller is in the work, none is through. -/
theorem Inv.not_through (hi : Inv v) {i : ι} (h : v.phase i = .working) (j : ι) :
    v.phase j ≠ .through := fun hj => hi.working i h (hi.released j (Or.inr hj))

/-- The child of a fork has not made the resource. -/
theorem Inv.fork_stamp (hi : Inv v) {pid : ℕ} (hnew : pid ∉ v.pids) : v.stamp ≠ some pid :=
  fun h => hnew (hi.stamped pid h)

variable [DecidableEq ι]

@[simp] theorem to_pid (v : View ι) (i : ι) (p : Phase) : (v.to i p).pid = v.pid := rfl
@[simp] theorem to_pids (v : View ι) (i : ι) (p : Phase) : (v.to i p).pids = v.pids := rfl
@[simp] theorem to_stamp (v : View ι) (i : ι) (p : Phase) : (v.to i p).stamp = v.stamp := rfl
@[simp] theorem to_lock (v : View ι) (i : ι) (p : Phase) : (v.to i p).lock = v.lock := rfl

theorem to_phase (v : View ι) (i j : ι) (p : Phase) :
    (v.to i p).phase j = if j = i then p else v.phase j := by
  simp [View.to, Function.update_apply]

/-- A caller that stays in its phase. -/
theorem to_self {i : ι} {p : Phase} (h : v.phase i = p) : v.to i p = v := by
  rw [View.to, ← h, Function.update_eq_self]

/-- A step within the lock, or outside it, by which the lock does not change hands. -/
theorem Inv.move (hi : Inv v) {i : ι} {p : Phase} (hholds : p.holds = (v.phase i).holds)
    (hworking : p = .working → v.stamp ≠ some v.pid)
    (hreleased : p = .releasing ∨ p = .through → v.stamp = some v.pid) : Inv (v.to i p) where
  current := hi.current
  stamped := hi.stamped
  locked := by
    intro j
    rw [to_phase, to_lock, ← hi.locked j]
    split_ifs with hj
    · rw [hj, hholds]
    · rfl
  working := by
    intro j
    rw [to_phase]
    split_ifs with hj
    · exact hworking
    · exact hi.working j
  released := by
    intro j
    rw [to_phase]
    split_ifs with hj
    · exact hreleased
    · exact hi.released j

/-- The lock is given back. -/
theorem Inv.unlock (hi : Inv v) {i : ι} {p : Phase} (hheld : (v.phase i).holds = true)
    (hholds : p.holds = false) (hreleased : p = .through → v.stamp = some v.pid) :
    Inv { v.to i p with lock := none } where
  current := hi.current
  stamped := hi.stamped
  locked := by
    intro j
    show ((v.to i p).phase j).holds = true ↔ none = some j
    rw [to_phase]
    split_ifs with hj
    · simp [hholds]
    · have hlock := (hi.locked i).mp hheld
      have hno : ¬ (v.phase j).holds = true := by
        intro hjheld
        have hjlock := (hi.locked j).mp hjheld
        rw [hlock] at hjlock
        exact hj (Option.some.inj hjlock).symm
      simp [hno]
  working := by
    intro j
    show (v.to i p).phase j = .working → v.stamp ≠ some v.pid
    rw [to_phase]
    split_ifs with hj
    · rintro rfl
      cases hholds
    · exact hi.working j
  released := by
    intro j
    show (v.to i p).phase j = .releasing ∨ (v.to i p).phase j = .through → v.stamp = some v.pid
    rw [to_phase]
    split_ifs with hj
    · rintro (rfl | hp)
      · cases hholds
      · exact hreleased hp
    · exact hi.released j

theorem Inv.step (hi : Inv v) (h : Step v v') : Inv v' := by
  cases h with
  | enter i hp => exact hi.move (by rw [hp]; rfl) nofun (by rintro (h | h) <;> cases h)
  | hit i hp hstamp => exact hi.move (by rw [hp]; rfl) nofun fun _ => hstamp
  | miss i hp => exact hi.move (by rw [hp]; rfl) nofun (by rintro (h | h) <;> cases h)
  | acquire i hp hlock =>
    refine ⟨hi.current, hi.stamped, ?_, ?_, ?_⟩
    · intro j
      show ((v.to i .retesting).phase j).holds = true ↔ some i = some j
      rw [to_phase]
      split_ifs with hj
      · simp [hj, Phase.holds]
      · have hno : ¬ (v.phase j).holds = true := by
          rw [hi.locked j, hlock]
          exact nofun
        simp [hno, Ne.symm hj]
    · intro j
      show (v.to i .retesting).phase j = .working → v.stamp ≠ some v.pid
      rw [to_phase]
      split_ifs
      · exact nofun
      · exact hi.working j
    · intro j
      show (v.to i .retesting).phase j = .releasing ∨ (v.to i .retesting).phase j = .through →
        v.stamp = some v.pid
      rw [to_phase]
      split_ifs
      · rintro (h | h) <;> cases h
      · exact hi.released j
  | found i hp hstamp => exact hi.move (by rw [hp]; rfl) nofun fun _ => hstamp
  | begin i hp hstamp =>
    exact hi.move (by rw [hp]; rfl) (fun _ => hstamp) (by rintro (h | h) <;> cases h)
  | stamp i hp =>
    have hheld : (v.phase i).holds = true := by rw [hp]; rfl
    refine ⟨hi.current, ?_, ?_, ?_, fun _ _ => rfl⟩
    · rintro p ⟨rfl⟩
      exact hi.current
    · intro j
      show ((v.to i .releasing).phase j).holds = true ↔ v.lock = some j
      rw [to_phase, ← hi.locked j]
      split_ifs with hj
      · rw [hj, hheld]
        rfl
      · rfl
    · intro j hj
      -- the lock is held, so nobody else is in the work
      exfalso
      have hj' : (v.to i .releasing).phase j = .working := hj
      rw [to_phase] at hj'
      split_ifs at hj' with hji
      exact hji (hi.sole (by rw [hj']; rfl) hheld)
  | giveUp i hp => exact hi.unlock (by rw [hp]; rfl) rfl nofun
  | release i hp =>
    exact hi.unlock (by rw [hp]; rfl) rfl fun _ => hi.released i (Or.inl hp)
  | leave i hp => exact hi.move (by rw [hp]; rfl) nofun (by rintro (h | h) <;> cases h)
  | fork pid hlock hnew =>
    refine ⟨List.mem_cons_self, fun p hp => List.mem_cons_of_mem _ (hi.stamped p hp), ?_, nofun, ?_⟩
    · intro i
      show Phase.holds .outside = true ↔ v.lock = some i
      rw [hlock]
      exact ⟨nofun, nofun⟩
    · intro i h
      rcases h with h | h <;> cases h

end

end OncePerProcess
