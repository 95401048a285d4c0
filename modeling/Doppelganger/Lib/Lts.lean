import Mathlib.Tactic

/-!
# Deterministic labelled machines

A machine steps on labels, and a label carries every choice of the environment,
so a run is a list of labels. These rules are derived from the definition:

* `Run.invariant` — induction over a run whose steps all meet a side condition;
* `Run.countP_add_rank_le` — a bound on the steps of one kind, from a rank they lower
  (`Run.countP_add_rank_le_mul` where steps of another kind raise it);
* `Run.always_iff` — a property of states that a step keeps exactly under a condition, over
  the states of a run;
* `Run.keeps_or_sometime` — what only a step from a state with a certain property can break;
* `Run.simulate` — two runs on related labels stay in related states (the rule
  behind every two-run property);
* `Run.project` — a machine beside another that moves at some of its steps;
* `Run.charge` — an invariant that speaks of what a run has cost so far;
* `Can` — what a run from here can bring about;
* `Run.split` / `Run.append` — cutting a run at a step and glueing it again.
-/

universe u v

/-- A deterministic labelled machine; `step` is partial, a refused label is `none`. -/
structure Lts (σ : Type u) (α : Type v) where
  init : σ
  step : α → σ → Option σ

namespace Lts

variable {σ : Type u} {α : Type v} (M : Lts σ α)

/-- A side condition on steps: the label and the state it is taken in. -/
abbrev Guard (σ : Type u) (α : Type v) := α → σ → Prop

/-- `M.Run ok s ls t`: the labels `ls` lead from `s` to `t` and every step meets `ok`. -/
inductive Run (ok : Guard σ α) : σ → List α → σ → Prop
  | nil (s : σ) : Run ok s [] s
  | cons {s t u : σ} {l : α} {ls : List α} :
      ok l s → M.step l s = some t → Run ok t ls u → Run ok s (l :: ls) u

/-- No side condition. -/
def anyStep : Guard σ α := fun _ _ => True

/-- States reached from the initial one by steps that meet `ok`. -/
def Reach (ok : Guard σ α) (t : σ) : Prop := ∃ ls, M.Run ok M.init ls t

/-- Steps that meet `ok` can lead from `s` to a state with `P`. -/
def Can (ok : Guard σ α) (P : σ → Prop) (s : σ) : Prop := ∃ ls t, M.Run ok s ls t ∧ P t

/-- Execute a list of labels. -/
def exec : List α → σ → Option σ
  | [], s => some s
  | l :: ls, s => (M.step l s).bind (exec ls)

/-- `P` holds in every state that the labels lead through. -/
def Always (P : σ → Prop) (s : σ) (ls : List α) : Prop :=
  ∀ before t, before <+: ls → M.exec before s = some t → P t

/-- `P` holds in some state that the labels lead through. -/
def Sometime (P : σ → Prop) (s : σ) (ls : List α) : Prop :=
  ∃ before t, before <+: ls ∧ M.exec before s = some t ∧ P t

/-- The state after a list of labels from the start (the initial state where one is refused). -/
def after (ls : List α) : σ := (M.exec ls M.init).getD M.init

variable {M} {ok : Guard σ α} {s t u : σ} {l : α} {ls ls' : List α}

theorem run_of_exec (h : M.exec ls s = some t) : M.Run anyStep s ls t := by
  induction ls generalizing s with
  | nil =>
    obtain rfl : s = t := by simpa [exec] using h
    exact Run.nil s
  | cons l ls ih =>
    rcases Option.bind_eq_some_iff.mp h with ⟨s', hs, ht⟩
    exact Run.cons trivial hs (ih ht)

theorem exec_after (M : Lts σ α) (ls : List α) (h : (M.exec ls M.init).isSome = true) :
    M.exec ls M.init = some (M.after ls) := by
  rcases Option.isSome_iff_exists.mp h with ⟨t, ht⟩
  simp [after, ht]

theorem run_after (M : Lts σ α) (ls : List α) (h : (M.exec ls M.init).isSome = true) :
    M.Run anyStep M.init ls (M.after ls) :=
  run_of_exec (M.exec_after ls h)

theorem exec_append : M.exec (ls ++ ls') s = (M.exec ls s).bind (M.exec ls') := by
  induction ls generalizing s with
  | nil => rfl
  | cons l ls ih =>
    simp only [List.cons_append, exec, Option.bind_assoc]
    exact congrArg _ (funext fun s' => ih)

theorem step_after (M : Lts σ α) (ls : List α) (l : α)
    (h : (M.exec (ls ++ [l]) M.init).isSome = true) :
    M.step l (M.after ls) = some (M.after (ls ++ [l])) := by
  rcases Option.isSome_iff_exists.mp h with ⟨t, ht⟩
  have hlast := ht
  rw [exec_append] at hlast
  rcases Option.bind_eq_some_iff.mp hlast with ⟨s, hs, hstep⟩
  have hstep' : M.step l s = some t := by simpa [exec] using hstep
  simp [after, hs, ht, hstep']

theorem exec_of_run (h : M.Run ok s ls t) : M.exec ls s = some t := by
  induction h with
  | nil s => rfl
  | cons _ hs _ ih => simp [exec, hs, ih]

@[simp] theorem run_nil_iff : M.Run ok s [] t ↔ s = t := by
  constructor
  · intro h
    cases h
    rfl
  · rintro rfl
    exact Run.nil s

theorem run_cons_iff :
    M.Run ok s (l :: ls) u ↔ ok l s ∧ ∃ t, M.step l s = some t ∧ M.Run ok t ls u := by
  constructor
  · intro h
    cases h with
    | cons hok hs hr => exact ⟨hok, _, hs, hr⟩
  · rintro ⟨hok, t, hs, hr⟩
    exact Run.cons hok hs hr

namespace Run

theorem single (hok : ok l s) (h : M.step l s = some t) : M.Run ok s [l] t :=
  Run.cons hok h (Run.nil t)

theorem append (h₁ : M.Run ok s ls t) (h₂ : M.Run ok t ls' u) : M.Run ok s (ls ++ ls') u := by
  induction h₁ with
  | nil s => exact h₂
  | cons hok hs _ ih => exact Run.cons hok hs (ih h₂)

theorem split (h : M.Run ok s (ls ++ ls') u) : ∃ t, M.Run ok s ls t ∧ M.Run ok t ls' u := by
  induction ls generalizing s with
  | nil => exact ⟨s, Run.nil s, h⟩
  | cons l ls ih =>
    rcases run_cons_iff.mp h with ⟨hok, t, hs, hr⟩
    rcases ih hr with ⟨t', h₁, h₂⟩
    exact ⟨t', Run.cons hok hs h₁, h₂⟩

/-- A weaker side condition admits the same run. -/
theorem mono {ok' : Guard σ α} (himp : ∀ l s, ok l s → ok' l s) (h : M.Run ok s ls t) :
    M.Run ok' s ls t := by
  induction h with
  | nil s => exact Run.nil s
  | cons hok hs _ ih => exact Run.cons (himp _ _ hok) hs ih

/-- A side condition that follows from what came before each step. -/
theorem strengthen {ok' : Guard σ α} (h : M.Run ok s ls t)
    (hok : ∀ ls₁ l ls₂ s', ls = ls₁ ++ l :: ls₂ → M.Run ok s ls₁ s' → ok' l s') :
    M.Run ok' s ls t := by
  induction h with
  | nil s => exact Run.nil s
  | cons hl hs _ ih =>
    refine Run.cons (hok [] _ _ _ rfl (Run.nil _)) hs (ih ?_)
    intro ls₁ l' ls₂ s' he hr
    exact hok (_ :: ls₁) l' ls₂ s' (by rw [he]; rfl) (Run.cons hl hs hr)

/-- Side conditions on the labels alone can be read off the label list. -/
theorem of_labels {p : α → Prop} (h : M.Run ok s ls t) (hp : ∀ l ∈ ls, p l) :
    M.Run (fun l s => ok l s ∧ p l) s ls t := by
  induction h with
  | nil s => exact Run.nil s
  | cons hok hs _ ih =>
    exact Run.cons ⟨hok, hp _ List.mem_cons_self⟩ hs
      (ih fun l hl => hp l (List.mem_cons_of_mem _ hl))

theorem deterministic {t' : σ} (h : M.Run ok s ls t) (h' : M.Run ok s ls t') : t = t' := by
  have h₁ := exec_of_run h
  rw [exec_of_run h'] at h₁
  exact (Option.some.inj h₁).symm

/-- What is left of a run after one of its steps. -/
theorem after_step {ok' : Guard σ α} {s₁ s₂ : σ} (h : M.Run ok s (ls ++ l :: ls') u)
    (h₁ : M.Run ok' s ls s₁) (hs : M.step l s₁ = some s₂) : M.Run ok s₂ ls' u := by
  rcases h.split with ⟨t, ht, hr⟩
  rcases run_cons_iff.mp hr with ⟨_, t', hs', hr'⟩
  have heq : t = s₁ := Option.some.inj ((exec_of_run ht).symm.trans (exec_of_run h₁))
  subst heq
  rwa [Option.some.inj (hs.symm.trans hs')]

/-! ## Induction over runs -/

/-- What every step preserves, every run preserves. -/
theorem preserves {P : σ → Prop}
    (hstep : ∀ l s t, ok l s → M.step l s = some t → P s → P t)
    (h : M.Run ok s ls t) (hs : P s) : P t := by
  induction h with
  | nil s => exact hs
  | cons hok hst _ ih => exact ih (hstep _ _ _ hok hst hs)

/-- Invariant induction from the initial state. -/
theorem invariant {P : σ → Prop} (hinit : P M.init)
    (hstep : ∀ l s t, ok l s → M.step l s = some t → P s → P t)
    (h : M.Run ok M.init ls t) : P t :=
  h.preserves hstep hinit

/-- A relation between a state and its successors that every step respects
holds between the two ends of a run. -/
theorem chain {R : σ → σ → Prop} (hrefl : ∀ s, R s s)
    (htrans : ∀ s t u, R s t → R t u → R s u)
    (hstep : ∀ l s t, ok l s → M.step l s = some t → R s t)
    (h : M.Run ok s ls t) : R s t := by
  induction h with
  | nil s => exact hrefl s
  | cons hok hst _ ih => exact htrans _ _ _ (hstep _ _ _ hok hst) ih

/-- An invariant may be used as a side condition. -/
theorem guarded {P : σ → Prop} (hstep : ∀ l s t, ok l s → M.step l s = some t → P s → P t)
    (h : M.Run ok s ls t) (hs : P s) : M.Run (fun l s => ok l s ∧ P s) s ls t := by
  induction h with
  | nil s => exact Run.nil s
  | cons hok hst _ ih => exact Run.cons ⟨hok, hs⟩ hst (ih (hstep _ _ _ hok hst hs))

/-- A rank that the steps of one kind lower and the others do not raise bounds their number. -/
theorem countP_add_rank_le {p : α → Bool} {rank : σ → ℕ}
    (hown : ∀ l s t, ok l s → M.step l s = some t → p l = true → rank t < rank s)
    (hother : ∀ l s t, ok l s → M.step l s = some t → rank t ≤ rank s)
    (h : M.Run ok s ls t) : ls.countP p + rank t ≤ rank s := by
  induction h with
  | nil s => simp
  | @cons s t u l ls hok hst _ ih =>
    by_cases hp : p l = true
    · have hlt := hown l s t hok hst hp
      rw [List.countP_cons_of_pos hp]
      omega
    · have hle := hother l s t hok hst
      rw [List.countP_cons_of_neg hp]
      omega

/-- The same where steps of a second kind raise the rank by `c` at most. -/
theorem countP_add_rank_le_mul {p q : α → Bool} {rank : σ → ℕ} {c : ℕ}
    (hown : ∀ l s t, ok l s → M.step l s = some t → p l = true → rank t < rank s)
    (hraise : ∀ l s t, ok l s → M.step l s = some t → q l = true → rank t ≤ rank s + c)
    (hother : ∀ l s t, ok l s → M.step l s = some t → q l = false → rank t ≤ rank s)
    (h : M.Run ok s ls t) : ls.countP p + rank t ≤ rank s + c * ls.countP q := by
  induction h with
  | nil s => simp
  | @cons s t u l ls hok hst _ ih =>
    by_cases hq : q l = true
    · have hle := hraise l s t hok hst hq
      rw [List.countP_cons_of_pos hq, Nat.mul_succ]
      by_cases hp : p l = true
      · have hlt := hown l s t hok hst hp
        rw [List.countP_cons_of_pos hp]
        omega
      · rw [List.countP_cons_of_neg hp]
        omega
    · have hle := hother l s t hok hst (by simpa using hq)
      rw [List.countP_cons_of_neg hq]
      by_cases hp : p l = true
      · have hlt := hown l s t hok hst hp
        rw [List.countP_cons_of_pos hp]
        omega
      · rw [List.countP_cons_of_neg hp]
        omega

/-- Where a step from a state with `P` keeps it exactly when it meets `ok'`, a run stays within `P`
exactly when all its steps meet `ok'`. -/
theorem always_iff {P I : σ → Prop} {ok' : Guard σ α}
    (hinv : ∀ l s t, ok l s → M.step l s = some t → I s → I t)
    (hstep : ∀ l s t, ok l s → M.step l s = some t → I s → P s → (P t ↔ ok' l s))
    (h : M.Run ok s ls u) (hs : I s) (hP : P s) : M.Always P s ls ↔ M.Run ok' s ls u := by
  induction h with
  | nil s =>
    constructor
    · exact fun _ => Run.nil s
    · intro _ before t hbefore ht
      obtain rfl := List.prefix_nil.mp hbefore
      exact Option.some.inj ht ▸ hP
  | @cons s t u l ls hok hst _ ih =>
    have hiff := hstep l s t hok hst hs hP
    have hs' := hinv l s t hok hst hs
    constructor
    · intro halways
      have hPt : P t := halways [l] t (by simp) (by simp [exec, hst])
      refine Run.cons (hiff.mp hPt) hst ((ih hs' hPt).mp ?_)
      intro before t' hbefore ht'
      exact halways (l :: before) t' (by simpa using hbefore) (by simpa [exec, hst] using ht')
    · intro hrun before t' hbefore ht'
      rcases run_cons_iff.mp hrun with ⟨hok', t'', hst', hrest⟩
      obtain rfl := Option.some.inj (hst.symm.trans hst')
      cases before with
      | nil => exact Option.some.inj ht' ▸ hP
      | cons l' before =>
        rcases List.cons_prefix_cons.mp hbefore with ⟨rfl, htail⟩
        exact (ih hs' (hiff.mpr hok')).mpr hrest before t' htail (by simpa [exec, hst] using ht')

/-- What every step from a state without `P` preserves holds at the end of a run, or the run has
been through a state with `P`. -/
theorem keeps_or_sometime {I P : σ → Prop}
    (hstep : ∀ l s t, ok l s → M.step l s = some t → ¬ P s → I s → I t)
    (h : M.Run ok s ls u) (hs : I s) : I u ∨ M.Sometime P s ls := by
  induction h with
  | nil s => exact Or.inl hs
  | @cons s t u l ls hok hst _ ih =>
    by_cases hP : P s
    · exact Or.inr ⟨[], s, List.nil_prefix, rfl, hP⟩
    · rcases ih (hstep l s t hok hst hP hs) with hu | ⟨before, t', hbefore, ht', hPt⟩
      · exact Or.inl hu
      · refine Or.inr ⟨l :: before, t', List.cons_prefix_cons.mpr ⟨rfl, hbefore⟩, ?_, hPt⟩
        simp [exec, hst, ht']

/-! ## Two runs -/

/-- Lock-step simulation: related labels taken in related states lead to related states, so a
run has a counterpart on every related list of labels. -/
theorem simulate {N : Lts σ α} {ok' : Guard σ α} {R : σ → σ → Prop} {L : α → α → Prop}
    (hstep : ∀ l l' s s' t, L l l' → R s s' → ok l s → M.step l s = some t →
      ok' l' s' ∧ ∃ t', N.step l' s' = some t' ∧ R t t')
    (h : M.Run ok s ls t) {s' : σ} (hR : R s s') (hL : List.Forall₂ L ls ls') :
    ∃ t', N.Run ok' s' ls' t' ∧ R t t' := by
  induction h generalizing s' ls' with
  | nil s =>
    cases hL
    exact ⟨s', Run.nil s', hR⟩
  | cons hok hst _ ih =>
    cases hL with
    | cons hl hls =>
      rcases hstep _ _ _ _ _ hl hR hok hst with ⟨hok', t', hst', hR'⟩
      rcases ih hR' hls with ⟨u', hrun, hRu⟩
      exact ⟨u', Run.cons hok' hst' hrun, hRu⟩

end Run

/-! ## A machine beside another -/

/-- The labels that `f` picks at the steps of a run, for a machine beside it that moves at some of
them. -/
def project {β : Type*} (M : Lts σ α) (f : α → σ → Option β) : List α → σ → List β
  | [], _ => []
  | l :: ls, s =>
    match M.step l s with
    | none => []
    | some t => (f l s).toList ++ project M f ls t

theorem project_cons {β : Type*} {f : α → σ → Option β} (h : M.step l s = some t) :
    M.project f (l :: ls) s = (f l s).toList ++ M.project f ls t := by
  simp [project, h]

/-- Simulation with stuttering: where a step is matched by the step that `f` picks, or by none if
`f` picks none, a run is matched by a run on the labels picked. -/
theorem Run.project {τ β : Type*} {N : Lts τ β} {R : σ → τ → Prop} {f : α → σ → Option β}
    (hstep : ∀ l s t s', ok l s → M.step l s = some t → R s s' →
      (f l s = none ∧ R t s') ∨ ∃ l' t', f l s = some l' ∧ N.step l' s' = some t' ∧ R t t')
    (h : M.Run ok s ls t) {s' : τ} (hR : R s s') :
    ∃ t', N.Run anyStep s' (M.project f ls s) t' ∧ R t t' := by
  induction h generalizing s' with
  | nil s => exact ⟨s', Run.nil s', hR⟩
  | cons hok hst _ ih =>
    rw [project_cons hst]
    rcases hstep _ _ _ _ hok hst hR with ⟨hf, hR'⟩ | ⟨l', t', hf, hst', hR'⟩
    · rw [hf]
      exact ih hR'
    · rw [hf]
      rcases ih hR' with ⟨u', hrun, hRu⟩
      exact ⟨u', Run.cons trivial hst' hrun, hRu⟩

/-- Labels that are always picked as they are, or never, are found in the projection in their order.
-/
theorem Run.filter_project {f : α → σ → Option α} {p : α → Bool}
    (hf : ∀ l s, (f l s).toList.filter p = [l].filter p) (h : M.Run ok s ls t) :
    (M.project f ls s).filter p = ls.filter p := by
  induction h with
  | nil s => rfl
  | @cons s t u l ls _ hst _ ih =>
    rw [project_cons hst, List.filter_append, ih, hf, ← List.filter_append, List.singleton_append]

/-! ## Costs -/

/-- What the steps on a list of labels cost together, at `price` a step. -/
def cost (M : Lts σ α) (price : α → σ → ℕ) : List α → σ → ℕ
  | [], _ => 0
  | l :: ls, s =>
    match M.step l s with
    | none => 0
    | some t => price l s + cost M price ls t

theorem cost_cons {price : α → σ → ℕ} (h : M.step l s = some t) :
    M.cost price (l :: ls) s = price l s + M.cost price ls t := by
  simp [cost, h]

/-- A property of the state and of the cost so far that every step preserves. -/
theorem Run.charge {price : α → σ → ℕ} {P : ℕ → σ → Prop}
    (hstep : ∀ n l s t, ok l s → M.step l s = some t → P n s → P (n + price l s) t)
    (h : M.Run ok s ls t) {n : ℕ} (hs : P n s) : P (n + M.cost price ls s) t := by
  induction h generalizing n with
  | nil s => exact hs
  | cons hok hst _ ih =>
    rw [cost_cons hst, ← Nat.add_assoc]
    exact ih (hstep _ _ _ _ hok hst hs)

theorem Reach.init : M.Reach ok M.init := ⟨[], Run.nil _⟩

theorem Reach.step (h : M.Reach ok s) (hok : ok l s) (hs : M.step l s = some t) :
    M.Reach ok t := by
  rcases h with ⟨ls, hr⟩
  exact ⟨ls ++ [l], hr.append (Run.single hok hs)⟩

theorem Reach.run (h : M.Reach ok s) (hr : M.Run ok s ls t) : M.Reach ok t := by
  rcases h with ⟨ls₀, h₀⟩
  exact ⟨ls₀ ++ ls, h₀.append hr⟩

/-- Invariant induction over reachable states. -/
theorem Reach.invariant {P : σ → Prop} (hinit : P M.init)
    (hstep : ∀ l s t, ok l s → M.step l s = some t → P s → P t)
    (h : M.Reach ok t) : P t := by
  rcases h with ⟨ls, hr⟩
  exact hr.invariant hinit hstep

section Can

variable {P Q : σ → Prop}

theorem Can.now (h : P s) : M.Can ok P s := ⟨[], s, .nil s, h⟩

theorem Can.step (hok : ok l s) (hs : M.step l s = some t) (h : M.Can ok P t) : M.Can ok P s := by
  rcases h with ⟨ls, u, hr, hu⟩
  exact ⟨l :: ls, u, .cons hok hs hr, hu⟩

theorem Can.run (hr : M.Run ok s ls t) (h : M.Can ok P t) : M.Can ok P s := by
  rcases h with ⟨ls', u, hr', hu⟩
  exact ⟨ls ++ ls', u, hr.append hr', hu⟩

theorem Can.imp (h : M.Can ok P s) (himp : ∀ t, P t → Q t) : M.Can ok Q s := by
  rcases h with ⟨ls, t, hr, ht⟩
  exact ⟨ls, t, hr, himp t ht⟩

end Can

/-! ## The steps of a run -/

/-- In the run `ls` from the start, the step after `before` is `l`, from `s` to `t`. -/
structure Took (M : Lts σ α) (ls before : List α) (l : α) (s t : σ) : Prop where
  taken : before ++ [l] <+: ls
  reached : M.exec before M.init = some s
  step : M.step l s = some t

namespace Took

variable {before before' : List α} {l' : α} {s' t' : σ}

theorem run (h : M.Took ls before l s t) : M.Run anyStep M.init before s := run_of_exec h.reached

theorem getElem? (h : M.Took ls before l s t) : ls[before.length]? = some l := by
  rcases h.taken with ⟨ls', rfl⟩
  simp

theorem before_eq (h : M.Took ls before l s t) : before = ls.take before.length := by
  rcases h.taken with ⟨ls', rfl⟩
  simp

/-- The last step of a list of labels that is not refused. -/
theorem of_exec (M : Lts σ α) (hp : before ++ [l] <+: ls)
    (h : (M.exec (before ++ [l]) M.init).isSome = true) :
    M.Took ls before l (M.after before) (M.after (before ++ [l])) := by
  rcases (M.run_after _ h).split with ⟨s, h₁, h₂⟩
  rcases run_cons_iff.mp h₂ with ⟨_, t, hs, hnil⟩
  obtain rfl := run_nil_iff.mp hnil
  have hbefore := exec_of_run h₁
  have hafter : M.after before = s := by simp [after, hbefore]
  exact ⟨hp, hafter ▸ hbefore, hafter ▸ hs⟩

/-- What comes before the step. -/
theorem run_before (h : M.Took ls before l s t) (hrun : M.Run ok M.init ls u) :
    M.Run ok M.init before s := by
  rcases h.taken with ⟨ls', rfl⟩
  rw [List.append_assoc] at hrun
  rcases hrun.split with ⟨s', h₁, _⟩
  obtain rfl := Option.some.inj (h.reached.symm.trans (exec_of_run h₁))
  exact h₁

/-- What is left of the run after the step. -/
theorem rest (h : M.Took ls before l s t) (hrun : M.Run ok M.init ls u) :
    ∃ ls', M.Run ok t ls' u := by
  rcases h.taken with ⟨ls', rfl⟩
  rw [List.append_assoc, List.singleton_append] at hrun
  exact ⟨ls', hrun.after_step h.run h.step⟩

/-- The step meets the side condition of the run. -/
theorem guard (h : M.Took ls before l s t) (hrun : M.Run ok M.init ls u) : ok l s := by
  rcases h.taken with ⟨ls', rfl⟩
  rw [List.append_assoc, List.singleton_append] at hrun
  rcases hrun.split with ⟨s', h₁, h₂⟩
  rcases run_cons_iff.mp h₂ with ⟨hok, _⟩
  obtain rfl := Option.some.inj (h.reached.symm.trans (exec_of_run h₁))
  exact hok

/-- A step with fewer steps before it comes first. -/
theorem run_between (h : M.Took ls before l s t) (h' : M.Took ls before' l' s' t')
    (hlt : before ++ [l] <+: before') : ∃ ls', M.Run anyStep t ls' s' :=
  rest ⟨hlt, h.reached, h.step⟩ h'.run

/-- Two steps of a run are the same, or one comes before the other. -/
theorem same_or_before (h : M.Took ls before l s t) (h' : M.Took ls before' l' s' t') :
    (before = before' ∧ l = l' ∧ s = s' ∧ t = t') ∨ (∃ ls', M.Run anyStep t ls' s') ∨
      ∃ ls', M.Run anyStep t' ls' s := by
  rcases lt_trichotomy before.length before'.length with hlt | heq | hlt
  · right; left
    refine h.run_between h' (List.prefix_of_prefix_length_le h.taken
      ((List.prefix_append _ _).trans h'.taken) (by simpa using hlt))
  · left
    have hp := List.prefix_of_prefix_length_le h.taken h'.taken (by simp [heq])
    have hsame := List.append_inj (hp.eq_of_length (by simp [heq])) heq
    obtain rfl := hsame.1
    obtain rfl : l = l' := by simpa using hsame.2
    obtain rfl := Option.some.inj (h.reached.symm.trans h'.reached)
    exact ⟨rfl, rfl, rfl, Option.some.inj (h.step.symm.trans h'.step)⟩
  · right; right
    refine h'.run_between h (List.prefix_of_prefix_length_le h'.taken
      ((List.prefix_append _ _).trans h.taken) (by simpa using hlt))

end Took

/-- What holds at the end of a run and not at the start became true at one of its steps. -/
theorem Run.exists_took {P : σ → Prop} (h : M.Run ok M.init ls u) (hinit : ¬ P M.init)
    (hend : P u) : ∃ before l s t, M.Took ls before l s t ∧ ¬ P s ∧ P t := by
  induction ls using List.reverseRecOn generalizing u with
  | nil =>
    obtain rfl := run_nil_iff.mp h
    exact absurd hend hinit
  | append_singleton ls l ih =>
    rcases h.split with ⟨s, h₁, h₂⟩
    rcases run_cons_iff.mp h₂ with ⟨_, t, hs, hnil⟩
    obtain rfl := run_nil_iff.mp hnil
    by_cases hP : P s
    · rcases ih h₁ hP with ⟨before, l', s', t', took, hno, hyes⟩
      exact ⟨before, l', s', t',
          ⟨took.taken.trans (List.prefix_append _ _), took.reached, took.step⟩, hno, hyes⟩
    · exact ⟨ls, l, s, t, ⟨List.prefix_rfl, exec_of_run h₁, hs⟩, hP, hend⟩

end Lts
