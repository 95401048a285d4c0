import Doppelganger.Stranded

/-! # "Generate Challenge Link"

The button is disabled while a pair is being generated and while a session is being created, and
every way out of `create` enables it again. The generation of a pair does not: `initAlice` catches
what is thrown and leaves the button as it is, and in `reset` nothing is caught. So a page that
rests on the form can be used exactly if every pair it asked for was made. -/

open Text

namespace Doppelganger

variable {env : Env} {W : Crypto} {w w' : World W} {e : Event}

/-- Where the page rests on the landing screen or the form, it has a pair and the button is enabled.
-/
def AlicePage.CanCreate (page : AlicePage W) : Prop :=
  page.screen = .landing ∨ page.screen = .create → page.tasks = [] →
    page.createDisabled = false ∧ page.aliceKeyPair ≠ none

/-- `initAlice` or `reset` goes on with this task. -/
def AliceTask.prepares : AliceTask W → Bool
  | .generating => true
  | .exporting _ => true
  | _ => false

/-- No generation and no export of a new pair fails, and the log can show the new public key. -/
def KeysMade : Lts.Guard (World W) Event := fun e w =>
  (∀ n task, e = .alice (.rejected n) → w.alice.tasks[n]? = some task → task.prepares = false) ∧
  ∀ n p, e = .alice (.exported n) → w.alice.tasks[n]? = some (.exporting p) →
    ProtocolLog.keyGenerated (W.jwk p) = true

/-- The page has a pair where the button is enabled. -/
theorem World.Ok.canCreate_iff (hw : w.Ok env) : w.alice.CanCreate ↔
    (w.Preparing → w.alice.tasks = [] → w.alice.createDisabled = false) := by
  constructor
  · exact fun h hprep htasks => (h hprep htasks).1
  · intro h hprep htasks
    have hen := h hprep htasks
    refine ⟨hen, ?_⟩
    rcases hw.alice with ⟨act, hawaits, hact⟩
    cases act with
    | idle =>
      rcases hact hen hprep with ⟨p, hp⟩
      simp [hp.1]
    | task task =>
      have hnone := hawaits.1.symm.trans htasks
      cases hnone
    | source es =>
      have hdis := hact.1
      rw [hen] at hdis
      cases hdis

theorem canCreate_of_pending {page : AlicePage W} (h : page.tasks ≠ []) : page.CanCreate :=
  fun _ htasks => absurd htasks h

theorem canCreate_of_screen {page : AlicePage W} (hlanding : page.screen ≠ .landing)
    (hcreate : page.screen ≠ .create) : page.CanCreate := by
  rintro (hscreen | hscreen)
  · exact absurd hscreen hlanding
  · exact absurd hscreen hcreate

/-- What an event of the stream leads to is another screen, or a new pair is asked for. -/
theorem canCreate_onmessage {page : AlicePage W} (hscreen : page.screen = .waiting) (n : ℕ)
    (sid data : Str) : (page.onmessage n sid data).CanCreate := by
  have hwaiting : ∀ {page' : AlicePage W}, page'.screen = .waiting → page'.CanCreate :=
    fun h => canCreate_of_screen (by simp [h]) (by simp [h])
  rcases page.onmessage_cases n sid data with ⟨ended, hpage | ⟨event, _, hpage⟩⟩
  · rw [hpage]
    exact hwaiting hscreen
  · rw [hpage]
    unfold AlicePage.onevent
    split_ifs
    · exact hwaiting hscreen
    · split
      · split_ifs
        · exact canCreate_of_pending (by simp)
        · exact hwaiting hscreen
      · exact hwaiting hscreen
    · exact canCreate_of_screen (by simp) (by simp)
    · exact canCreate_of_pending (by simp [AlicePage.reset])
    · exact hwaiting hscreen

/-- The end of `create`: the button is enabled, or the page is on another screen. -/
theorem enabled_created {page : AlicePage W} (response : Response)
    (hscreen : (page.created response).screen = .landing ∨
      (page.created response).screen = .create) :
    (page.created response).createDisabled = false := by
  unfold AlicePage.created at hscreen ⊢
  split_ifs at hscreen ⊢ with hok
  · rfl
  · split at hscreen
    · rfl
    · split at hscreen
      · split_ifs at hscreen ⊢
        · rcases hscreen with hscreen | hscreen <;> cases hscreen
        · rfl
      · rfl

/-- If the pairs are made, every step leaves the page so that it can create. -/
theorem canCreate_of_aliceStep (hw : w.Ok env) (hcan : w.alice.CanCreate) {a : AliceAct}
    (hok : KeysMade (.alice a) w) (h : w.aliceStep env a = some w') : w'.alice.CanCreate := by
  rcases hw.alice with ⟨act, hawaits, hact⟩
  have hw' := hw.alice_step h
  -- an event source is open on `step-waiting` only
  have hwaiting : ∀ {n : ℕ} {es : EventSource}, w.alice.sources[n]? = some es →
      w.alice.screen = .waiting := by
    intro n es hsrc
    rcases hawaits.of_source hsrc with ⟨_, rfl⟩
    exact hact.2.1
  have hlistening : ∀ {n : ℕ} {es : EventSource} {page : AlicePage W},
      w.alice.sources[n]? = some es → page.screen = w.alice.screen → page.CanCreate := by
    intro n es page hsrc hscreen
    rw [hwaiting hsrc] at hscreen
    exact canCreate_of_screen (by simp [hscreen]) (by simp [hscreen])
  cases moved_of_aliceStep h with
  | start hscreen => exact fun _ htasks => hcan (Or.inl hscreen) htasks
  | unsent => exact hcan
  | create | again => exact canCreate_of_pending (by simp [AlicePage.reset])
  | generated n ht => exact canCreate_of_pending (set_ne_nil ht)
  | exported n p disabled ht =>
    -- the log has shown the key, so the button is enabled
    refine hw'.canCreate_iff.mpr fun _ _ => ?_
    have hexported : w.alice.exported n =
        some { w.alice.finish n with createDisabled := false } := by
      simp [AlicePage.exported, ht, hok.2 n p rfl ht]
    rcases Option.map_eq_some_iff.mp h with ⟨page, hpage, heq⟩
    obtain rfl := Option.some.inj (hexported.symm.trans hpage)
    exact (congrArg (fun v => v.alice.createDisabled) heq).symm
  | post n r limited _ _ _ p σ' ht => exact canCreate_of_pending (set_ne_nil ht)
  | answered n r response ht => exact canCreate_of_pending (set_ne_nil ht)
  | read n response ht =>
    exact hw'.canCreate_iff.mpr fun hprep _ => enabled_created response hprep
  | imported n p sid jwk key ht => exact canCreate_of_pending (set_ne_nil ht)
  | keyless n sid jwk ht hnone => exact absurd hnone (hw.keyPair_of_importing ht)
  | derived => exact canCreate_of_screen (by simp) (by simp)
  | caught => exact hw'.canCreate_iff.mpr fun _ _ => rfl
  | rejected n task ht hcreates =>
    have hprepares := hok.1 n task rfl ht
    rcases hawaits.of_task ht with ⟨rfl, rfl⟩
    -- what is left are the tasks of a VERIFIED
    have hscreen : w.alice.screen = .waiting := by
      cases task with
      | importing sid jwk => exact hact.2.1
      | derivingKey sid p key => exact hact.2.1
      | generating | exporting => cases hprepares
      | _ => cases hcreates
    exact canCreate_of_screen (by simp [AlicePage.finish, hscreen])
      (by simp [AlicePage.finish, hscreen])
  | connected n i k sid σ' hsrc => exact hlistening hsrc rfl
  | skipped n i k sid hsrc => exact hlistening hsrc rfl
  | received n i k sid data hsrc => exact canCreate_onmessage (by exact hwaiting hsrc) n sid data
  | dropped n i k sid hsrc => exact hlistening hsrc rfl
  | refused n i k sid status hsrc => exact hlistening hsrc rfl

/-- A pair that is not made leaves the page with a disabled button and nothing to wait for. -/
theorem not_canCreate_of_next (hw : w.Ok env) (hok : ¬ KeysMade e w)
    (h : World.next env e w = some w') : ¬ w'.alice.CanCreate := by
  rcases hw.alice with ⟨act, hawaits, hact⟩
  -- the task is over, and the button is as it was
  have hstuck : ∀ {task : AliceTask W} {page : AlicePage W}, w.alice.tasks[0]? = some task →
      act = .task task → task.prepares = true → page.tasks = (w.alice.finish 0).tasks →
      page.screen = w.alice.screen → page.createDisabled = w.alice.createDisabled →
      ¬ page.CanCreate := by
    rintro task page ht rfl hprepares htasks hscreen hdisabled hcan
    have hprep : w.Preparing := by
      cases task with
      | generating => exact hact.2
      | exporting p => exact hact.2.1
      | _ => cases hprepares
    have hempty : page.tasks = [] := by simp [htasks, AlicePage.finish, hawaits.1]
    have hen := (hcan (by rwa [hscreen]) hempty).1
    rw [hdisabled, hact.1] at hen
    cases hen
  simp only [KeysMade, not_and_or, not_forall] at hok
  rcases hok with ⟨n, task, rfl, ht, hprepares⟩ | ⟨n, p, rfl, ht, hlog⟩
  · rcases hawaits.of_task ht with ⟨rfl, hact'⟩
    have hprep : task.prepares = true := by simpa using hprepares
    cases moved_of_next h with
    | caught _ task' ht' hcreates =>
      obtain rfl := Option.some.inj (ht.symm.trans ht')
      cases task with
      | creating | posting | reading => cases hprep
      | _ => cases hcreates
    | rejected _ task' ht' _ => exact hstuck ht hact' hprep rfl rfl rfl
  · rcases hawaits.of_task ht with ⟨rfl, hact'⟩
    have hexported : w.alice.exported 0 = some (w.alice.finish 0) := by
      simp [AlicePage.exported, ht, hlog]
    rcases Option.map_eq_some_iff.mp h with ⟨page, hpage, rfl⟩
    obtain rfl := Option.some.inj (hexported.symm.trans hpage)
    exact hstuck ht hact' rfl rfl rfl rfl

theorem canCreate_iff_of_next (hw : w.Ok env) (hcan : w.alice.CanCreate)
    (h : World.next env e w = some w') : w'.alice.CanCreate ↔ KeysMade e w := by
  constructor
  · intro hcan'
    by_contra hok
    exact not_canCreate_of_next hw hok h hcan'
  · intro hok
    rcases alice_of_next h with hsame | ⟨a, rfl, hstep⟩
    · rwa [hsame]
    · exact canCreate_of_aliceStep hw hcan hok hstep

/-- In a run of Alice's page with the server, any pages of Bob's and anyone else, her page can
create a session wherever it rests on the landing screen or the form, exactly if every pair it asked
for was generated, exported and shown in the log. -/
theorem alice_can_create_iff {es : List Event}
    (h : (world env W).Run Lts.anyStep World.init es w) :
    (world env W).Always (fun w => w.alice.CanCreate) World.init es ↔
      (world env W).Run KeysMade World.init es w := by
  refine h.always_iff (I := fun w => w.Ok env) (fun _ _ _ _ hs hw => hw.of_next hs) ?_ .init ?_
  · intro e w w' _ hs hw hcan
    exact canCreate_iff_of_next hw hcan hs
  · exact canCreate_of_pending (by simp [World.init, AlicePage.init])

/-- It applies to a session from the first pair to the key that both pages have derived. -/
theorem alice_can_create_sample :
    (world Sample.config Sample.crypto).Always (fun w => w.alice.CanCreate) World.init
      Sample.session := by
  have hrun := Lts.run_after (world Sample.config Sample.crypto) Sample.session (by decide +kernel)
  refine (alice_can_create_iff hrun).mpr ((hrun.of_labels (p := fun e => ∀ n, e ≠ .alice
    (.rejected n)) ?_).mono ?_)
  · simp [Sample.session]
  · rintro e w ⟨_, hrejected⟩
    exact ⟨fun n _ he => absurd he (hrejected n), fun _ _ _ _ => rfl⟩

end Doppelganger
