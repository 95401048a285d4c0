import Doppelganger.BobRequests
import Doppelganger.Progress
import Doppelganger.SameKey

/-!
# Bob's page comes to rest

`step-loading` and `step-scoring` have no button: what takes a page of Bob's away from them is the
function that is running. Every function ends, on whatever way, with another screen, so the page is
on one of the two exactly while something is pending. It takes five steps at most, and each of them
can be taken as soon as the server has answered: unlike Alice's page, Bob's is never stranded.
-/

open Text

namespace Doppelganger

variable {env : Env} {W : Crypto} {w w' : World W} {b : ℕ} {e : Event}

/-- No function of the page is running: it does not show `step-loading` or `step-scoring`. -/
def BobPage.AtRest (page : BobPage W) : Prop := page.screen ≠ .loading ∧ page.screen ≠ .scoring

/-- How many promises are settled until the function that waits for this one is over, at most. -/
def BobTask.rank : BobTask W → ℕ
  | .generating => 4
  | .exporting _ => 3
  | .fetching _ => 2
  | .loading _ => 1
  | .submitting _ _ _ => 5
  | .posting _ => 4
  | .reading _ => 3
  | .importing _ => 2
  | .derivingKey _ _ => 1

def BobPage.rank (page : BobPage W) : ℕ := (page.tasks.map BobTask.rank).sum

/-- The same for page `b`, if it is open. -/
def World.bobRank (b : ℕ) (w : World W) : ℕ := ((w.bobs b).map BobPage.rank).getD 0

/-- The page is opened, or "Submit Answer" is clicked. -/
def BobAct.calls : BobAct → Bool
  | .init _ => true
  | .submit _ _ => true
  | _ => false

/-- A function of page `b` is called. -/
def Event.calls (b : ℕ) : Event → Bool
  | .bob b' a => b' = b && a.calls
  | _ => false

/-- A promise of page `b` is settled. -/
def Event.settles (b : ℕ) : Event → Bool
  | .bob b' a => b' = b && !a.calls
  | _ => false

/-! ## What a settled promise does -/

/-- From `page` to `page'` a promise is settled. -/
structure BobPage.Settles (page page' : BobPage W) : Prop where
  rank : page'.rank < page.rank
  rests : page'.tasks = [] → page'.AtRest

namespace BobPage

variable {page page' : BobPage W} {σ : State} {n : ℕ}

theorem settles_goOn {task task' : BobTask W} (h : page.tasks = [task])
    (h' : page'.tasks = page.tasks.set 0 task') (hlt : task'.rank < task.rank) :
    page.Settles page' where
  rank := by simpa [BobPage.rank, h, h'] using hlt
  rests := by simp [h, h']

theorem settles_finish {task : BobTask W} (h : page.tasks = [task])
    (h' : page'.tasks = page.tasks.eraseIdx 0) (hrest : page'.AtRest) : page.Settles page' where
  rank := by
    simp only [BobPage.rank, h, h', List.eraseIdx_cons_zero, List.map_nil, List.sum_nil,
      List.map_cons, List.sum_cons]
    cases task <;> simp [BobTask.rank]
  rests := fun _ => hrest

theorem settles_generated (hok : page.Ok σ) {p : ℕ} (h : page.generated p n = some page') :
    page.Settles page' := by
  unfold BobPage.generated at h
  split at h
  · next ht =>
    obtain rfl := Option.some.inj h
    rcases hok.of_task ht with ⟨rfl, htasks, _⟩
    exact settles_goOn htasks rfl (by simp [BobTask.rank])
  · cases h

theorem settles_fetch (hok : page.Ok σ) {r : ℕ} {q : Request}
    (h : page.fetch n r = some (page', q)) : page.Settles page' := by
  unfold BobPage.fetch at h
  split at h
  · next p ht =>
    rcases hok.of_task ht with ⟨rfl, htasks, _⟩
    split_ifs at h
    · obtain rfl := (Prod.mk.inj (Option.some.inj h)).1
      exact settles_goOn htasks rfl (by simp [BobTask.rank])
    · obtain rfl := (Prod.mk.inj (Option.some.inj h)).1
      exact settles_goOn htasks rfl (by simp [BobTask.rank])
  · cases h

theorem settles_keyless (hok : page.Ok σ) {r : ℕ} {q : Request}
    (h : page.keyless n r = some (page', q)) : page.Settles page' := by
  unfold BobPage.keyless at h
  split at h
  · next ht =>
    rcases hok.of_task ht with ⟨rfl, htasks, _⟩
    obtain rfl := (Prod.mk.inj (Option.some.inj h)).1
    exact settles_goOn htasks rfl (by simp [BobTask.rank])
  · next p ht =>
    rcases hok.of_task ht with ⟨rfl, htasks, _⟩
    obtain rfl := (Prod.mk.inj (Option.some.inj h)).1
    exact settles_goOn htasks rfl (by simp [BobTask.rank])
  · cases h

theorem settles_post (hok : page.Ok σ) {r : ℕ} {q : Request}
    (h : page.post n r = some (page', q)) : page.Settles page' := by
  unfold BobPage.post at h
  split at h
  · next ht =>
    rcases hok.of_task ht with ⟨rfl, htasks, _⟩
    obtain rfl := (Prod.mk.inj (Option.some.inj h)).1
    exact settles_goOn htasks rfl (by simp [BobTask.rank])
  · cases h

theorem settles_answered (hok : page.Ok σ) {answer : ℕ → Option Response}
    (h : page.answered answer n = some page') : page.Settles page' := by
  unfold BobPage.answered at h
  split at h
  · next r ht =>
    rcases hok.of_task ht with ⟨rfl, htasks, _⟩
    rcases Option.map_eq_some_iff.mp h with ⟨response, _, rfl⟩
    dsimp only
    split_ifs
    · exact settles_finish htasks rfl (by simp [AtRest])
    · exact settles_goOn htasks rfl (by simp [BobTask.rank])
  · next r ht =>
    rcases hok.of_task ht with ⟨rfl, htasks, _⟩
    rcases Option.map_eq_some_iff.mp h with ⟨response, _, rfl⟩
    exact settles_goOn htasks rfl (by simp [BobTask.rank])
  · cases h

/-- However the answer to a verify request is read, the function goes on or ends with a screen. -/
theorem settles_verified {response : Response} (htasks : page.tasks = [.reading response])
    (data : Json) : page.Settles (page.verified 0 response data) := by
  have hretry : page.Settles (page.finish 0).retry :=
    settles_finish htasks rfl (by simp [AtRest, BobPage.retry])
  unfold BobPage.verified
  split_ifs
  · exact settles_finish htasks rfl (by simp [AtRest])
  · exact hretry
  · split
    · split_ifs
      · exact settles_goOn htasks rfl (by simp [BobTask.rank])
      · exact hretry
    · exact hretry
  · exact settles_finish htasks rfl (by simp [AtRest])

theorem settles_read (hok : page.Ok σ) (h : page.read n = some page') : page.Settles page' := by
  unfold BobPage.read at h
  split at h
  · next response ht =>
    rcases hok.of_task ht with ⟨rfl, htasks, _⟩
    obtain rfl := Option.some.inj h
    unfold BobPage.loaded
    split
    · exact settles_finish htasks rfl (by simp [AtRest])
    · split_ifs
      · exact settles_finish htasks rfl (by simp [AtRest])
      · exact settles_finish htasks rfl (by simp [AtRest])
  · next response ht =>
    rcases hok.of_task ht with ⟨rfl, htasks, _⟩
    obtain rfl := Option.some.inj h
    exact settles_verified htasks _
  · cases h

theorem settles_imported (hok : page.Ok σ) (h : page.imported n = some page') :
    page.Settles page' := by
  unfold BobPage.imported at h
  split at h
  swap
  · cases h
  next jwk ht =>
  rcases hok.of_task ht with ⟨rfl, htasks, _⟩
  split at h
  · cases h
  · split at h
    · obtain rfl := Option.some.inj h
      exact settles_finish htasks rfl (by simp [AtRest, BobPage.retry])
    · obtain rfl := Option.some.inj h
      exact settles_goOn htasks rfl (by simp [BobTask.rank])

theorem settles_derived (hok : page.Ok σ) (h : page.derived n = some page') :
    page.Settles page' := by
  unfold BobPage.derived at h
  split at h
  · next ht =>
    rcases hok.of_task ht with ⟨rfl, htasks, _⟩
    obtain rfl := Option.some.inj h
    exact settles_finish htasks rfl (by simp [AtRest])
  · cases h

theorem settles_rejected (hok : page.Ok σ) (h : page.rejected n = some page') :
    page.Settles page' := by
  unfold BobPage.rejected at h
  split at h
  case h_5 response ht =>
    rcases hok.of_task ht with ⟨rfl, htasks, _⟩
    obtain rfl := Option.some.inj h
    exact settles_verified htasks _
  case h_8 => cases h
  -- in the other cases the function ends with a screen
  all_goals
    next ht =>
    rcases hok.of_task ht with ⟨rfl, htasks, _⟩
    obtain rfl := Option.some.inj h
    exact settles_finish htasks rfl (by simp [AtRest, BobPage.retry])

end BobPage

/-- A step of page `b` that is not a call. -/
theorem settles_of_next (hw : w.Ok env) {a : BobAct} (ha : a.calls = false)
    (h : World.next env (.bob b a) w = some w') :
    ∃ page page', w.bobs b = some page ∧ w'.bobs b = some page' ∧ page.Settles page' := by
  have hquiet : ∀ {f : BobPage W → Option (BobPage W)} {w₁}, w.ofBob b f = some w₁ →
      (∀ page page', page.Ok w.server → f page = some page' → page.Settles page') →
      ∃ page page', w.bobs b = some page ∧ w₁.bobs b = some page' ∧ page.Settles page' := by
    intro f w₁ hf hsettles
    rcases ofBob_eq_some hf with ⟨page, page', hpage, hf', rfl⟩
    exact ⟨page, page', hpage, by simp [setBob_bobs],
      hsettles page page' (hw.bobs b page hpage) hf'⟩
  have hsending : ∀ {f : BobPage W → Option (BobPage W × Request)} {r : ℕ} {limited : Bool},
      w.ofBobSending env b r limited f = some w' →
      (∀ page page' q, page.Ok w.server → f page = some (page', q) → page.Settles page') →
      ∃ page page', w.bobs b = some page ∧ w'.bobs b = some page' ∧ page.Settles page' := by
    intro f r limited hf hsettles
    rcases ofBobSending_eq_some hf with ⟨page, page', q, σ', hpage, hf', _, rfl⟩
    exact ⟨page, page', hpage, by simp [World.setBob],
      hsettles page page' q (hw.bobs b page hpage) hf'⟩
  cases a with
  | init sid => cases ha
  | submit bobName answer => cases ha
  | generated n =>
    rcases Option.map_eq_some_iff.mp h with ⟨w₁, hw₁, rfl⟩
    have hsettles := hquiet hw₁ fun _ _ hok => BobPage.settles_generated hok
    exact hsettles
  | fetch n r limited => exact hsending h fun _ _ _ hok => BobPage.settles_fetch hok
  | keyless n r limited => exact hsending h fun _ _ _ hok => BobPage.settles_keyless hok
  | post n r limited => exact hsending h fun _ _ _ hok => BobPage.settles_post hok
  | answered n => exact hquiet h fun _ _ hok => BobPage.settles_answered hok
  | read n => exact hquiet h fun _ _ hok => BobPage.settles_read hok
  | imported n => exact hquiet h fun _ _ hok => BobPage.settles_imported hok
  | derived n => exact hquiet h fun _ _ hok => BobPage.settles_derived hok
  | rejected n => exact hquiet h fun _ _ hok => BobPage.settles_rejected hok

/-! ## Invariants of the pages -/

/-- A page whose functions are over is at rest. -/
def World.Rests (w : World W) : Prop :=
  ∀ b page, w.bobs b = some page → page.tasks = [] → page.AtRest

theorem submit_cases {page page' : BobPage W} {bobName answer : Str}
    (h : page.submit bobName answer = some page') : page.screen = .bobChallenge ∧
      (page' = page ∨ ∃ p, page' = { page with
        submitDisabled := true
        screen := .scoring
        tasks := page.tasks ++ [.submitting (trim bobName) (trim answer) p] }) := by
  unfold BobPage.submit at h
  split_ifs at h with hscreen
  · exact ⟨hscreen.1, Or.inl (Option.some.inj h).symm⟩
  · split at h
    · exact ⟨hscreen.1, Or.inl (Option.some.inj h).symm⟩
    · next p _ => exact ⟨hscreen.1, Or.inr ⟨p, (Option.some.inj h).symm⟩⟩

/-- A step of page `b` that is a call: the page is opened, nothing is done, or the answer is sent.
-/
theorem called_of_next {a : BobAct} (ha : a.calls = true)
    (h : World.next env (.bob b a) w = some w') :
    (∃ sid, w.bobs b = none ∧ w' = w.setBob b (BobPage.init sid)) ∨
      ∃ page page', w.bobs b = some page ∧ page.screen = .bobChallenge ∧ w' = w.setBob b page' ∧
        (page' = page ∨ ∃ bobName answer p, page' = { page with
          submitDisabled := true
          screen := .scoring
          tasks := page.tasks ++ [.submitting bobName answer p] }) := by
  cases a with
  | init sid =>
    cases bobMoved_of_next h with
    | init _ hnone => exact Or.inl ⟨sid, hnone, rfl⟩
    | quiet a page page' w' _ hpage _ _ _ => simp [World.next, World.bobStep, hpage] at h
    | get a n r page page' limited σ' _ hpage => simp [World.next, World.bobStep, hpage] at h
    | verify a n r page page' body limited σ' _ hpage =>
        simp [World.next, World.bobStep, hpage] at h
  | submit bobName answer =>
    rcases ofBob_eq_some h with ⟨page, page', hpage, hf, rfl⟩
    rcases submit_cases hf with ⟨hscreen, rfl | ⟨p, rfl⟩⟩
    · exact Or.inr ⟨_, _, hpage, hscreen, rfl, Or.inl rfl⟩
    · exact Or.inr ⟨_, _, hpage, hscreen, rfl, Or.inr ⟨_, _, p, rfl⟩⟩
  | _ => cases ha

theorem rests_of_next (hw : w.Ok env) (hr : w.Rests) (h : World.next env e w = some w') :
    w'.Rests := by
  intro b page₁ hpage₁
  by_cases he : ∀ a, e ≠ .bob b a
  · rw [bobs_of_next h he] at hpage₁
    exact hr b page₁ hpage₁
  · push Not at he
    rcases he with ⟨a, rfl⟩
    cases ha : a.calls with
    | false =>
      rcases settles_of_next hw ha h with ⟨page, page', _, hpage', hsettles⟩
      obtain rfl := Option.some.inj (hpage'.symm.trans hpage₁)
      exact hsettles.rests
    | true =>
      rcases called_of_next ha h with ⟨sid, _, rfl⟩ | ⟨page, page', hpage, _, rfl, hcase⟩
      · rw [setBob_bobs, if_pos rfl] at hpage₁
        obtain rfl := Option.some.inj hpage₁
        simp [BobPage.init]
      · rw [setBob_bobs, if_pos rfl] at hpage₁
        obtain rfl := Option.some.inj hpage₁
        rcases hcase with rfl | ⟨bobName, answer, p, rfl⟩
        · exact hr b _ hpage
        · simp

/-- What is pending belongs to a screen without buttons. -/
theorem BobPage.Ok.not_atRest {page : BobPage W} {σ : State} (hok : page.Ok σ)
    (hpending : page.tasks ≠ []) : ¬ page.AtRest := by
  rcases hok.waits with hnone | ⟨task, _, htask⟩
  · exact absurd hnone hpending
  · rintro ⟨hloading, hscoring⟩
    cases task with
    | generating => exact hloading htask
    | fetching r => exact hloading htask
    | loading response => exact hloading htask
    | exporting p => exact hloading htask.1
    | _ => exact hscoring htask.1

/-! ## A bound on the steps of a page -/

theorem bobRank_of_page {page : BobPage W} (h : w.bobs b = some page) :
    w.bobRank b = page.rank := by
  simp [World.bobRank, h]

theorem bobRank_of_settles (hw : w.Ok env) (he : e.settles b = true)
    (h : World.next env e w = some w') : w'.bobRank b < w.bobRank b := by
  cases e with
  | bob b' a =>
    simp only [Event.settles, Bool.and_eq_true, decide_eq_true_eq, Bool.not_eq_true'] at he
    rcases he with ⟨rfl, ha⟩
    rcases settles_of_next hw ha h with ⟨page, page', hpage, hpage', hsettles⟩
    rw [bobRank_of_page hpage, bobRank_of_page hpage']
    exact hsettles.rank
  | _ => cases he

theorem bobRank_of_calls (he : e.calls b = true) (h : World.next env e w = some w') :
    w'.bobRank b ≤ w.bobRank b + 5 := by
  cases e with
  | bob b' a =>
    simp only [Event.calls, Bool.and_eq_true, decide_eq_true_eq] at he
    rcases he with ⟨rfl, ha⟩
    rcases called_of_next ha h with ⟨sid, hnone, rfl⟩ | ⟨page, page', hpage, _, rfl, hcase⟩
    · simp [World.bobRank, setBob_bobs, BobPage.init, BobPage.rank, BobTask.rank]
    · rw [bobRank_of_page hpage, bobRank_of_page (setBob_bobs b' page' b' ▸ if_pos rfl)]
      rcases hcase with rfl | ⟨bobName, answer, p, rfl⟩
      · omega
      · simp [BobPage.rank, BobTask.rank]
  | _ => cases he

theorem bobRank_of_others (hw : w.Ok env) (he : e.calls b = false)
    (h : World.next env e w = some w') : w'.bobRank b ≤ w.bobRank b := by
  by_cases hb : ∀ a, e ≠ .bob b a
  · simp only [World.bobRank, bobs_of_next h hb]
    exact le_rfl
  · push Not at hb
    rcases hb with ⟨a, rfl⟩
    refine (bobRank_of_settles hw ?_ h).le
    simpa [Event.settles, Event.calls] using he

/-! ## On its own -/

/-- The page waits for the answer to request `r`. -/
def BobPage.Expects (page : BobPage W) (r : ℕ) : Prop :=
  .fetching r ∈ page.tasks ∨ .posting r ∈ page.tasks

/-- What page `b` waits for comes true: its request takes a step, or a promise of its is settled,
and not rejected but where it is to import what is no key. -/
def forPage (b : ℕ) : Lts.Guard (World W) Event := fun e w =>
  ∃ page, w.bobs b = some page ∧
    match e with
    | .server l => ∃ r, page.Expects r ∧ l.req? = some r
    | .bob b' a => b' = b ∧ a.calls = false ∧ (∀ n r limited, a ≠ .keyless n r limited) ∧
      ∀ n, a = .rejected n →
        ∃ jwk, page.tasks[n]? = some (.importing jwk) ∧ W.importPublicKey jwk = none
    | .alice _ => False

section Alone

variable {page : BobPage W}

/-- What the server does by itself, it does under the pages. -/
theorem run_of_server {ok : Lts.Guard State Label} {ok' : Lts.Guard (World W) Event}
    {σ σ' : State} {ls : List Label} (h : (server env).Run ok σ ls σ')
    (hok : ∀ l τ, ok l τ → ok' (.server l) { w with server := τ }) :
    (world env W).Run ok' { w with server := σ } (ls.map .server) { w with server := σ' } := by
  induction h with
  | nil σ => exact .nil _
  | @cons σ τ σ' l ls hl hs _ ih =>
    have hs' : step env l σ = some τ := hs
    have hnext : World.next env (.server l) { w with server := σ } =
        some { w with server := τ } := by
      simp [World.next, hs']
    exact .cons (hok l σ hl) hnext ih

theorem ofBob_of_page (hpage : w.bobs b = some page) {f : BobPage W → Option (BobPage W)}
    (hf : (f page).isSome = true) : ∃ w', w.ofBob b f = some w' := by
  rcases Option.isSome_iff_exists.mp hf with ⟨page', hpage'⟩
  exact ⟨w.setBob b page', by simp [World.ofBob, hpage, hpage']⟩

theorem ofBobSending_of_page (hpage : w.bobs b = some page) {r : ℕ}
    {f : BobPage W → Option (BobPage W × Request)} (hf : (f page).isSome = true)
    (hr : w.server.reqs r = none) : ∃ w', w.ofBobSending env b r false f = some w' := by
  rcases Option.isSome_iff_exists.mp hf with ⟨⟨page', q⟩, hpage'⟩
  have hs : step env (.request r q false) w.server = some (w.server.setReq r ⟨q, .start q⟩) :=
    request_step hr q false
  exact ⟨_, by simp only [World.ofBobSending, hpage, hpage', hs, Option.bind_eq_bind,
    Option.bind_some]; rfl⟩

/-- The page goes on by itself: in finitely many steps that are all for it, it has one promise less
to wait for. -/
def World.GoesOn (env : Env) (b : ℕ) (w : World W) : Prop :=
  ∃ ls w' page', (world env W).Run (forPage b) w ls w' ∧ w'.bobs b = some page' ∧
    w'.bobRank b < w.bobRank b

theorem goesOn_of_next (hw : w.Ok env) {a : BobAct} (hok : forPage b (.bob b a) w)
    (h : ∃ w', World.next env (.bob b a) w = some w') : w.GoesOn env b := by
  rcases h with ⟨w', h⟩
  rcases hok with ⟨page, hpage, hb, ha, hrest⟩
  rcases settles_of_next hw ha h with ⟨_, page', _, hpage', _⟩
  have hsettles : (Event.bob b a).settles b = true := by simp [Event.settles, ha]
  exact ⟨[.bob b a], w', page', .single ⟨page, hpage, hb, ha, hrest⟩ h, hpage',
    bobRank_of_settles hw hsettles h⟩

/-- The page waits for an answer, which the server can give. -/
theorem goesOn_of_expects (hw : w.Ok env) (hpage : w.bobs b = some page) {r : ℕ}
    (hexpects : page.Expects r)
    (hanswered : ∀ answer response, answer r = some response →
      (page.answered answer 0).isSome = true) : w.GoesOn env b := by
  rcases can_be_answered env w.server r with ⟨ls, σ', response, hrun, hans⟩
  have hrun' : (world env W).Run (forPage b) w (ls.map .server) { w with server := σ' } :=
    run_of_server (w := w) hrun fun l τ hl => ⟨page, hpage, r, hexpects, hl⟩
  have hw' : World.Ok env { w with server := σ' } :=
    hrun'.preserves (P := fun w => w.Ok env) (fun _ _ _ _ hs hw => hw.of_next hs) hw
  have hnext : ∃ w', World.next env (.bob b (.answered 0)) { w with server := σ' } = some w' :=
    ofBob_of_page (w := { w with server := σ' }) hpage (hanswered σ'.answer? response hans)
  have hok : forPage b (.bob b (.answered 0)) { w with server := σ' } :=
    ⟨page, hpage, rfl, rfl, by simp, by simp⟩
  rcases goesOn_of_next hw' hok hnext with ⟨ls', w₂, page₂, hrun₂, hpage₂, hlt⟩
  exact ⟨_, w₂, page₂, hrun'.append hrun₂, hpage₂, hlt⟩

/-- Whatever it waits for, the page goes on by itself. -/
theorem bob_goesOn (hw : w.Ok env) (hfresh : w.server.Unbounded)
    (hpage : w.bobs b = some page) (hpending : page.tasks ≠ []) : w.GoesOn env b := by
  rcases hfresh with ⟨r, hr⟩
  have hr := hr r le_rfl
  rcases (hw.bobs b page hpage).waits with hnone | ⟨task, htask, _⟩
  · exact absurd hnone hpending
  have ht : page.tasks[0]? = some task := by rw [htask]; rfl
  -- a step that is neither a call nor a rejection
  have hsettled : ∀ {a : BobAct}, a.calls = false → (∀ n r limited, a ≠ .keyless n r limited) →
      (∀ n, a ≠ .rejected n) → (∃ w', World.next env (.bob b a) w = some w') →
      w.GoesOn env b := by
    intro a ha hkeyless hrejected hnext
    exact goesOn_of_next hw ⟨page, hpage, rfl, ha, hkeyless, fun n hn => absurd hn (hrejected n)⟩
      hnext
  cases task with
  | generating =>
    have hgenerated := ofBob_of_page (f := BobPage.generated w.pairs 0) hpage
      (by simp [BobPage.generated, ht])
    rcases hgenerated with ⟨w₁, hw₁⟩
    exact hsettled (a := .generated 0) rfl (by simp) (by simp)
      ⟨{ w₁ with pairs := w.pairs + 1 }, by simp [World.next, World.bobStep, hw₁]⟩
  | exporting p =>
    have hfetch : (page.fetch 0 r).isSome = true := by
      simp only [BobPage.fetch, ht]
      split_ifs <;> rfl
    exact hsettled (a := .fetch 0 r false) rfl (by simp) (by simp)
      (ofBobSending_of_page hpage hfetch hr)
  | fetching r' =>
    refine goesOn_of_expects (r := r') hw hpage (Or.inl (by simp [htask])) ?_
    intro answer response hans
    simp [BobPage.answered, ht, hans]
  | loading response =>
    exact hsettled (a := .read 0) rfl (by simp) (by simp)
      (ofBob_of_page hpage (by simp [BobPage.read, ht]))
  | submitting bobName answer p =>
    exact hsettled (a := .post 0 r false) rfl (by simp) (by simp)
      (ofBobSending_of_page hpage (by simp [BobPage.post, ht]) hr)
  | posting r' =>
    refine goesOn_of_expects (r := r') hw hpage (Or.inr (by simp [htask])) ?_
    intro answer response hans
    simp [BobPage.answered, ht, hans]
  | reading response =>
    exact hsettled (a := .read 0) rfl (by simp) (by simp)
      (ofBob_of_page hpage (by simp [BobPage.read, ht]))
  | importing jwk =>
    cases himport : W.importPublicKey jwk with
    | none =>
      refine goesOn_of_next (a := .rejected 0) hw ⟨page, hpage, rfl, rfl, by simp, ?_⟩
        (ofBob_of_page hpage (by simp [BobPage.rejected, ht]))
      rintro n ⟨⟩
      exact ⟨jwk, ht, himport⟩
    | some key =>
      have himported : (page.imported 0).isSome = true := by
        simp only [BobPage.imported, ht, himport]
        split <;> rfl
      exact hsettled (a := .imported 0) rfl (by simp) (by simp) (ofBob_of_page hpage himported)
  | derivingKey p key =>
    exact hsettled (a := .derived 0) rfl (by simp) (by simp)
      (ofBob_of_page hpage (by simp [BobPage.derived, ht]))

end Alone

/-! ## Bob can answer -/

/-- The pair of the page is still to come, or it is there; and then "Submit Answer" is enabled where
the challenge is shown or loading. -/
def BobPage.Keyed (page : BobPage W) : Prop :=
  page.tasks = [.generating] ∨ (∃ p, page.tasks = [.exporting p]) ∨
    page.bobKeyPair ≠ none ∧
      (page.screen = .loading ∨ page.screen = .bobChallenge → page.submitDisabled = false)

namespace BobPage.Keyed

variable {page page' : BobPage W} {σ : State} {n : ℕ}

/-- The pair is there once something else is pending. -/
theorem paired (h : page.Keyed) {task : BobTask W} (htasks : page.tasks = [task])
    (hgenerating : task ≠ .generating) (hexporting : ∀ p, task ≠ .exporting p) :
    page.bobKeyPair ≠ none ∧
      (page.screen = .loading ∨ page.screen = .bobChallenge → page.submitDisabled = false) := by
  rcases h with hgen | ⟨p, hexp⟩ | hpaired
  · rw [htasks] at hgen
    exact absurd (List.singleton_injective hgen) hgenerating
  · rw [htasks] at hexp
    exact absurd (List.singleton_injective hexp) (hexporting p)
  · exact hpaired

theorem verified (hpair : page.bobKeyPair ≠ none) (hscreen : page.screen = .scoring)
    (response : Response) (data : Json) : (page.verified n response data).Keyed := by
  right; right
  unfold BobPage.verified
  split_ifs
  · exact ⟨hpair, by simp [BobPage.finish]⟩
  · exact ⟨hpair, by simp [BobPage.retry]⟩
  · split
    · split_ifs
      · exact ⟨hpair, by simp [BobPage.goOn, hscreen]⟩
      · exact ⟨hpair, by simp [BobPage.retry]⟩
    · exact ⟨hpair, by simp [BobPage.retry]⟩
  · exact ⟨hpair, by simp [BobPage.finish]⟩

theorem submit (h : page.Keyed) {bobName answer : Str}
    (hs : page.submit bobName answer = some page') : page'.Keyed := by
  unfold BobPage.submit at hs
  split_ifs at hs
  · exact Option.some.inj hs ▸ h
  · split at hs
    · exact Option.some.inj hs ▸ h
    · next p hkey =>
      obtain rfl := Option.some.inj hs
      exact Or.inr (Or.inr ⟨by simp [hkey], by simp⟩)

theorem generated (hok : page.Ok σ) {p : ℕ} (hs : page.generated p n = some page') :
    page'.Keyed := by
  unfold BobPage.generated at hs
  split at hs
  · next ht =>
    obtain rfl := Option.some.inj hs
    rcases hok.of_task ht with ⟨rfl, htasks, _⟩
    exact Or.inr (Or.inl ⟨p, by simp [BobPage.goOn, htasks]⟩)
  · cases hs

theorem fetch (hlog : ∀ p, ProtocolLog.keyGenerated (W.jwk p) = true) (hok : page.Ok σ) {r : ℕ}
    {q : Request} (hs : page.fetch n r = some (page', q)) : page'.Keyed := by
  unfold BobPage.fetch at hs
  split at hs
  · next p ht =>
    rcases hok.of_task ht with ⟨_, _, _, hkey⟩
    simp only [hlog, if_true] at hs
    obtain rfl := (Prod.mk.inj (Option.some.inj hs)).1
    exact Or.inr (Or.inr ⟨by simp [BobPage.goOn, hkey], fun _ => rfl⟩)
  · cases hs

theorem post (h : page.Keyed) (hok : page.Ok σ) {r : ℕ} {q : Request}
    (hs : page.post n r = some (page', q)) : page'.Keyed := by
  unfold BobPage.post at hs
  split at hs
  · next ht =>
    rcases hok.of_task ht with ⟨_, htasks, _⟩
    obtain rfl := (Prod.mk.inj (Option.some.inj hs)).1
    exact Or.inr (Or.inr (h.paired htasks (by simp) (by simp)))
  · cases hs

theorem answered (h : page.Keyed) (hok : page.Ok σ) {answer : ℕ → Option Response}
    (hs : page.answered answer n = some page') : page'.Keyed := by
  unfold BobPage.answered at hs
  split at hs
  · next r ht =>
    rcases hok.of_task ht with ⟨_, htasks, _⟩
    rcases h.paired htasks (by simp) (by simp) with ⟨hpair, henabled⟩
    rcases Option.map_eq_some_iff.mp hs with ⟨response, _, rfl⟩
    dsimp only
    split_ifs
    · exact Or.inr (Or.inr ⟨hpair, by simp⟩)
    · exact Or.inr (Or.inr ⟨hpair, henabled⟩)
  · next r ht =>
    rcases hok.of_task ht with ⟨_, htasks, _⟩
    rcases Option.map_eq_some_iff.mp hs with ⟨response, _, rfl⟩
    exact Or.inr (Or.inr (h.paired htasks (by simp) (by simp)))
  · cases hs

theorem read (h : page.Keyed) (hok : page.Ok σ) (hs : page.read n = some page') :
    page'.Keyed := by
  unfold BobPage.read at hs
  split at hs
  · next response ht =>
    rcases hok.of_task ht with ⟨_, htasks, hscreen⟩
    rcases h.paired htasks (by simp) (by simp) with ⟨hpair, henabled⟩
    obtain rfl := Option.some.inj hs
    right; right
    unfold BobPage.loaded
    split
    · exact ⟨hpair, by simp⟩
    · split_ifs
      · exact ⟨hpair, fun _ => henabled (Or.inl hscreen)⟩
      · exact ⟨hpair, by simp⟩
  · next response ht =>
    rcases hok.of_task ht with ⟨_, htasks, hscreen, _⟩
    obtain rfl := Option.some.inj hs
    exact verified (h.paired htasks (by simp) (by simp)).1 hscreen response _
  · cases hs

theorem imported (h : page.Keyed) (hok : page.Ok σ) (hs : page.imported n = some page') :
    page'.Keyed := by
  unfold BobPage.imported at hs
  split at hs
  swap
  · cases hs
  next jwk ht =>
  rcases hok.of_task ht with ⟨_, htasks, hscreen, _⟩
  rcases h.paired htasks (by simp) (by simp) with ⟨hpair, _⟩
  split at hs
  · cases hs
  · split at hs
    · next hnone => exact absurd hnone hpair
    · obtain rfl := Option.some.inj hs
      exact Or.inr (Or.inr ⟨hpair, by simp [BobPage.goOn, hscreen]⟩)

theorem derived (h : page.Keyed) (hok : page.Ok σ) (hs : page.derived n = some page') :
    page'.Keyed := by
  unfold BobPage.derived at hs
  split at hs
  · next ht =>
    rcases hok.of_task ht with ⟨_, htasks, _⟩
    obtain rfl := Option.some.inj hs
    exact Or.inr (Or.inr ⟨(h.paired htasks (by simp) (by simp)).1, by simp⟩)
  · cases hs

theorem rejected (h : page.Keyed) (hok : page.Ok σ) (hs : page.rejected n = some page') :
    page'.Keyed := by
  unfold BobPage.rejected at hs
  split at hs
  case h_5 response ht =>
    rcases hok.of_task ht with ⟨_, htasks, hscreen, _⟩
    obtain rfl := Option.some.inj hs
    exact verified (h.paired htasks (by simp) (by simp)).1 hscreen response _
  case h_8 => cases hs
  -- in the other cases the page is told, or can try again
  all_goals
    next ht =>
    rcases hok.of_task ht with ⟨_, htasks, _⟩
    obtain rfl := Option.some.inj hs
    exact Or.inr (Or.inr ⟨(h.paired htasks (by simp) (by simp)).1, by simp [BobPage.retry]⟩)

end BobPage.Keyed

/-- Page `b` is keyed, if it is open. -/
def World.Keyed (b : ℕ) (w : World W) : Prop := ∀ page, w.bobs b = some page → page.Keyed

theorem World.Keyed.init : (World.init : World W).Keyed b := by
  simp [World.Keyed, World.init]

theorem submit_of_ready {page : BobPage W} {p : ℕ} {bobName answer : Str}
    (hscreen : page.screen = .bobChallenge) (henabled : page.submitDisabled = false)
    (hpair : page.bobKeyPair = some p) (hname : trim bobName ≠ []) (hanswer : trim answer ≠ []) :
    ∃ page', page.submit bobName answer = some page' ∧ page'.screen = .scoring := by
  unfold BobPage.submit
  rw [if_pos ⟨hscreen, henabled⟩, if_neg (by simp [hname, hanswer]), hpair]
  exact ⟨_, rfl, rfl⟩

theorem keyed_of_next (hlog : ∀ p, ProtocolLog.keyGenerated (W.jwk p) = true) (hw : w.Ok env)
    (hkeyed : w.Keyed b) (he : ∀ n r limited, e ≠ .bob b (.keyless n r limited))
    (h : World.next env e w = some w') : w'.Keyed b := by
  by_cases hb : ∀ a, e ≠ .bob b a
  · intro page hpage
    rw [bobs_of_next h hb] at hpage
    exact hkeyed page hpage
  · push Not at hb
    rcases hb with ⟨a, rfl⟩
    have hquiet : ∀ {f : BobPage W → Option (BobPage W)} {w₁}, w.ofBob b f = some w₁ →
        (∀ page page', page.Keyed → page.Ok w.server → f page = some page' → page'.Keyed) →
        w₁.Keyed b := by
      intro f w₁ hf hkeeps page₁ hpage₁
      rcases ofBob_eq_some hf with ⟨page, page', hpage, hf', rfl⟩
      rw [setBob_bobs, if_pos rfl] at hpage₁
      obtain rfl := Option.some.inj hpage₁
      exact hkeeps page _ (hkeyed page hpage) (hw.bobs b page hpage) hf'
    have hsending : ∀ {f : BobPage W → Option (BobPage W × Request)} {r : ℕ} {limited : Bool},
        w.ofBobSending env b r limited f = some w' →
        (∀ page page' q, page.Keyed → page.Ok w.server → f page = some (page', q) → page'.Keyed) →
        w'.Keyed b := by
      intro f r limited hf hkeeps page₁ hpage₁
      rcases ofBobSending_eq_some hf with ⟨page, page', q, σ', hpage, hf', _, rfl⟩
      obtain rfl : page' = page₁ := by simpa [World.setBob] using hpage₁
      exact hkeeps page page' q (hkeyed page hpage) (hw.bobs b page hpage) hf'
    cases a with
    | init sid =>
      rcases called_of_next rfl h with ⟨sid, _, rfl⟩ | ⟨page, page', hpage, _⟩
      · intro page hpage
        rw [setBob_bobs, if_pos rfl] at hpage
        exact Or.inl (Option.some.inj hpage ▸ rfl)
      · simp [World.next, World.bobStep, hpage] at h
    | submit bobName answer => exact hquiet h fun _ _ hk _ => hk.submit
    | generated n =>
      rcases Option.map_eq_some_iff.mp h with ⟨w₁, hw₁, rfl⟩
      have hk := hquiet hw₁ fun _ _ _ hok => BobPage.Keyed.generated hok
      exact hk
    | fetch n r limited => exact hsending h fun _ _ _ _ hok => BobPage.Keyed.fetch hlog hok
    | keyless n r limited => exact absurd rfl (he n r limited)
    | post n r limited => exact hsending h fun _ _ _ hk hok => hk.post hok
    | answered n => exact hquiet h fun _ _ hk hok => hk.answered hok
    | read n => exact hquiet h fun _ _ hk hok => hk.read hok
    | imported n => exact hquiet h fun _ _ hk hok => hk.imported hok
    | derived n => exact hquiet h fun _ _ hk hok => hk.derived hok
    | rejected n => exact hquiet h fun _ _ hk hok => hk.rejected hok

/-! ## The theorem -/

theorem unbounded_of_next (hw : w.server.Unbounded) (h : World.next env e w = some w') :
    w'.server.Unbounded := by
  rcases server_of_next h with hsame | ⟨l, hs, _⟩
  · rwa [hsame]
  · exact hw.of_step hs

/-- What holds of every page of Bob's in every run. -/
structure World.Resting (env : Env) (w : World W) : Prop where
  ok : w.Ok env
  rests : w.Rests
  unbounded : w.server.Unbounded

theorem World.Resting.init : (World.init : World W).Resting env where
  ok := World.Ok.init
  rests := by simp [World.Rests, World.init]
  unbounded := ⟨0, fun _ _ => rfl⟩

theorem World.Resting.of_next (hw : w.Resting env) (h : World.next env e w = some w') :
    w'.Resting env where
  ok := hw.ok.of_next h
  rests := rests_of_next hw.ok hw.rests h
  unbounded := unbounded_of_next hw.unbounded h

/-- The page goes on by itself until it is at rest. -/
theorem World.Resting.alone (hw : w.Resting env) {page : BobPage W} (hpage : w.bobs b = some page) :
    ∃ ls w' page', (world env W).Run (forPage b) w ls w' ∧ w'.bobs b = some page' ∧
      page'.AtRest := by
  induction hn : w.bobRank b using Nat.strongRecOn generalizing w page with
  | ind n ih =>
    by_cases htasks : page.tasks = []
    · exact ⟨[], w, page, .nil w, hpage, hw.rests b page hpage htasks⟩
    · rcases bob_goesOn hw.ok hw.unbounded hpage htasks with ⟨ls, w₁, page₁, hrun, hpage₁, hlt⟩
      have hw₁ : w₁.Resting env :=
        hrun.preserves (P := fun w => w.Resting env) (fun _ _ _ _ hs hw => hw.of_next hs) hw
      rcases ih _ (hn ▸ hlt) hw₁ hpage₁ rfl with ⟨ls', w₂, page₂, hrun', hpage₂, hrest⟩
      exact ⟨ls ++ ls', w₂, page₂, hrun.append hrun', hpage₂, hrest⟩

/-- Each time a page of Bob's is opened or his answer submitted, five promises are settled at most.
The page shows `step-loading` or `step-scoring` exactly while one is pending; and then, whatever the
others have done, it gets to another screen by itself and its request. If its keys were generated,
the challenge is never shown without a button that works. -/
theorem bob_comes_to_rest {ls : List Event} (h : (world env W).Run Lts.anyStep World.init ls w)
    (b : ℕ) :
    ls.countP (Event.settles b) ≤ 5 * ls.countP (Event.calls b) ∧
    ∀ page, w.bobs b = some page →
      (page.AtRest ↔ page.tasks = []) ∧ page.tasks.length ≤ 1 ∧
      (∃ ls' w' page', (world env W).Run (forPage b) w ls' w' ∧ w'.bobs b = some page' ∧
        page'.AtRest) ∧
      ((∀ n r limited, .bob b (.keyless n r limited) ∉ ls) →
        (∀ p, ProtocolLog.keyGenerated (W.jwk p) = true) → page.screen = .bobChallenge →
        ∀ bobName answer, trim bobName ≠ [] → trim answer ≠ [] →
          ∃ page', page.submit bobName answer = some page' ∧ page'.screen = .scoring) := by
  have hresting : w.Resting env :=
    h.invariant (P := fun w => w.Resting env) .init fun _ _ _ _ hs hw => hw.of_next hs
  constructor
  · have hguarded := h.guarded (P := fun w => w.Ok env) (fun _ _ _ _ hs hw => hw.of_next hs) .init
    have hcount : ls.countP (Event.settles b) + w.bobRank b ≤
        World.init.bobRank b + 5 * ls.countP (Event.calls b) :=
      hguarded.countP_add_rank_le_mul (fun _ _ _ hok hs he => bobRank_of_settles hok.2 he hs)
        (fun _ _ _ _ hs he => bobRank_of_calls he hs)
        (fun _ _ _ hok hs he => bobRank_of_others hok.2 he hs)
    have hinit : World.bobRank b (World.init : World W) = 0 := rfl
    omega
  · intro page hpage
    have hok := hresting.ok.bobs b page hpage
    refine ⟨⟨?_, hresting.rests b page hpage⟩, ?_, hresting.alone hpage, ?_⟩
    · intro hrest
      by_contra hpending
      exact hok.not_atRest hpending hrest
    · rcases hok.waits with hnone | ⟨task, hone, _⟩
      · simp [hnone]
      · simp [hone]
    · intro hkeys hlog hscreen bobName answer hname hanswer
      have hlabels := h.of_labels (p := fun e => ∀ n r limited, e ≠ .bob b (.keyless n r limited))
        fun e he n r limited heq => hkeys n r limited (heq ▸ he)
      have hinv : w.Ok env ∧ w.Keyed b := by
        refine hlabels.invariant (P := fun w => w.Ok env ∧ w.Keyed b) ⟨.init, .init⟩ ?_
        rintro e s t ⟨_, he⟩ hs ⟨hs₁, hs₂⟩
        exact ⟨hs₁.of_next hs, keyed_of_next hlog hs₁ hs₂ he hs⟩
      have htasks := hok.tasks_of_challenge hscreen
      rcases hinv.2 page hpage with hgen | ⟨p, hexp⟩ | ⟨hpair, henabled⟩
      · rw [htasks] at hgen
        cases hgen
      · rw [htasks] at hexp
        cases hexp
      · rcases Option.ne_none_iff_exists'.mp hpair with ⟨p, hp⟩
        exact submit_of_ready hscreen (henabled (Or.inr hscreen)) hp hname hanswer

/-- It applies where the session is deleted while Bob's answer is on its way, and where the
challenge is shown. -/
theorem bob_comes_to_rest_sample :
    let W := world Sample.config Sample.crypto
    let w := W.after (Sample.session.take 20 ++
      [.server (.request 5 (.delete Sample.sid) false), .server (.redis 5 .none)])
    let v := W.after (Sample.session.take 18)
    (∃ ls' w' page', W.Run (forPage 0) w ls' w' ∧ w'.bobs 0 = some page' ∧ page'.AtRest) ∧
      ∃ page page', v.bobs 0 = some page ∧
        page.submit (lit "Bob") (lit "porto") = some page' ∧ page'.screen = .scoring := by
  intro W w v
  have hw : W.Run Lts.anyStep World.init _ w := Lts.run_after W _ (by decide +kernel)
  have hv : W.Run Lts.anyStep World.init _ v := Lts.run_after W _ (by decide +kernel)
  have hopen : (w.bobs 0).isSome = true := by decide +kernel
  have hshown : (v.bobs 0).map BobPage.screen = some .bobChallenge := by decide +kernel
  clear_value w v
  have hkeys : ∀ n r limited, Event.bob 0 (.keyless n r limited) ∉ Sample.session.take 18 := by
    simp [Sample.session]
  have hlog : ∀ p, ProtocolLog.keyGenerated (Sample.crypto.jwk p) = true := fun p => rfl
  rcases Option.isSome_iff_exists.mp hopen with ⟨page, hpage⟩
  rcases Option.map_eq_some_iff.mp hshown with ⟨page₁, hpage₁, hscreen⟩
  rcases ((bob_comes_to_rest hv 0).2 page₁ hpage₁).2.2.2 hkeys hlog hscreen (lit "Bob")
    (lit "porto") (by decide) (by decide) with ⟨page₂, hsubmit, hscoring⟩
  exact ⟨((bob_comes_to_rest hw 0).2 page hpage).2.2.1, page₁, page₂, hpage₁, hsubmit, hscoring⟩

end Doppelganger
