import Doppelganger.Agreement
import Doppelganger.Creating
import Doppelganger.Pages

/-!
# What the pages know

`aliceKeyPair` is one variable, written by a generation nobody awaits and read by the handler
of an earlier session. What keeps the two apart is that the page never waits for two things:
a new pair is only asked for on a screen that is left by posting it, and a stream is only open
on a screen without a button. `Activity` is the one thing it waits for, `ActivityOk` what is
known of `aliceKeyPair` meanwhile, and `World.Ok` the invariant of pages and server together.
-/

open Text

namespace Doppelganger

/-- `jwk` is the key of the call that finalized session `sid`. -/
def State.WinnersKey (σ : State) (sid : Str) (jwk : Json) : Prop :=
  ∃ k ∈ σ.commits, k.sid = sid ∧ k.form.bobPubkeyJwk = jwk

/-- Pair `p` won session `sid`, whose creator posted `jwk`. -/
def State.WonWith (σ : State) (W : Crypto) (sid : Str) (p : ℕ) (jwk : Json) : Prop :=
  σ.WinnersKey sid (W.jwk p) ∧ ∃ c ∈ σ.creations, c.sid = sid ∧ c.form.alicePubkeyJwk = jwk

/-! ## What Alice's page waits for -/

/-- What a page can wait for, one thing at a time. -/
inductive Activity (W : Crypto) where
  | idle
  | task (task : AliceTask W)
  | source (es : EventSource)

variable {W : Crypto}

/-- The page waits for `act` and for nothing else. -/
def AlicePage.Awaits (page : AlicePage W) : Activity W → Prop
  | .idle => page.tasks = [] ∧ page.sources = []
  | .task task => page.tasks = [task] ∧ page.sources = []
  | .source es => page.tasks = [] ∧ page.sources = [es]

theorem eq_of_getElem?_singleton {α : Type*} {a b : α} {n : ℕ} (h : [a][n]? = some b) :
    n = 0 ∧ a = b := by
  cases n with
  | zero => exact ⟨rfl, by simpa using h⟩
  | succ n => simp at h

namespace AlicePage.Awaits

variable {page page' : AlicePage W} {act : Activity W} {task task' : AliceTask W}
  {es es' : EventSource}

theorem of_task (h : page.Awaits act) {n : ℕ} (ht : page.tasks[n]? = some task) :
    n = 0 ∧ act = .task task := by
  cases act with
  | task t =>
    rw [h.1] at ht
    rcases eq_of_getElem?_singleton ht with ⟨rfl, rfl⟩
    exact ⟨rfl, rfl⟩
  | _ => simp [h.1] at ht

theorem of_source (h : page.Awaits act) {n : ℕ} (hs : page.sources[n]? = some es) :
    n = 0 ∧ act = .source es := by
  cases act with
  | source s =>
    rw [h.2] at hs
    rcases eq_of_getElem?_singleton hs with ⟨rfl, rfl⟩
    exact ⟨rfl, rfl⟩
  | _ => simp [h.2] at hs

theorem goOn (h : page.Awaits (.task task)) (ht : page'.tasks = page.tasks.set 0 task')
    (hs : page'.sources = page.sources) : page'.Awaits (.task task') :=
  ⟨by simp [ht, h.1], hs.trans h.2⟩

theorem finish (h : page.Awaits (.task task)) (ht : page'.tasks = page.tasks.eraseIdx 0)
    (hs : page'.sources = page.sources) : page'.Awaits .idle :=
  ⟨by simp [ht, h.1], hs.trans h.2⟩

theorem await (h : page.Awaits .idle) (ht : page'.tasks = page.tasks ++ [task])
    (hs : page'.sources = page.sources) : page'.Awaits (.task task) :=
  ⟨by simp [ht, h.1], hs.trans h.2⟩

theorem listen (h : page.Awaits .idle) (ht : page'.tasks = page.tasks)
    (hs : page'.sources = page.sources ++ [es]) : page'.Awaits (.source es) :=
  ⟨ht.trans h.1, by simp [hs, h.2]⟩

theorem setSource (h : page.Awaits (.source es)) (ht : page'.tasks = page.tasks)
    (hs : page'.sources = page.sources.set 0 es') : page'.Awaits (.source es') :=
  ⟨ht.trans h.1, by simp [hs, h.2]⟩

theorem close (h : page.Awaits (.source es)) (ht : page'.tasks = page.tasks)
    (hs : page'.sources = page.sources.eraseIdx 0) : page'.Awaits .idle :=
  ⟨ht.trans h.1, by simp [hs, h.2]⟩

/-- Only tasks and event sources matter. -/
theorem congr (h : page.Awaits act) (ht : page'.tasks = page.tasks)
    (hs : page'.sources = page.sources) : page'.Awaits act := by
  cases act <;> exact ⟨ht.trans h.1, hs.trans h.2⟩

end AlicePage.Awaits

/-! ## The invariant -/

namespace World

variable (w : World W)

/-- Session `sid` was created by a request that carried the public half of pair `p`. -/
def PostedFor (sid : Str) (p : ℕ) : Prop :=
  ∃ c ∈ w.server.creations, c.sid = sid ∧ (c.req, p) ∈ w.alice.posted

/-- No session that pair `p` was posted for has ended. -/
def Unspent (p : ℕ) : Prop := ∀ sid ∈ w.alice.ended, ¬ w.PostedFor sid p

/-- `aliceKeyPair` is a pair that can be posted. -/
def Ready (p : ℕ) : Prop := w.alice.aliceKeyPair = some p ∧ w.Unspent p

/-- `aliceKeyPair` is the pair that was posted for session `sid`. -/
def Engaged (sid : Str) : Prop := ∃ p, w.alice.aliceKeyPair = some p ∧ w.PostedFor sid p

/-- The screens on which a pair may be missing or new. -/
def Preparing : Prop := w.alice.screen = .landing ∨ w.alice.screen = .create

/-- What is known while the page waits for a task. -/
def TaskOk : AliceTask W → Prop
  | .generating => w.Preparing
  | .exporting p => w.Preparing ∧ w.Ready p
  | .creating _ _ _ p => w.alice.screen = .create ∧ w.Ready p
  | .posting r => w.alice.screen = .create ∧ ∃ p, w.Ready p ∧ (r, p) ∈ w.alice.posted
  | .reading response => w.alice.screen = .create ∧ ∃ p r, w.Ready p ∧ (r, p) ∈ w.alice.posted ∧
      w.server.answer? r = some response
  | .importing sid jwk => w.alice.screen = .waiting ∧ w.Engaged sid ∧ w.server.WinnersKey sid jwk
  | .derivingKey sid p key => w.alice.screen = .waiting ∧ w.PostedFor sid p ∧
      ∃ jwk, w.server.WinnersKey sid jwk ∧ W.importPublicKey jwk = some key

/-- What is known while the page waits for `act`. -/
def ActivityOk : Activity W → Prop
  | .idle => w.alice.createDisabled = false → w.Preparing → ∃ p, w.Ready p
  | .task task => w.alice.createDisabled = true ∧ w.TaskOk task
  | .source es => w.alice.createDisabled = true ∧ w.alice.screen = .waiting ∧ w.Engaged es.sid ∧
      ∀ i k, es.conn = some (i, k) → ∃ st, w.server.streams i = some st ∧ st.sid = es.sid

end World

/-- What is known in state `σ` while a page of Bob's waits for a task. -/
def BobPage.TaskOk (page : BobPage W) (σ : State) : BobTask W → Prop
  | .generating => page.screen = .loading
  | .exporting p => page.screen = .loading ∧ page.bobKeyPair = some p
  | .fetching _ => page.screen = .loading
  | .loading _ => page.screen = .loading
  | .submitting _ _ p => page.screen = .scoring ∧ page.bobKeyPair = some p
  | .posting r => page.screen = .scoring ∧ ∃ p, page.bobKeyPair = some p ∧ (r, p) ∈ page.posted
  | .reading response => page.screen = .scoring ∧ ∃ p r, page.bobKeyPair = some p ∧
      (r, p) ∈ page.posted ∧ σ.answer? r = some response
  | .importing jwk => page.screen = .scoring ∧ ∃ p, page.bobKeyPair = some p ∧
      σ.WonWith W page.sid p jwk
  | .derivingKey p key => page.screen = .scoring ∧ ∃ jwk, σ.WonWith W page.sid p jwk ∧
      W.importPublicKey jwk = some key

structure BobPage.Ok (σ : State) (page : BobPage W) : Prop where
  posted : ∀ r p, (r, p) ∈ page.posted → ∃ body, σ.request? r = some (.verify page.sid body) ∧
    body.get? (lit "bob_pubkey_jwk") = some (W.jwk p)
  passed : ∀ key ∈ page.passed, ∃ p jwk k, σ.WonWith W page.sid p jwk ∧
    W.importPublicKey jwk = some k ∧ key = W.derived p k
  waits : page.tasks = [] ∨ ∃ task, page.tasks = [task] ∧ page.TaskOk σ task

/-- The invariant of the pages and the server. -/
structure World.Ok (env : Env) (w : World W) : Prop where
  server : Inv env w.server
  flow : Flow env w.server
  created : Created w.server
  posted : ∀ r p, (r, p) ∈ w.alice.posted → p < w.pairs ∧
    ∃ body, w.server.request? r = some (.create body) ∧
      body.get? (lit "alice_pubkey_jwk") = some (W.jwk p)
  /-- A request carries one pair. -/
  once : ∀ r p p', (r, p) ∈ w.alice.posted → (r, p') ∈ w.alice.posted → p = p'
  held : ∀ p, w.alice.aliceKeyPair = some p → p < w.pairs
  ended : ∀ sid ∈ w.alice.ended, ∃ c ∈ w.server.creations, c.sid = sid
  passed : ∀ sid key, (sid, key) ∈ w.alice.passed → ∃ p jwk k, w.PostedFor sid p ∧
    w.server.WinnersKey sid jwk ∧ W.importPublicKey jwk = some k ∧ key = W.derived p k
  alice : ∃ act, w.alice.Awaits act ∧ w.ActivityOk act
  bobs : ∀ b page, w.bobs b = some page → page.Ok w.server

/-! ## Steps of the server -/

section Server

variable {env : Env} {σ σ' : State} {w : World W}

theorem State.Later.winnersKey (hl : σ.Later σ') {sid : Str} {jwk : Json}
    (h : σ.WinnersKey sid jwk) : σ'.WinnersKey sid jwk := by
  rcases h with ⟨k, hk, hs, hjwk⟩
  exact ⟨k, hl.commits.subset hk, hs, hjwk⟩

theorem State.Later.wonWith (hl : σ.Later σ') {sid : Str} {p : ℕ} {jwk : Json}
    (h : σ.WonWith W sid p jwk) : σ'.WonWith W sid p jwk := by
  rcases h with ⟨hwin, c, hc, hs, hjwk⟩
  exact ⟨hl.winnersKey hwin, c, hl.creations.subset hc, hs, hjwk⟩

/-- What Bob's page knows stays true. -/
theorem BobPage.Ok.later {page : BobPage W} (h : page.Ok σ) (hl : σ.Later σ') : page.Ok σ' where
  posted := by
    intro r p hmem
    rcases h.posted r p hmem with ⟨body, hreq, hjwk⟩
    exact ⟨body, hl.request _ _ hreq, hjwk⟩
  passed := by
    intro key hmem
    rcases h.passed key hmem with ⟨p, jwk, k, hwon, hk⟩
    exact ⟨p, jwk, k, hl.wonWith hwon, hk⟩
  waits := by
    rcases h.waits with hnone | ⟨task, htask, hok⟩
    · exact Or.inl hnone
    · refine Or.inr ⟨task, htask, ?_⟩
      cases task with
      | reading response =>
        rcases hok with ⟨hscreen, p, r, hkey, hmem, hans⟩
        exact ⟨hscreen, p, r, hkey, hmem, hl.answer _ _ hans⟩
      | importing jwk =>
        rcases hok with ⟨hscreen, p, hkey, hwon⟩
        exact ⟨hscreen, p, hkey, hl.wonWith hwon⟩
      | derivingKey p key =>
        rcases hok with ⟨hscreen, jwk, hwon, hk⟩
        exact ⟨hscreen, jwk, hl.wonWith hwon, hk⟩
      | _ => exact hok

namespace World.Ok

theorem postedFor_of_step {l : Label} (h : step env l w.server = some σ') {sid : Str} {p : ℕ}
    (hp : w.PostedFor sid p) : PostedFor { w with server := σ' } sid p := by
  rcases hp with ⟨c, hc, hs, hmem⟩
  exact ⟨c, (later_of_step h).creations.subset hc, hs, hmem⟩

/-- A session that has ended was created before, so nothing is posted for it any more. -/
theorem unspent_of_step (hw : w.Ok env) {l : Label} (h : step env l w.server = some σ') {p : ℕ}
    (hp : w.Unspent p) : Unspent { w with server := σ' } p := by
  rintro sid hsid ⟨c', hc', hs', hmem⟩
  rcases hw.ended sid hsid with ⟨c, hc, hs⟩
  have hgrow := (later_of_step h).creations.subset hc
  obtain rfl := (hw.server.of_step h).creation_unique hc' hgrow (hs'.trans hs.symm)
  exact hp sid hsid ⟨c', hc, hs, hmem⟩

theorem ready_of_step (hw : w.Ok env) {l : Label} (h : step env l w.server = some σ') {p : ℕ}
    (hp : w.Ready p) : Ready { w with server := σ' } p :=
  ⟨hp.1, hw.unspent_of_step h hp.2⟩

theorem engaged_of_step {l : Label} (h : step env l w.server = some σ') {sid : Str}
    (hs : w.Engaged sid) : Engaged { w with server := σ' } sid := by
  rcases hs with ⟨p, hkey, hp⟩
  exact ⟨p, hkey, postedFor_of_step h hp⟩

/-- A step of the server takes nothing away from what Alice's page knows. -/
theorem activityOk_of_step (hw : w.Ok env) {l : Label} (h : step env l w.server = some σ')
    {act : Activity W} (hact : w.ActivityOk act) : ActivityOk { w with server := σ' } act := by
  have hl := later_of_step h
  cases act with
  | idle =>
    intro hdis hscreen
    rcases hact hdis hscreen with ⟨p, hp⟩
    exact ⟨p, hw.ready_of_step h hp⟩
  | source es =>
    rcases hact with ⟨hdis, hscreen, hengaged, hconn⟩
    refine ⟨hdis, hscreen, engaged_of_step h hengaged, ?_⟩
    intro i k hc
    rcases hconn i k hc with ⟨st, hst, hs⟩
    -- the stream that the source is connected to keeps its session
    rcases moved_of_step h hst with ⟨st', hst', hmoved⟩
    exact ⟨st', hst', hmoved.frame.1.trans hs⟩
  | task task =>
    refine ⟨hact.1, ?_⟩
    have htask := hact.2
    cases task with
    | generating => exact htask
    | exporting p => exact ⟨htask.1, hw.ready_of_step h htask.2⟩
    | creating _ _ _ p => exact ⟨htask.1, hw.ready_of_step h htask.2⟩
    | posting r =>
      rcases htask with ⟨hscreen, p, hp, hmem⟩
      exact ⟨hscreen, p, hw.ready_of_step h hp, hmem⟩
    | reading response =>
      rcases htask with ⟨hscreen, p, r, hp, hmem, hans⟩
      exact ⟨hscreen, p, r, hw.ready_of_step h hp, hmem, hl.answer _ _ hans⟩
    | importing sid jwk =>
      rcases htask with ⟨hscreen, hengaged, hwin⟩
      exact ⟨hscreen, engaged_of_step h hengaged, hl.winnersKey hwin⟩
    | derivingKey sid p key =>
      rcases htask with ⟨hscreen, hp, jwk, hwin, hk⟩
      exact ⟨hscreen, postedFor_of_step h hp, jwk, hl.winnersKey hwin, hk⟩

theorem of_server_step (hw : w.Ok env) {l : Label} (h : step env l w.server = some σ') :
    Ok env { w with server := σ' } where
  server := hw.server.of_step h
  flow := hw.flow.of_step hw.server h
  created := hw.created.of_step hw.server h
  posted := by
    intro r p hmem
    rcases hw.posted r p hmem with ⟨hlt, body, hreq, hjwk⟩
    exact ⟨hlt, body, (later_of_step h).request _ _ hreq, hjwk⟩
  once := hw.once
  held := hw.held
  ended := by
    intro sid hsid
    rcases hw.ended sid hsid with ⟨c, hc, hs⟩
    exact ⟨c, (later_of_step h).creations.subset hc, hs⟩
  passed := by
    intro sid key hmem
    rcases hw.passed sid key hmem with ⟨p, jwk, k, hp, hwin, hk⟩
    exact ⟨p, jwk, k, postedFor_of_step h hp, (later_of_step h).winnersKey hwin, hk⟩
  alice := by
    rcases hw.alice with ⟨act, hawaits, hact⟩
    exact ⟨act, hawaits, hw.activityOk_of_step h hact⟩
  bobs := fun b page hb => (hw.bobs b page hb).later (later_of_step h)

end World.Ok

end Server

end Doppelganger
