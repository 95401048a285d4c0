import Doppelganger.AliceSteps

/-!
# Steps of Bob's pages, and runs

A page of Bob's has one pair for good. What it has to learn is that a PASS means that its own
request won the session, and that the key in it is the one the session was created with.
With it the invariant holds in every run.
-/

open Text

namespace Doppelganger

variable {W : Crypto}

/-! ## Steps of Bob's pages -/

section Bob

variable {env : Env} {σ σ' : State} {page page' : BobPage W}

/-- The key a winner sent. -/
theorem Inv.key_of_commit (hi : Inv env σ) {k : Commit} (hk : k ∈ σ.commits) {sid : Str}
    {body : Json} (hreq : σ.request? k.req = some (.verify sid body)) :
    body.get? (lit "bob_pubkey_jwk") = some k.form.bobPubkeyJwk := by
  rcases hi.committer k hk with ⟨body', handler, _, _, hcommitter, haccepts, _⟩
  rcases (State.request?_eq_some _).mp hreq with ⟨handler', hreq⟩
  rcases Req.mk.inj (Option.some.inj (hcommitter.symm.trans hreq)) with ⟨heq, _⟩
  rcases Request.verify.inj heq with ⟨_, rfl⟩
  exact (verifyForm_eq_some.mp haccepts.2).2.2

/-- The key a session was created with. -/
theorem Inv.key_of_creation (hi : Inv env σ) {c : Creation} (hc : c ∈ σ.creations) {body : Json}
    (hreq : σ.request? c.req = some (.create body)) :
    body.get? (lit "alice_pubkey_jwk") = some c.form.alicePubkeyJwk := by
  rcases hi.creator c hc with ⟨body', handler, hcreator, haccepts, _⟩
  rcases (State.request?_eq_some _).mp hreq with ⟨handler', hreq⟩
  rcases Req.mk.inj (Option.some.inj (hcreator.symm.trans hreq)) with ⟨heq, _⟩
  obtain rfl := Request.create.inj heq
  exact (createForm_eq_some.mp haccepts.2).2.2.2

namespace BobPage.Ok

theorem of_task (h : page.Ok σ) {n : ℕ} {task : BobTask W} (ht : page.tasks[n]? = some task) :
    n = 0 ∧ page.tasks = [task] ∧ page.TaskOk σ task := by
  rcases h.waits with hnone | ⟨task', htask, hok⟩
  · simp [hnone] at ht
  · rw [htask] at ht
    rcases eq_of_getElem?_singleton ht with ⟨rfl, rfl⟩
    exact ⟨rfl, htask, hok⟩

/-- Where the challenge is shown, nothing is pending. -/
theorem tasks_of_challenge (h : page.Ok σ) (hscreen : page.screen = .bobChallenge) :
    page.tasks = [] := by
  rcases h.waits with hnone | ⟨task, _, hok⟩
  · exact hnone
  -- every task belongs to another screen
  · cases task with
    | generating => exact absurd (hscreen.symm.trans hok) (by decide)
    | fetching r => exact absurd (hscreen.symm.trans hok) (by decide)
    | loading response => exact absurd (hscreen.symm.trans hok) (by decide)
    | _ => exact absurd (hscreen.symm.trans hok.1) (by decide)

/-- A step that adds nothing to the histories. -/
theorem moved (h : page.Ok σ) (hsid : page'.sid = page.sid) (hposted : page'.posted = page.posted)
    (hpassed : page'.passed = page.passed)
    (hwaits : page'.tasks = [] ∨ ∃ task, page'.tasks = [task] ∧ page'.TaskOk σ task) :
    page'.Ok σ where
  posted := by rw [hsid, hposted]; exact h.posted
  passed := by rw [hsid, hpassed]; exact h.passed
  waits := hwaits

theorem goOn (h : page.Ok σ) {task task' : BobTask W} (h₀ : page.tasks = [task])
    (hsid : page'.sid = page.sid) (hposted : page'.posted = page.posted)
    (hpassed : page'.passed = page.passed) (ht : page'.tasks = page.tasks.set 0 task')
    (hok : page'.TaskOk σ task') : page'.Ok σ :=
  h.moved hsid hposted hpassed (Or.inr ⟨task', by simp [ht, h₀], hok⟩)

theorem finish (h : page.Ok σ) {task : BobTask W} (h₀ : page.tasks = [task])
    (hsid : page'.sid = page.sid) (hposted : page'.posted = page.posted)
    (hpassed : page'.passed = page.passed) (ht : page'.tasks = page.tasks.eraseIdx 0) :
    page'.Ok σ :=
  h.moved hsid hposted hpassed (Or.inl (by simp [ht, h₀]))

theorem await (h : page.Ok σ) {task : BobTask W} (h₀ : page.tasks = [])
    (hsid : page'.sid = page.sid) (hposted : page'.posted = page.posted)
    (hpassed : page'.passed = page.passed) (ht : page'.tasks = page.tasks ++ [task])
    (hok : page'.TaskOk σ task) : page'.Ok σ :=
  h.moved hsid hposted hpassed (Or.inr ⟨task, by simp [ht, h₀], hok⟩)

theorem init (sid : Str) : (BobPage.init sid : BobPage W).Ok σ where
  posted := by simp [BobPage.init]
  passed := by simp [BobPage.init]
  waits := Or.inr ⟨.generating, rfl, rfl⟩

theorem submit (h : page.Ok σ) {bobName answer : Str}
    (hs : page.submit bobName answer = some page') : page'.Ok σ := by
  unfold BobPage.submit at hs
  split_ifs at hs with hscreen
  · obtain rfl := Option.some.inj hs
    exact h
  · have htasks := h.tasks_of_challenge hscreen.1
    split at hs
    · obtain rfl := Option.some.inj hs
      exact h
    · next p hkey =>
      obtain rfl := Option.some.inj hs
      exact h.await htasks rfl rfl rfl rfl ⟨rfl, hkey⟩

theorem generated (h : page.Ok σ) {p n : ℕ} (hs : page.generated p n = some page') :
    page'.Ok σ := by
  unfold BobPage.generated at hs
  split at hs
  · next ht =>
    obtain rfl := Option.some.inj hs
    rcases h.of_task ht with ⟨rfl, htasks, hok⟩
    exact h.goOn htasks rfl rfl rfl rfl ⟨hok, rfl⟩
  · cases hs

theorem fetch (h : page.Ok σ) {n r : ℕ} {q : Request} (hs : page.fetch n r = some (page', q)) :
    page'.Ok σ := by
  unfold BobPage.fetch at hs
  split at hs
  · next p ht =>
    rcases h.of_task ht with ⟨rfl, htasks, hok⟩
    split_ifs at hs
    · rcases Prod.mk.inj (Option.some.inj hs) with ⟨rfl, _⟩
      exact h.goOn htasks rfl rfl rfl rfl hok.1
    · rcases Prod.mk.inj (Option.some.inj hs) with ⟨rfl, _⟩
      exact h.goOn htasks rfl rfl rfl rfl hok.1
  · cases hs

theorem keyless (h : page.Ok σ) {n r : ℕ} {q : Request}
    (hs : page.keyless n r = some (page', q)) : page'.Ok σ := by
  unfold BobPage.keyless at hs
  split at hs
  · next ht =>
    rcases h.of_task ht with ⟨rfl, htasks, hok⟩
    rcases Prod.mk.inj (Option.some.inj hs) with ⟨rfl, _⟩
    exact h.goOn htasks rfl rfl rfl rfl hok
  · next p ht =>
    rcases h.of_task ht with ⟨rfl, htasks, hok⟩
    rcases Prod.mk.inj (Option.some.inj hs) with ⟨rfl, _⟩
    exact h.goOn htasks rfl rfl rfl rfl hok.1
  · cases hs

theorem post (h : page.Ok σ) {n r : ℕ} {limited : Bool} {q : Request}
    (hs : page.post n r = some (page', q)) (hstep : step env (.request r q limited) σ = some σ') :
    page'.Ok σ' := by
  unfold BobPage.post at hs
  split at hs
  swap
  · cases hs
  next bobName answer p ht =>
  rcases h.of_task ht with ⟨rfl, htasks, hscreen, hkey⟩
  rcases Prod.mk.inj (Option.some.inj hs) with ⟨rfl, rfl⟩
  have h' := h.later (later_of_step hstep)
  have hreq := request?_of_arrival hstep
  exact
  { posted := by
      intro r' p' hmem
      rcases List.mem_cons.mp hmem with heq | hmem
      · rcases Prod.mk.inj heq with ⟨rfl, rfl⟩
        exact ⟨_, hreq, rfl⟩
      · exact h'.posted r' p' hmem
    passed := h'.passed
    waits := Or.inr ⟨.posting r, by simp [BobPage.goOn, htasks], hscreen, p, hkey,
      List.mem_cons_self⟩ }

/-- A PASS: the pair that was sent has won the session, and the key is its creator's. -/
theorem wonWith_of_pass (hi : Inv env σ) (h : page.Ok σ) {r p : ℕ} {response : Response}
    (hmem : (r, p) ∈ page.posted) (hans : σ.answer? r = some response)
    (hok : response.ok = true)
    (hpass : response.body.get? (lit "result") = some (.str (lit "PASS"))) {jwk : Json}
    (hjwk : response.body.get? (lit "alice_pubkey_jwk") = some jwk) :
    σ.WonWith W page.sid p jwk := by
  rcases h.posted r p hmem with ⟨body, hreq, hsent⟩
  have hnot : ¬ response.isError := by
    simp only [Response.ok, Bool.and_eq_true, decide_eq_true_eq] at hok
    simp only [Response.isError]
    omega
  -- an outcome is answered to the winner, from what the creator stored
  rcases hi.won_of_answer hreq hans hnot with ⟨k, hk, rfl, hks, c, hc, hcs, rfl⟩
  have hstatus : (c.response env k).status = 200 := by
    unfold Creation.response
    split_ifs <;> rfl
  have hp := (c.response_isPass_iff k).mp ⟨hstatus, hpass⟩
  have hresp : c.response env k = passResponse k.score c.form.alicePubkeyJwk := by
    simp [Creation.response, hp]
  have hkey : (passResponse k.score c.form.alicePubkeyJwk).body.get? (lit "alice_pubkey_jwk") =
      some c.form.alicePubkeyJwk := rfl
  rw [hresp, hkey] at hjwk
  refine ⟨⟨k, hk, hks, ?_⟩, c, hc, hcs, Option.some.inj hjwk⟩
  exact Option.some.inj ((hi.key_of_commit hk hreq).symm.trans hsent)

theorem verified (hi : Inv env σ) (h : page.Ok σ) {response : Response}
    (htasks : page.tasks = [.reading response]) (htask : page.TaskOk σ (.reading response))
    {data : Json} (hdata : data = .obj [] ∨ data = response.body) :
    (page.verified 0 response data).Ok σ := by
  rcases htask with ⟨hscreen, p, r, hkey, hmem, hans⟩
  have hretry : (page.finish 0).retry.Ok σ :=
    h.finish htasks rfl rfl rfl rfl
  unfold BobPage.verified
  split_ifs with hgone hok hpass
  · exact h.finish htasks rfl rfl rfl rfl
  · exact hretry
  · split
    · next jwk hjwk =>
      split_ifs
      · obtain rfl : data = response.body := by
          rcases hdata with rfl | rfl
          -- an empty object has no result
          · simp [Json.get?, Json.lookup] at hpass
          · rfl
        exact h.goOn htasks rfl rfl rfl rfl
          ⟨hscreen, p, hkey, wonWith_of_pass hi h hmem hans (by simpa using hok) hpass hjwk⟩
      · exact hretry
    · exact hretry
  · exact h.finish htasks rfl rfl rfl rfl

theorem answered (h : page.Ok σ) {n : ℕ} (hs : page.answered σ.answer? n = some page') :
    page'.Ok σ := by
  unfold BobPage.answered at hs
  split at hs
  · next r ht =>
    rcases h.of_task ht with ⟨rfl, htasks, hok⟩
    rcases Option.map_eq_some_iff.mp hs with ⟨response, _, rfl⟩
    dsimp only
    split_ifs
    · exact h.finish htasks rfl rfl rfl rfl
    · exact h.goOn htasks rfl rfl rfl rfl hok
  · next r ht =>
    rcases h.of_task ht with ⟨rfl, htasks, hscreen, p, hkey, hmem⟩
    rcases Option.map_eq_some_iff.mp hs with ⟨response, hans, rfl⟩
    exact h.goOn htasks rfl rfl rfl rfl ⟨hscreen, p, r, hkey, hmem, hans⟩
  · cases hs

theorem read (hi : Inv env σ) (h : page.Ok σ) {n : ℕ} (hs : page.read n = some page') :
    page'.Ok σ := by
  unfold BobPage.read at hs
  split at hs
  · next response ht =>
    rcases h.of_task ht with ⟨rfl, htasks, _⟩
    obtain rfl := Option.some.inj hs
    unfold BobPage.loaded
    split
    · exact h.finish htasks rfl rfl rfl rfl
    · split_ifs
      · exact h.finish htasks rfl rfl rfl rfl
      · exact h.finish htasks rfl rfl rfl rfl
  · next response ht =>
    rcases h.of_task ht with ⟨rfl, htasks, hok⟩
    obtain rfl := Option.some.inj hs
    refine verified hi h htasks hok ?_
    unfold Response.json
    split_ifs
    · exact Or.inr rfl
    · exact Or.inl rfl
  · cases hs

theorem imported (h : page.Ok σ) {n : ℕ} (hs : page.imported n = some page') : page'.Ok σ := by
  unfold BobPage.imported at hs
  split at hs
  swap
  · cases hs
  next jwk ht =>
  rcases h.of_task ht with ⟨rfl, htasks, hscreen, p, hkey, hwon⟩
  split at hs
  · cases hs
  · next key himport =>
    split at hs
    · next hnone => exact absurd (hkey.symm.trans hnone) (by simp)
    · next p' hkey' =>
      obtain rfl := Option.some.inj hs
      obtain rfl := Option.some.inj (hkey.symm.trans hkey')
      exact h.goOn htasks rfl rfl rfl rfl ⟨hscreen, jwk, hwon, himport⟩

theorem derived (h : page.Ok σ) {n : ℕ} (hs : page.derived n = some page') : page'.Ok σ := by
  unfold BobPage.derived at hs
  split at hs
  swap
  · cases hs
  next p key ht =>
  rcases h.of_task ht with ⟨rfl, htasks, hscreen, jwk, hwon, himport⟩
  obtain rfl := Option.some.inj hs
  exact
  { posted := h.posted
    passed := by
      intro key' hmem
      rcases List.mem_cons.mp hmem with rfl | hmem
      · exact ⟨p, jwk, key, hwon, himport, rfl⟩
      · exact h.passed key' hmem
    waits := Or.inl (by simp [BobPage.finish, htasks]) }

theorem rejected (hi : Inv env σ) (h : page.Ok σ) {n : ℕ} (hs : page.rejected n = some page') :
    page'.Ok σ := by
  unfold BobPage.rejected at hs
  split at hs
  case h_5 response ht =>
    rcases h.of_task ht with ⟨rfl, htasks, hok⟩
    obtain rfl := Option.some.inj hs
    exact verified hi h htasks hok (Or.inl rfl)
  case h_8 => cases hs
  -- in the other cases the function is over
  all_goals
    next ht =>
    rcases h.of_task ht with ⟨rfl, htasks, _⟩
    obtain rfl := Option.some.inj hs
    exact h.finish htasks rfl rfl rfl rfl

end BobPage.Ok

namespace World.Ok

variable {w w' : World W}

theorem setBob (hw : w.Ok env) {b : ℕ} (h : page.Ok w.server) : (w.setBob b page).Ok env :=
  { hw with
    bobs := by
      intro b' page' hb
      by_cases hbb : b' = b
      · subst hbb
        obtain rfl : page = page' := by simpa [World.setBob] using hb
        exact h
      · exact hw.bobs b' page' (by simpa [World.setBob, hbb] using hb) }

theorem ofBob (hw : w.Ok env) {b : ℕ} {f : BobPage W → Option (BobPage W)}
    (hf : ∀ page page', page.Ok w.server → f page = some page' → page'.Ok w.server)
    (h : w.ofBob b f = some w') : w'.Ok env := by
  rcases ofBob_eq_some h with ⟨page, page', hpage, hf', rfl⟩
  exact hw.setBob (hf page page' (hw.bobs b page hpage) hf')

theorem ofBobSending (hw : w.Ok env) {b r : ℕ} {limited : Bool}
    {f : BobPage W → Option (BobPage W × Request)}
    (hf : ∀ page page' q σ', page.Ok w.server → f page = some (page', q) →
      step env (.request r q limited) w.server = some σ' → page'.Ok σ')
    (h : w.ofBobSending env b r limited f = some w') : w'.Ok env := by
  rcases ofBobSending_eq_some h with ⟨page, page', q, σ', hpage, hf', hs, rfl⟩
  exact (hw.of_server_step hs).setBob (hf page page' q σ' (hw.bobs b page hpage) hf' hs)

theorem bob_step (hw : w.Ok env) {b : ℕ} {a : BobAct} (h : w.bobStep env b a = some w') :
    w'.Ok env := by
  cases a with
  | init sid =>
    simp only [World.bobStep] at h
    split at h
    · cases h
    · obtain rfl := Option.some.inj h
      exact hw.setBob (BobPage.Ok.init sid)
  | submit bobName answer => exact hw.ofBob (fun _ _ hp => hp.submit) h
  | generated n =>
    rcases Option.map_eq_some_iff.mp h with ⟨w₁, hw₁, rfl⟩
    have hok := hw.ofBob (fun _ _ hp => hp.generated) hw₁
    rcases ofBob_eq_some hw₁ with ⟨_, page', _, _, rfl⟩
    exact
    { hok with
      posted := fun r p hmem => ⟨(hok.posted r p hmem).1.trans (Nat.lt_succ_self _),
        (hok.posted r p hmem).2⟩
      held := fun p hkey => (hok.held p hkey).trans (Nat.lt_succ_self _) }
  | fetch n r limited =>
    exact hw.ofBobSending (fun _ _ _ _ hp hf hs => (hp.fetch hf).later (later_of_step hs)) h
  | keyless n r limited =>
    exact hw.ofBobSending (fun _ _ _ _ hp hf hs => (hp.keyless hf).later (later_of_step hs)) h
  | post n r limited => exact hw.ofBobSending (fun _ _ _ _ hp hf hs => hp.post hf hs) h
  | answered n => exact hw.ofBob (fun _ _ hp => hp.answered) h
  | read n => exact hw.ofBob (fun _ _ hp => hp.read hw.server) h
  | imported n => exact hw.ofBob (fun _ _ hp => hp.imported) h
  | derived n => exact hw.ofBob (fun _ _ hp => hp.derived) h
  | rejected n => exact hw.ofBob (fun _ _ hp => hp.rejected hw.server) h

end World.Ok

end Bob

/-! ## Runs -/

section Runs

variable {env : Env} {w w' : World W}

namespace World.Ok

theorem init : (World.init : World W).Ok env where
  server := Inv.init
  flow := Flow.init
  created := by simp [Created, World.init, State.init]
  posted := by simp [World.init, AlicePage.init]
  once := by simp [World.init, AlicePage.init]
  held := by simp [World.init, AlicePage.init]
  ended := by simp [World.init, AlicePage.init]
  passed := by simp [World.init, AlicePage.init]
  alice := ⟨.task .generating, ⟨rfl, rfl⟩, rfl, Or.inl rfl⟩
  bobs := by simp [World.init]

theorem of_next (hw : w.Ok env) {e : Event} (h : World.next env e w = some w') : w'.Ok env := by
  cases e with
  | server l =>
    rcases Option.map_eq_some_iff.mp h with ⟨σ', hs, rfl⟩
    exact hw.of_server_step hs
  | alice a => exact hw.alice_step h
  | bob b a => exact hw.bob_step h

theorem of_reach {ok : Lts.Guard (World W) Event} (h : (world env W).Reach ok w) : w.Ok env :=
  h.invariant (P := fun w => w.Ok env) init fun _ _ _ _ hs hw => hw.of_next hs

end World.Ok

end Runs

end Doppelganger
