import Doppelganger.PageInv
import Doppelganger.PageSteps

/-!
# Steps of Alice's page

One lemma for each case of `AliceMoved`, from what is known of the one thing the page was
waiting for to what is known of the next. Two of them carry the argument: a pair
is posted in a request that was not there before, so it cannot be for a session that has
ended, and an answered create request names the session it created.
-/

open Text

namespace Doppelganger

variable {W : Crypto}

section Alice

variable {env : Env} {w : World W} {act : Activity W}

namespace World

/-- Where a button of `step-create` is enabled, or a result is shown, nothing is pending. -/
theorem ActivityOk.idle (h : w.ActivityOk act)
    (hw : w.alice.createDisabled = false ∨ w.alice.screen = .alicePass ∨
      w.alice.screen = .aliceFail) : act = .idle := by
  have hscreen : act ≠ .idle → w.alice.createDisabled = true ∧
      (w.alice.screen = .landing ∨ w.alice.screen = .create ∨ w.alice.screen = .waiting) := by
    intro hne
    cases act with
    | idle => exact absurd rfl hne
    | source es => exact ⟨h.1, Or.inr (Or.inr h.2.1)⟩
    | task task =>
      refine ⟨h.1, ?_⟩
      have htask := h.2
      cases task with
      | generating => exact htask.imp_right Or.inl
      | exporting p => exact htask.1.imp_right Or.inl
      | importing sid jwk => exact Or.inr (Or.inr htask.1)
      | derivingKey sid p key => exact Or.inr (Or.inr htask.1)
      | _ => exact Or.inr (Or.inl htask.1)
  by_contra hne
  rcases hscreen hne with ⟨hdis, hs⟩
  rcases hw with hw | hw | hw
  · simp [hdis] at hw
  · simp [hw] at hs
  · simp [hw] at hs

namespace Ok

/-- A step of Alice's page that adds nothing to its histories. -/
theorem moved (hw : w.Ok env) {page : AlicePage W} {pairs : ℕ}
    (hposted : page.posted = w.alice.posted) (hended : page.ended = w.alice.ended)
    (hpassed : page.passed = w.alice.passed) (hpairs : w.pairs ≤ pairs)
    (hheld : ∀ p, page.aliceKeyPair = some p → p < pairs) (hawaits : page.Awaits act)
    (hact : ActivityOk { w with alice := page, pairs := pairs } act) :
    Ok env { w with alice := page, pairs := pairs } where
  server := hw.server
  flow := hw.flow
  created := hw.created
  posted := by
    intro r p hmem
    rcases hw.posted r p (hposted ▸ hmem) with ⟨hlt, hbody⟩
    exact ⟨hlt.trans_le hpairs, hbody⟩
  once := fun r p p' h h' => hw.once r p p' (hposted ▸ h) (hposted ▸ h')
  held := hheld
  ended := fun sid hsid => hw.ended sid (hended ▸ hsid)
  passed := by
    intro sid key hmem
    rcases hw.passed sid key (hpassed ▸ hmem) with ⟨p, jwk, k, ⟨c, hc, hs, hp⟩, hwin, hk⟩
    exact ⟨p, jwk, k, ⟨c, hc, hs, hposted ▸ hp⟩, hwin, hk⟩
  alice := ⟨act, hawaits, hact⟩
  bobs := hw.bobs

/-- A step of Alice's page that leaves its histories and `aliceKeyPair` alone. -/
theorem setAlice (hw : w.Ok env) {page : AlicePage W} (hposted : page.posted = w.alice.posted)
    (hended : page.ended = w.alice.ended) (hpassed : page.passed = w.alice.passed)
    (hkey : page.aliceKeyPair = w.alice.aliceKeyPair) (hawaits : page.Awaits act)
    (hact : (w.setAlice page).ActivityOk act) : (w.setAlice page).Ok env :=
  hw.moved hposted hended hpassed le_rfl (fun p hp => hw.held p (hkey ▸ hp)) hawaits hact

theorem start (hw : w.Ok env) (hscreen : w.alice.screen = .landing) :
    (w.setAlice { w.alice with screen := .create }).Ok env := by
  rcases hw.alice with ⟨act, hawaits, hact⟩
  have hawaits' : { w.alice with screen := .create }.Awaits act := hawaits.congr rfl rfl
  refine hw.setAlice rfl rfl rfl rfl hawaits' ?_
  cases act with
  | idle => exact fun hdis _ => hact hdis (Or.inl hscreen)
  | source es => exact absurd (hscreen.symm.trans hact.2.1) (by decide)
  | task task =>
    rcases hact with ⟨hdis, htask⟩
    refine ⟨hdis, ?_⟩
    cases task with
    | generating => exact Or.inr rfl
    | exporting p => exact ⟨Or.inr rfl, htask.2⟩
    | _ => simp [TaskOk, hscreen] at htask

theorem create (hw : w.Ok env) (aliceName memoryQuestion memoryAnswer : Str) {p : ℕ}
    (hscreen : w.alice.screen = .create) (hen : w.alice.createDisabled = false)
    (hkey : w.alice.aliceKeyPair = some p) :
    (w.setAlice
      { w.alice with
        createDisabled := true
        tasks := w.alice.tasks ++ [.creating aliceName memoryQuestion memoryAnswer p] }).Ok env := by
  rcases hw.alice with ⟨act, hawaits, hact⟩
  obtain rfl := hact.idle (Or.inl hen)
  -- the enabled button promises a pair that can be posted
  rcases hact hen (Or.inr hscreen) with ⟨p', hp⟩
  obtain rfl := Option.some.inj (hp.1.symm.trans hkey)
  exact hw.setAlice rfl rfl rfl rfl (hawaits.await rfl rfl) ⟨rfl, hscreen, hp⟩

theorem again (hw : w.Ok env)
    (hscreen : w.alice.screen = .alicePass ∨ w.alice.screen = .aliceFail) :
    (w.setAlice { w.alice.reset with screen := .create }).Ok env := by
  rcases hw.alice with ⟨act, hawaits, hact⟩
  obtain rfl := hact.idle (Or.inr hscreen)
  exact hw.setAlice rfl rfl rfl rfl (hawaits.await rfl rfl) ⟨rfl, Or.inr rfl⟩

/-- A new pair has been posted for nothing. -/
theorem unspent_pairs (hw : w.Ok env) : w.Unspent w.pairs := by
  rintro sid _ ⟨c, _, _, hmem⟩
  exact absurd (hw.posted _ _ hmem).1 (lt_irrefl _)

theorem generated (hw : w.Ok env) {n : ℕ} (ht : w.alice.tasks[n]? = some .generating) :
    Ok env
      { w with
        alice := { w.alice.goOn n (.exporting w.pairs) with aliceKeyPair := some w.pairs }
        pairs := w.pairs + 1 } := by
  rcases hw.alice with ⟨act, hawaits, hact⟩
  rcases hawaits.of_task ht with ⟨rfl, rfl⟩
  refine hw.moved rfl rfl rfl (Nat.le_succ _) ?_ (hawaits.goOn rfl rfl) ⟨hact.1, hact.2, rfl, ?_⟩
  · intro p hp
    obtain rfl := Option.some.inj hp
    exact Nat.lt_succ_self _
  · exact hw.unspent_pairs

theorem exported (hw : w.Ok env) {n p : ℕ} (disabled : Bool)
    (ht : w.alice.tasks[n]? = some (.exporting p)) :
    (w.setAlice { w.alice.finish n with createDisabled := disabled }).Ok env := by
  rcases hw.alice with ⟨act, hawaits, hact⟩
  rcases hawaits.of_task ht with ⟨rfl, rfl⟩
  rcases hact with ⟨_, _, hp⟩
  exact hw.setAlice rfl rfl rfl rfl (hawaits.finish rfl rfl) fun _ _ => ⟨p, hp⟩

/-- The request that carries a ready pair is a new one, so it creates a new session. -/
theorem post (hw : w.Ok env) {n r p : ℕ} {limited : Bool}
    {aliceName memoryQuestion memoryAnswer : Str} {σ' : State}
    (ht : w.alice.tasks[n]? = some (.creating aliceName memoryQuestion memoryAnswer p))
    (hs : step env (.request r (.create (AlicePage.body aliceName memoryQuestion memoryAnswer
      (W.jwk p))) limited) w.server = some σ') :
    Ok env
      { w.setAlice { w.alice.goOn n (.posting r) with posted := (r, p) :: w.alice.posted } with
        server := σ' } := by
  rcases hw.alice with ⟨act, hawaits, hact⟩
  rcases hawaits.of_task ht with ⟨rfl, rfl⟩
  rcases hact with ⟨hdis, hscreen, hkey, hunspent⟩
  have hw' := hw.of_server_step hs
  have hfree := (step_request hs).1
  have hreq := request?_of_arrival hs
  have hfresh : ∀ p', (r, p') ∉ w.alice.posted := by
    intro p' hmem
    rcases hw.posted r p' hmem with ⟨_, _, hreq, _⟩
    simp [State.request?, hfree] at hreq
  exact
  { server := hw'.server
    flow := hw'.flow
    created := hw'.created
    posted := by
      intro r' p' hmem
      rcases List.mem_cons.mp hmem with heq | hmem
      · rcases Prod.mk.inj heq with ⟨rfl, rfl⟩
        exact ⟨hw.held _ hkey, _, hreq, rfl⟩
      · exact hw'.posted r' p' hmem
    once := by
      intro r' p₁ p₂ h₁ h₂
      rcases List.mem_cons.mp h₁ with h₁ | h₁ <;> rcases List.mem_cons.mp h₂ with h₂ | h₂
      · exact (Prod.mk.inj h₁).2.trans (Prod.mk.inj h₂).2.symm
      -- request `r` has posted nothing before
      · exact absurd ((Prod.mk.inj h₁).1 ▸ h₂) (hfresh _)
      · exact absurd ((Prod.mk.inj h₂).1 ▸ h₁) (hfresh _)
      · exact hw.once r' p₁ p₂ h₁ h₂
    held := hw.held
    ended := hw'.ended
    passed := by
      intro sid key hmem
      rcases hw'.passed sid key hmem with ⟨p', jwk, k, ⟨c, hc, hsid, hp'⟩, hrest⟩
      exact ⟨p', jwk, k, ⟨c, hc, hsid, List.mem_cons_of_mem _ hp'⟩, hrest⟩
    alice := by
      refine ⟨_, hawaits.goOn rfl rfl, hdis, hscreen, p, ⟨hkey, ?_⟩, List.mem_cons_self⟩
      rintro sid hsid ⟨c', hc', hs', hmem⟩
      -- an ended session was created before, by a request that was there before
      rcases hw.ended sid hsid with ⟨c, hc, hcs⟩
      obtain rfl := hw'.server.creation_unique hc' ((later_of_step hs).creations.subset hc)
        (hs'.trans hcs.symm)
      rcases List.mem_cons.mp hmem with heq | hmem
      · rcases hw.server.creator c' hc with ⟨_, _, hcreator, _⟩
        rw [(Prod.mk.inj heq).1, hfree] at hcreator
        cases hcreator
      · exact hunspent sid hsid ⟨c', hc, hcs, hmem⟩
    bobs := hw'.bobs }

theorem answered (hw : w.Ok env) {n r : ℕ} {response : Response}
    (ht : w.alice.tasks[n]? = some (.posting r)) (hans : w.server.answer? r = some response) :
    (w.setAlice (w.alice.goOn n (.reading response))).Ok env := by
  rcases hw.alice with ⟨act, hawaits, hact⟩
  rcases hawaits.of_task ht with ⟨rfl, rfl⟩
  rcases hact with ⟨hdis, hscreen, p, hp, hmem⟩
  exact hw.setAlice rfl rfl rfl rfl (hawaits.goOn rfl rfl) ⟨hdis, hscreen, p, r, hp, hmem, hans⟩

/-- The session whose id an answered request names was created by that request. -/
theorem postedFor_of_answer (hw : w.Ok env) {r p : ℕ} {response : Response} {data : Json}
    {sid : Str} (hmem : (r, p) ∈ w.alice.posted) (hans : w.server.answer? r = some response)
    (hok : response.ok = true) (hjson : response.json = some data)
    (hid : data.get? (lit "session_id") = some (.str sid)) : w.PostedFor sid p := by
  rcases hw.posted r p hmem with ⟨_, body, hreq, _⟩
  rcases (State.request?_eq_some _).mp hreq with ⟨handler, hreq⟩
  rcases (State.answer?_eq_some _).mp hans with ⟨q, hdone⟩
  rcases Req.mk.inj (Option.some.inj (hreq.symm.trans hdone)) with ⟨rfl, rfl⟩
  obtain rfl := Response.body_of_json hjson
  rcases hw.created r body _ response hreq rfl with herr | ⟨c, hc, rfl, hcid⟩
  · simp only [Response.isError] at herr
    simp only [Response.ok, Bool.and_eq_true, decide_eq_true_eq] at hok
    omega
  · obtain rfl : c.sid = sid := Json.str.inj (Option.some.inj (hcid.symm.trans hid))
    exact ⟨c, hc, rfl, hmem⟩

/-- `create` goes on with the answer: the button is enabled again, or the page listens to the
session that `aliceKeyPair` was posted for. -/
theorem read (hw : w.Ok env) {n : ℕ} {response : Response}
    (ht : w.alice.tasks[n]? = some (.reading response)) :
    (w.setAlice ((w.alice.finish n).created response)).Ok env := by
  rcases hw.alice with ⟨act, hawaits, hact⟩
  rcases hawaits.of_task ht with ⟨rfl, rfl⟩
  rcases hact with ⟨hdis, hscreen, p, r, hp, hmem, hans⟩
  have hretry : (w.setAlice (w.alice.finish 0).enable).Ok env :=
    hw.setAlice rfl rfl rfl rfl (hawaits.finish rfl rfl) fun _ _ => ⟨p, hp⟩
  unfold AlicePage.created
  split_ifs with hok
  · exact hretry
  · split
    · exact hretry
    · next data hjson =>
      split
      · next sid hid =>
        split_ifs
        · have hposted := hw.postedFor_of_answer hmem hans (by simpa using hok) hjson hid
          have hidle : (w.alice.finish 0).Awaits .idle := hawaits.finish rfl rfl
          -- `connectAliceSSE`: the page now waits for the stream
          exact hw.setAlice rfl rfl rfl rfl (hidle.listen rfl rfl)
            ⟨hdis, rfl, ⟨p, hp.1, hposted⟩, by simp⟩
        · -- the screen has no button, enabled or not
          refine hw.setAlice rfl rfl rfl rfl (hawaits.finish rfl rfl) ?_
          intro _ hprep
          rcases hprep with hprep | hprep <;> cases hprep
      · exact hretry

/-- `aliceKeyPair` is read after the import, and still is the pair posted for the session. -/
theorem imported (hw : w.Ok env) {n p : ℕ} {sid : Str} {jwk : Json} {key : W.PublicKey}
    (ht : w.alice.tasks[n]? = some (.importing sid jwk))
    (himport : W.importPublicKey jwk = some key) (hkey : w.alice.aliceKeyPair = some p) :
    (w.setAlice (w.alice.goOn n (.derivingKey sid p key))).Ok env := by
  rcases hw.alice with ⟨act, hawaits, hact⟩
  rcases hawaits.of_task ht with ⟨rfl, rfl⟩
  rcases hact with ⟨hdis, hscreen, ⟨p', hkey', hp⟩, hwin⟩
  obtain rfl := Option.some.inj (hkey.symm.trans hkey')
  exact hw.setAlice rfl rfl rfl rfl (hawaits.goOn rfl rfl) ⟨hdis, hscreen, hp, jwk, hwin, himport⟩

/-- So it is not missing there. -/
theorem keyPair_of_importing (hw : w.Ok env) {n : ℕ} {sid : Str} {jwk : Json}
    (ht : w.alice.tasks[n]? = some (.importing sid jwk)) : w.alice.aliceKeyPair ≠ none := by
  rcases hw.alice with ⟨act, hawaits, hact⟩
  rcases hawaits.of_task ht with ⟨rfl, rfl⟩
  rcases hact with ⟨_, _, ⟨p, hkey, _⟩, _⟩
  simp [hkey]

theorem derived (hw : w.Ok env) {n p : ℕ} {sid : Str} {key : W.PublicKey}
    (ht : w.alice.tasks[n]? = some (.derivingKey sid p key)) :
    (w.setAlice
      { w.alice.finish n with
        screen := .alicePass
        passed := (sid, W.derived p key) :: w.alice.passed }).Ok env := by
  rcases hw.alice with ⟨act, hawaits, hact⟩
  rcases hawaits.of_task ht with ⟨rfl, rfl⟩
  rcases hact with ⟨hdis, hscreen, hp, jwk, hwin, himport⟩
  have hidle : ∀ page : AlicePage W, page.createDisabled = w.alice.createDisabled →
      (w.setAlice page).ActivityOk .idle := fun page heq hen => by
    simp [heq, hdis] at hen
  exact
  { hw with
    passed := by
      intro sid' key' hmem
      rcases List.mem_cons.mp hmem with heq | hmem
      · rcases Prod.mk.inj heq with ⟨rfl, rfl⟩
        exact ⟨p, jwk, key, hp, hwin, himport, rfl⟩
      · exact hw.passed sid' key' hmem
    alice := ⟨.idle, hawaits.finish rfl rfl, hidle _ rfl⟩ }

/-- `create` has caught it: the pair can be posted again. -/
theorem caught (hw : w.Ok env) {n : ℕ} {task : AliceTask W}
    (ht : w.alice.tasks[n]? = some task) (hcreates : task.creates = true) :
    (w.setAlice (w.alice.finish n).enable).Ok env := by
  rcases hw.alice with ⟨act, hawaits, hact⟩
  rcases hawaits.of_task ht with ⟨rfl, rfl⟩
  rcases hact with ⟨_, htask⟩
  have hready : ∃ p, w.Ready p := by
    cases task with
    | creating aliceName memoryQuestion memoryAnswer p => exact ⟨p, htask.2⟩
    | posting r =>
      rcases htask with ⟨_, p, hp, _⟩
      exact ⟨p, hp⟩
    | reading response =>
      rcases htask with ⟨_, p, r, hp, _⟩
      exact ⟨p, hp⟩
    | _ => cases hcreates
  exact hw.setAlice rfl rfl rfl rfl (hawaits.finish rfl rfl) fun _ _ => hready

/-- Nothing catches it, and the button stays disabled. -/
theorem rejected (hw : w.Ok env) {n : ℕ} {task : AliceTask W}
    (ht : w.alice.tasks[n]? = some task) : (w.setAlice (w.alice.finish n)).Ok env := by
  rcases hw.alice with ⟨act, hawaits, hact⟩
  rcases hawaits.of_task ht with ⟨rfl, rfl⟩
  refine hw.setAlice rfl rfl rfl rfl (hawaits.finish rfl rfl) ?_
  intro hen
  simp [AlicePage.finish, hact.1] at hen

theorem connected (hw : w.Ok env) {n i k : ℕ} {sid : Str} {σ' : State}
    (hsrc : w.alice.sources[n]? = some ⟨sid, none⟩)
    (hs : step env (.stream i sid k) w.server = some σ') :
    Ok env
      { w.setAlice { w.alice with sources := w.alice.sources.set n ⟨sid, some (i, 0)⟩ } with
        server := σ' } := by
  have hw' := hw.of_server_step hs
  rcases hw.alice with ⟨act, hawaits, hact⟩
  rcases hawaits.of_source hsrc with ⟨rfl, rfl⟩
  rcases hw.activityOk_of_step hs hact with ⟨hdis, hscreen, hengaged, _⟩
  refine hw'.setAlice rfl rfl rfl rfl (hawaits.setSource rfl rfl) ⟨hdis, hscreen, hengaged, ?_⟩
  intro i' k' hconn
  rcases Prod.mk.inj (Option.some.inj hconn) with ⟨rfl, rfl⟩
  rcases step_stream hs with ⟨_, rfl⟩
  exact ⟨_, State.setStream_streams_self _ _ _, rfl⟩

theorem dropped (hw : w.Ok env) {n i k : ℕ} {sid : Str}
    (hsrc : w.alice.sources[n]? = some ⟨sid, some (i, k)⟩) :
    (w.setAlice { w.alice with sources := w.alice.sources.set n ⟨sid, none⟩ }).Ok env := by
  rcases hw.alice with ⟨act, hawaits, hact⟩
  rcases hawaits.of_source hsrc with ⟨rfl, rfl⟩
  rcases hact with ⟨hdis, hscreen, hengaged, _⟩
  exact hw.setAlice rfl rfl rfl rfl (hawaits.setSource rfl rfl)
    ⟨hdis, hscreen, hengaged, by simp⟩

/-- The source is closed, and the page waits for nothing any more. -/
theorem refused (hw : w.Ok env) {n i k : ℕ} {sid : Str}
    (hsrc : w.alice.sources[n]? = some ⟨sid, some (i, k)⟩) :
    (w.setAlice (w.alice.close n)).Ok env := by
  rcases hw.alice with ⟨act, hawaits, hact⟩
  rcases hawaits.of_source hsrc with ⟨rfl, rfl⟩
  refine hw.setAlice rfl rfl rfl rfl (hawaits.close rfl rfl) ?_
  intro hen
  simp [AlicePage.close, hact.1] at hen

/-- What `es.onmessage` does with an event of its session's stream. -/
theorem onevent (hw : w.Ok env) {es : EventSource} (hawaits : w.alice.Awaits (.source es))
    (hact : w.ActivityOk (.source es)) {i : ℕ} {st : Stream} {data : Str} {event : Json}
    (hst : w.server.streams i = some st) (hsid : st.sid = es.sid) (hout : .message data ∈ st.out)
    (hload : Json.loads data = some event) :
    (w.setAlice (w.alice.onevent 0 es.sid event)).Ok env := by
  rcases hact with ⟨hdis, hscreen, hengaged, _⟩
  have hidle : (w.alice.close 0).Awaits .idle := hawaits.close rfl rfl
  have hclosed : (w.setAlice (w.alice.close 0)).Ok env := by
    refine hw.setAlice rfl rfl rfl rfl hidle ?_
    intro hen
    simp [AlicePage.close, hdis] at hen
  unfold AlicePage.onevent
  split_ifs with hlog hverified hfailed hexpired
  · exact hw
  · -- VERIFIED: the key is the winner's
    split
    · next jwk hjwk =>
      split_ifs
      · obtain ⟨k, hk, hks, _, hdata⟩ := winner_of_emitted hw.flow hst
          ⟨data, hout, hload, hverified⟩ (Or.inl rfl)
        have hkey := (hdata rfl).2.symm.trans hjwk
        exact hw.setAlice rfl rfl rfl rfl (hidle.await rfl rfl)
          ⟨hdis, hscreen, hengaged, k, hk, hks.trans hsid, Option.some.inj hkey⟩
      · exact hclosed
    · exact hclosed
  · -- FAILED
    refine hw.setAlice rfl rfl rfl rfl (hidle.congr rfl rfl) ?_
    intro hen
    simp [AlicePage.close, hdis] at hen
  · -- EXPIRED
    exact hw.setAlice rfl rfl rfl rfl (hidle.await rfl rfl) ⟨rfl, Or.inr rfl⟩
  · exact hw

/-- An event that ends its session finds it created. -/
theorem ended_of_source (hw : w.Ok env) {es : EventSource}
    (hawaits : w.alice.Awaits (.source es)) (hact : w.ActivityOk (.source es)) :
    (w.setAlice { w.alice with ended := es.sid :: w.alice.ended }).Ok env := by
  rcases hact.2.2.1 with ⟨p, _, c, hc, hcs, _⟩
  exact
  { hw with
    ended := by
      intro sid hsid
      rcases List.mem_cons.mp hsid with rfl | hsid
      · exact ⟨c, hc, hcs⟩
      · exact hw.ended sid hsid
    alice := ⟨.source es, hawaits, hact⟩ }

theorem onmessage (hw : w.Ok env) {es : EventSource} (hawaits : w.alice.Awaits (.source es))
    (hact : w.ActivityOk (.source es)) {i : ℕ} {st : Stream} {data : Str}
    (hst : w.server.streams i = some st) (hsid : st.sid = es.sid)
    (hout : .message data ∈ st.out) :
    (w.setAlice (w.alice.onmessage 0 es.sid data)).Ok env := by
  -- a terminal event ends the session before its handler goes on
  have hend := hw.ended_of_source hawaits hact
  have hparse : ∀ event, Json.parse data = some event → Json.loads data = some event :=
    fun event h => (Option.filter_eq_some_iff.mp h).1
  unfold AlicePage.onmessage
  by_cases hterm : isTerminal data = some true
  · simp only [hterm, if_true]
    split
    · exact hend
    · next event hevent =>
      exact hend.onevent hawaits hact hst hsid hout (hparse event hevent)
  · simp only [hterm, if_false]
    split
    · exact hw
    · next event hevent =>
      exact hw.onevent hawaits hact hst hsid hout (hparse event hevent)

/-- A source that has read a chunk more of the stream of its session. -/
theorem skipped (hw : w.Ok env) {n i k : ℕ} {sid : Str}
    (hsrc : w.alice.sources[n]? = some ⟨sid, some (i, k)⟩) :
    (w.setAlice { w.alice with sources := w.alice.sources.set n ⟨sid, some (i, k + 1)⟩ }).Ok env := by
  rcases hw.alice with ⟨act, hawaits, hact⟩
  rcases hawaits.of_source hsrc with ⟨rfl, rfl⟩
  rcases hact with ⟨hdis, hscreen, hengaged, hconn⟩
  refine hw.setAlice rfl rfl rfl rfl (hawaits.setSource rfl rfl) ⟨hdis, hscreen, hengaged, ?_⟩
  intro i' k' hc
  rcases Prod.mk.inj (Option.some.inj hc) with ⟨rfl, rfl⟩
  exact hconn i k rfl

theorem received (hw : w.Ok env) {n i k : ℕ} {sid data : Str}
    (hsrc : w.alice.sources[n]? = some ⟨sid, some (i, k)⟩)
    (hdata : ((w.server.streams i).bind fun st => st.out[k]?) = some (.message data)) :
    (w.setAlice (AlicePage.onmessage n sid data
      { w.alice with sources := w.alice.sources.set n ⟨sid, some (i, k + 1)⟩ })).Ok env := by
  have hw₁ := hw.skipped hsrc
  rcases hw₁.alice with ⟨act, hawaits, hact⟩
  rcases List.getElem?_eq_some_iff.mp hsrc with ⟨hn, _⟩
  have hsrc₁ : (w.alice.sources.set n ⟨sid, some (i, k + 1)⟩)[n]? =
      some ⟨sid, some (i, k + 1)⟩ := List.getElem?_set_self hn
  rcases hawaits.of_source hsrc₁ with ⟨rfl, rfl⟩
  rcases hact.2.2.2 i (k + 1) rfl with ⟨st, hst, hsid⟩
  replace hst : w.server.streams i = some st := hst
  simp only [hst, Option.bind_some] at hdata
  exact hw₁.onmessage hawaits hact hst hsid (List.mem_of_getElem? hdata)

theorem alice_step (hw : w.Ok env) {a : AliceAct} {w' : World W}
    (h : w.aliceStep env a = some w') : w'.Ok env := by
  cases moved_of_aliceStep h with
  | start hscreen => exact hw.start hscreen
  | unsent _ _ _ _ => exact hw
  | create _ _ _ p hscreen hen hkey => exact hw.create _ _ _ hscreen hen hkey
  | again hscreen => exact hw.again hscreen
  | generated n ht => exact hw.generated ht
  | exported n p disabled ht => exact hw.exported disabled ht
  | post n r limited _ _ _ p σ' ht hs => exact hw.post ht hs
  | answered n r response ht hans => exact hw.answered ht hans
  | read n response ht => exact hw.read ht
  | imported n p sid jwk key ht himport hkey => exact hw.imported ht himport hkey
  | keyless n sid jwk ht hnone => exact absurd hnone (hw.keyPair_of_importing ht)
  | derived n p sid key ht => exact hw.derived ht
  | caught n task ht hcreates => exact hw.caught ht hcreates
  | rejected n task ht _ => exact hw.rejected ht
  | connected n i k sid σ' hsrc hs => exact hw.connected hsrc hs
  | skipped n i k sid hsrc => exact hw.skipped hsrc
  | received n i k sid data hsrc hdata => exact hw.received hsrc hdata
  | dropped n i k sid hsrc => exact hw.dropped hsrc
  | refused n i k sid status hsrc _ => exact hw.refused hsrc

end Ok

end World

end Alice

end Doppelganger
