import Doppelganger.BobRequests

/-!
# When Bob's page shows "expired"

`step-expired` is shown after the GET of the challenge and after a verify request. What
the page goes by is the answer, and an answer that `Tells` it so is to be trusted. But
`initBob` also takes every other answer than a 200 for an expired session, and its
`catch` a GET that fails in transit; and `submitAnswer` takes a 200 whose body is cut off
for a failed challenge. A step that does none of these is `candid`.

`honest_iff_candid`: in a run every page shows "expired" only if the session was over since
its last request was sent, and lets Bob try again when a request has failed, exactly if every
step is candid.
-/

open Text Redis

namespace Doppelganger

variable {W : Crypto} {env : Env} {w w' : World W} {b r n : ℕ} {ls : List Event} {e : Event}

/-! ## The session was over -/

/-- Since the last request of page `b` was sent there was a moment when session `sid` was over. -/
def OverSince (env : Env) (W : Crypto) (ls : List Event) (b : ℕ) (sid : Str) : Prop :=
  ∃ before e rest, ls = before ++ e :: rest ∧ (∃ r, Sends b r e) ∧
    (∀ e' ∈ rest, ∀ r', ¬ Sends b r' e') ∧
    ∃ middle u, middle <+: rest ∧
      (world env W).exec (before ++ e :: middle) World.init = some u ∧ u.server.Over sid

/-- What the server does with a request that page `b` sends. -/
theorem request_of_sends (hsends : Sends b r e) (h : World.next env e w = some w') :
    ∃ q limited, step env (.request r q limited) w.server = some w'.server := by
  rcases hsends with ⟨n, limited, he⟩
  rcases he with rfl | rfl | rfl
  all_goals
    rcases ofBobSending_eq_some h with ⟨_, _, q, _, _, _, hs, rfl⟩
    exact ⟨q, limited, hs⟩

theorem later_of_worldRun {ok : Lts.Guard (World W) Event} (h : (world env W).Run ok w ls w') :
    w.server.Later w'.server := by
  exact h.chain (R := fun w w' => w.server.Later w'.server) (fun _ => State.Later.refl _)
    (fun _ _ _ => State.Later.trans) fun _ _ _ _ => later_of_next

/-- An answer that tells of it is to be trusted. -/
theorem overSince_of_tells (h : (world env W).Run Lts.anyStep World.init ls w) {q : Request}
    {sid : Str} {response : Response} (hsent : SentLast ls b r)
    (hq : q = .get sid ∨ ∃ body, q = .verify sid body) (hrequest : w.server.request? r = some q)
    (hans : w.server.answer? r = some response) (htells : Tells q response) :
    OverSince env W ls b sid := by
  rcases hsent with ⟨before, e, rest, rfl, hsends, hrest⟩
  rcases h.split with ⟨w₀, h₁, h₂⟩
  rcases Lts.run_cons_iff.mp h₂ with ⟨_, w₁, hs, h₃⟩
  rcases request_of_sends hsends hs with ⟨q₁, limited, hstep⟩
  have hsame : q₁ = q :=
    Option.some.inj (((later_of_worldRun h₃).request r q₁ (request?_of_arrival hstep)).symm.trans
      hrequest)
  subst hsame
  have hunaware : w₁.server.Unaware r q₁ sid := by
    rcases step_request hstep with ⟨_, hserver⟩
    rw [hserver]
    exact ⟨_, State.setReq_reqs_self _ _ _, unaware_start hq limited⟩
  have hkeeps : ∀ e' (s t : World W), Lts.anyStep e' s → World.next env e' s = some t →
      ¬ s.server.Over sid → s.server.Unaware r q₁ sid → t.server.Unaware r q₁ sid := by
    intro e' s t _ hst hover hun
    rcases server_of_next hst with hsame | ⟨l, hl, _⟩
    · rwa [hsame]
    · exact unaware_of_step hl hover hun
  rcases h₃.keeps_or_sometime hkeeps hunaware with hend | ⟨middle, u, hmiddle, hu, hover⟩
  · exact absurd htells (hend.not_tells hans)
  · refine ⟨before, e, rest, rfl, ⟨r, hsends⟩, hrest, middle, u, hmiddle, ?_, hover⟩
    have hrun : (world env W).Run Lts.anyStep World.init (before ++ e :: middle) u :=
      h₁.append (Lts.Run.cons trivial hs (Lts.run_of_exec hu))
    exact Lts.exec_of_run hrun

/-! ## Honest steps -/

/-- The challenge is shown and can be answered. -/
def BobPage.Able (page : BobPage W) : Prop :=
  page.screen = .bobChallenge ∧ page.submitDisabled = false ∧ ∃ p, page.bobKeyPair = some p

/-- With this act a request of the page fails, in transit or by an answer that says nothing of the
session. -/
def BobPage.Fails (page : BobPage W) : BobAct → Prop
  | .rejected n =>
    (∃ r, page.tasks[n]? = some (.fetching r) ∨ page.tasks[n]? = some (.posting r)) ∨
      ∃ response, page.tasks[n]? = some (.loading response) ∨
        (page.tasks[n]? = some (.reading response) ∧ response.status ≠ 404 ∧ response.status ≠ 409)
  | .read n => ∃ response,
      (page.tasks[n]? = some (.loading response) ∧ response.status ≠ 200) ∨
        (page.tasks[n]? = some (.reading response) ∧ response.ok = false ∧
          response.status ≠ 404 ∧ response.status ≠ 409)
  | _ => False

/-- The step after `before` shows a page "expired" only if the session was over since its last request
was sent, and lets a page whose request fails try again. -/
def Honest (env : Env) (before : List Event) (e : Event) (w w' : World W) : Prop :=
  ∀ b page page', w.bobs b = some page → w'.bobs b = some page' →
    (page.screen ≠ .expired → page'.screen = .expired → OverSince env W before b page.sid) ∧
      ∀ a, e = .bob b a → page.Fails a → page'.Able

/-- The answer to a GET has status 200, if `initBob` reads it, and gets here; so does the body of a 200
to a verify request. -/
def candid : Lts.Guard (World W) Event
  | .bob b (.read n), w => ∀ page response, w.bobs b = some page →
      page.tasks[n]? = some (.loading response) → response.status = 200
  | .bob b (.rejected n), w => ∀ page, w.bobs b = some page →
      (∀ r, page.tasks[n]? ≠ some (.fetching r)) ∧
      (∀ response, page.tasks[n]? ≠ some (.loading response)) ∧
      ∀ response, page.tasks[n]? = some (.reading response) → response.ok = false
  | _, _ => True

namespace BobPage

variable {σ : State} {page page' : BobPage W} {response : Response}

theorem loaded_expired (h : (page.loaded response).screen = .expired) :
    response.json = none ∨ response.body.get? (lit "phase") ≠ some (.str waitingForBob) := by
  unfold loaded at h
  cases hjson : response.json with
  | none => exact Or.inl rfl
  | some data =>
    obtain rfl := Response.body_of_json hjson
    right
    intro hphase
    rw [hjson] at h
    simp [hphase] at h

/-- A phase that is not read shows the session expired. -/
theorem loaded_of_phaseless (h : response.body.get? (lit "phase") = none) :
    (page.loaded response).screen = .expired := by
  unfold loaded
  cases hjson : response.json with
  | none => rfl
  | some data =>
    obtain rfl := Response.body_of_json hjson
    simp [h]

theorem tells_of_loaded {sid : Str} (h : (page.loaded response).screen = .expired)
    (hstatus : response.status = 200) (hplain : response.Phaseless) : Tells (.get sid) response := by
  right
  refine ⟨hstatus, ?_⟩
  rcases loaded_expired h with hjson | hphase
  · rcases hplain with ⟨_, hstandard⟩ | hnone
    · simp [Response.json, hstandard] at hjson
    · simp [hnone]
  · exact hphase

theorem verified_expired {data : Json} (hscreen : page.screen ≠ .expired)
    (h : (page.verified n response data).screen = .expired) :
    response.status = 404 ∨ response.status = 409 := by
  by_contra hstatus
  unfold verified at h
  rw [if_neg hstatus] at h
  split_ifs at h
  · cases h
  · split at h
    · split_ifs at h
      · exact hscreen h
      · cases h
    · cases h

/-- An error that says nothing of the session leads back to the challenge. -/
theorem verified_able {data : Json} {p : ℕ} (hok : response.ok = false)
    (h404 : response.status ≠ 404) (h409 : response.status ≠ 409) (hkey : page.bobKeyPair = some p) :
    (page.verified n response data).Able := by
  unfold verified
  simp only [h404, h409, or_self, if_false, hok, Bool.not_false, if_true]
  exact ⟨rfl, rfl, p, hkey⟩

/-- A 200 without a body is taken for a failed challenge. -/
theorem verified_cutOff (hok : response.ok = true) :
    (page.verified n response (.obj [])).screen = .bobFail := by
  have h404 : response.status ≠ 404 ∧ response.status ≠ 409 := by
    simp only [Response.ok, Bool.and_eq_true, decide_eq_true_eq] at hok
    omega
  simp [verified, h404.1, h404.2, hok, Json.get?, Json.lookup]

theorem submit_screen {bobName answer : Str} (h : page.submit bobName answer = some page')
    (hexpired : page'.screen = .expired) : page.screen = .expired := by
  unfold submit at h
  split_ifs at h
  · obtain rfl := Option.some.inj h
    exact hexpired
  · split at h
    · obtain rfl := Option.some.inj h
      exact hexpired
    · obtain rfl := Option.some.inj h
      cases hexpired

theorem generated_screen {p : ℕ} (h : page.generated p n = some page')
    (hexpired : page'.screen = .expired) : page.screen = .expired := by
  unfold generated at h
  split at h
  · obtain rfl := Option.some.inj h
    exact hexpired
  · cases h

theorem fetch_screen {q : Request} (h : page.fetch n r = some (page', q))
    (hexpired : page'.screen = .expired) : page.screen = .expired := by
  unfold fetch at h
  split at h
  · split_ifs at h
    · rcases Prod.mk.inj (Option.some.inj h) with ⟨rfl, _⟩
      exact hexpired
    · rcases Prod.mk.inj (Option.some.inj h) with ⟨rfl, _⟩
      exact hexpired
  · cases h

theorem keyless_screen {q : Request} (h : page.keyless n r = some (page', q))
    (hexpired : page'.screen = .expired) : page.screen = .expired := by
  unfold keyless at h
  split at h
  · rcases Prod.mk.inj (Option.some.inj h) with ⟨rfl, _⟩
    exact hexpired
  · rcases Prod.mk.inj (Option.some.inj h) with ⟨rfl, _⟩
    exact hexpired
  · cases h

theorem post_screen {q : Request} (h : page.post n r = some (page', q))
    (hexpired : page'.screen = .expired) : page.screen = .expired := by
  unfold post at h
  split at h
  · rcases Prod.mk.inj (Option.some.inj h) with ⟨rfl, _⟩
    exact hexpired
  · cases h

theorem imported_screen (h : page.imported n = some page') (hexpired : page'.screen = .expired) :
    page.screen = .expired := by
  unfold imported at h
  split at h
  · split at h
    · cases h
    · split at h
      · obtain rfl := Option.some.inj h
        cases hexpired
      · obtain rfl := Option.some.inj h
        exact hexpired
  · cases h

theorem derived_screen (h : page.derived n = some page') (hexpired : page'.screen = .expired) :
    page.screen = .expired := by
  unfold derived at h
  split at h
  · obtain rfl := Option.some.inj h
    cases hexpired
  · cases h

/-- The screen after an answer is here: "expired" is for a GET answered 404. -/
theorem answered_expired (h : page.answered σ.answer? n = some page') (hscreen : page.screen ≠ .expired)
    (hexpired : page'.screen = .expired) : ∃ r response, .fetching r ∈ page.tasks ∧
      σ.answer? r = some response ∧ response.status = 404 := by
  unfold answered at h
  split at h
  case h_1 r ht =>
    rcases Option.map_eq_some_iff.mp h with ⟨response, hans, rfl⟩
    split_ifs at hexpired with hstatus
    · exact ⟨r, response, List.mem_of_getElem? ht, hans, hstatus⟩
    · exact absurd hexpired hscreen
  case h_2 r ht =>
    rcases Option.map_eq_some_iff.mp h with ⟨response, hans, rfl⟩
    exact absurd hexpired hscreen
  case h_3 => cases h

/-- Where a rejection can come from. -/
theorem rejected_cases (h : page.rejected n = some page') :
    (∃ r, page.tasks[n]? = some (.fetching r)) ∨
    (∃ response, page.tasks[n]? = some (.loading response)) ∨
    (∃ response, page.tasks[n]? = some (.reading response) ∧
      page' = page.verified n response (.obj [])) ∨
    ((∀ response, page.tasks[n]? ≠ some (.reading response)) ∧ page' = (page.finish n).retry) := by
  unfold rejected at h
  split at h
  case h_1 r ht => exact Or.inl ⟨r, ht⟩
  case h_2 response ht => exact Or.inr (Or.inl ⟨response, ht⟩)
  case h_5 response ht => exact Or.inr (Or.inr (Or.inl ⟨response, ht, (Option.some.inj h).symm⟩))
  case h_8 => cases h
  all_goals
    rename_i ht
    exact Or.inr (Or.inr (Or.inr ⟨by simp [ht], (Option.some.inj h).symm⟩))

end BobPage

/-! ### Steps of page `b` -/

theorem page_of_ofBob {f : BobPage W → Option (BobPage W)} {page page' : BobPage W}
    (h : w.ofBob b f = some w') (hpage : w.bobs b = some page) (hpage' : w'.bobs b = some page') :
    f page = some page' := by
  rcases ofBob_eq_some h with ⟨page₀, page₁, hpage₀, hf, rfl⟩
  obtain rfl := Option.some.inj (hpage.symm.trans hpage₀)
  rw [setBob_bobs, if_pos rfl] at hpage'
  rw [hf, Option.some.inj hpage']

theorem page_of_ofBobSending {limited : Bool} {f : BobPage W → Option (BobPage W × Request)}
    {page page' : BobPage W} (h : w.ofBobSending env b r limited f = some w')
    (hpage : w.bobs b = some page) (hpage' : w'.bobs b = some page') :
    ∃ q, f page = some (page', q) := by
  rcases ofBobSending_eq_some h with ⟨page₀, page₁, q, σ', hpage₀, hf, _, rfl⟩
  obtain rfl := Option.some.inj (hpage.symm.trans hpage₀)
  have hpage₁ : some page₁ = some page' := by
    simpa [World.setBob] using hpage'
  exact ⟨q, by rw [hf, Option.some.inj hpage₁]⟩

/-- A page that goes on as it was is honest. -/
theorem honest_of_page {a : BobAct} {before : List Event} (hnext : World.next env (.bob b a) w = some w')
    (h : ∀ page page', w.bobs b = some page → w'.bobs b = some page' →
      (page.screen ≠ .expired → page'.screen = .expired → OverSince env W before b page.sid) ∧
        (page.Fails a → page'.Able)) : Honest env before (.bob b a) w w' := by
  intro b' page page' hpage hpage'
  by_cases hb : b' = b
  · subst hb
    refine ⟨(h page page' hpage hpage').1, fun a' ha hfails => ?_⟩
    rcases Event.bob.inj ha with ⟨_, rfl⟩
    exact (h page page' hpage hpage').2 hfails
  · have hother : ∀ a', Event.bob b a ≠ .bob b' a' := by
      intro a' ha
      exact hb (Event.bob.inj ha).1.symm
    rw [bobs_of_next hnext hother] at hpage'
    obtain rfl := Option.some.inj (hpage.symm.trans hpage')
    exact ⟨fun hscreen hexpired => absurd hexpired hscreen, fun a' ha => absurd ha (hother a')⟩

/-- So is one that is not newly expired, by an act that no request fails with. -/
theorem honest_of_screen {a : BobAct} {before : List Event}
    (hnext : World.next env (.bob b a) w = some w') (hfails : ∀ page : BobPage W, ¬ page.Fails a)
    (h : ∀ page page', w.bobs b = some page → w'.bobs b = some page' →
      page'.screen = .expired → page.screen = .expired) : Honest env before (.bob b a) w w' := by
  refine honest_of_page hnext fun page page' hpage hpage' => ⟨?_, fun hf => absurd hf (hfails page)⟩
  intro hscreen hexpired
  exact absurd (h page page' hpage hpage' hexpired) hscreen

/-- The page after its part of a step. -/
theorem exists_page_of_ofBob {f : BobPage W → Option (BobPage W)} {page : BobPage W}
    (h : w.ofBob b f = some w') (hpage : w.bobs b = some page) :
    ∃ page', w'.bobs b = some page' ∧ f page = some page' := by
  rcases ofBob_eq_some h with ⟨page₀, page', hpage₀, hf, rfl⟩
  obtain rfl := Option.some.inj (hpage.symm.trans hpage₀)
  exact ⟨page', by rw [setBob_bobs, if_pos rfl], hf⟩

/-- The screen of a page whose request fails, in a step that is honest. -/
theorem Honest.screen {before : List Event} {a : BobAct} {f : BobPage W → Option (BobPage W)}
    (h : Honest env before (.bob b a) w w') (hnext : w.ofBob b f = some w') {page page' : BobPage W}
    (hpage : w.bobs b = some page) (hf : f page = some page') (hfails : page.Fails a) :
    page'.screen = .bobChallenge := by
  rcases exists_page_of_ofBob hnext hpage with ⟨page₁, hpage₁, hf₁⟩
  obtain rfl := Option.some.inj (hf.symm.trans hf₁)
  exact ((h b page page' hpage hpage₁).2 a rfl hfails).1

section Run

variable {before : List Event} (hrun : (world env W).Run Lts.anyStep World.init before w)

include hrun

theorem honest_answered (hnext : World.next env (.bob b (.answered n)) w = some w') :
    Honest env before (.bob b (.answered n)) w w' := by
  refine honest_of_page hnext fun page page' hpage hpage' => ⟨fun hscreen hexpired => ?_, False.elim⟩
  obtain ⟨r, response, ht, hans, hstatus⟩ :=
    BobPage.answered_expired (page_of_ofBob hnext hpage hpage') hscreen hexpired
  rcases asked_of_run hrun b page hpage _ ht with ⟨hsent, hq⟩
  exact overSince_of_tells hrun hsent (Or.inl rfl) hq hans (Or.inl hstatus)

/-- The answer to a GET that a page reads. -/
theorem phaseless_of_loading {page : BobPage W} {response : Response} (hpage : w.bobs b = some page)
    (ht : page.tasks[n]? = some (.loading response)) : response.Phaseless := by
  rcases asked_of_run hrun b page hpage _ (List.mem_of_getElem? ht) with ⟨_, r, _, hq, hans⟩
  exact (getsPhaseless_of_run hrun).answer hq hans

/-- An answer to a verify request that tells of it. -/
theorem overSince_of_reading {page : BobPage W} {response : Response} (hpage : w.bobs b = some page)
    (ht : page.tasks[n]? = some (.reading response))
    (hstatus : response.status = 404 ∨ response.status = 409) : OverSince env W before b page.sid := by
  rcases asked_of_run hrun b page hpage _ (List.mem_of_getElem? ht) with ⟨r, body, hsent, hq, hans⟩
  exact overSince_of_tells hrun hsent (Or.inr ⟨body, rfl⟩) hq hans hstatus

theorem key_of_reading {page : BobPage W} {response : Response} (hpage : w.bobs b = some page)
    (ht : page.tasks[n]? = some (.reading response)) :
    page.screen ≠ .expired ∧ ∃ p, page.bobKeyPair = some p := by
  obtain ⟨_, _, hscreen, p, _, hkey, _⟩ :=
    ((World.Ok.of_reach ⟨before, hrun⟩).bobs b page hpage).of_task ht
  exact ⟨by simp [hscreen], p, hkey⟩

theorem honest_read_iff (hnext : World.next env (.bob b (.read n)) w = some w') :
    Honest env before (.bob b (.read n)) w w' ↔ candid (.bob b (.read n)) w := by
  constructor
  · intro h page response hpage ht
    by_contra hstatus
    have hf : page.read n = some ((page.finish n).loaded response) := by simp [BobPage.read, ht]
    have hscreen := h.screen hnext hpage hf ⟨response, Or.inl ⟨ht, hstatus⟩⟩
    -- an error has no phase
    rcases phaseless_of_loading hrun hpage ht with ⟨h200, _⟩ | hphase
    · exact hstatus h200
    · rw [BobPage.loaded_of_phaseless hphase] at hscreen
      cases hscreen
  · intro hcandid
    refine honest_of_page hnext ?_
    intro page page' hpage hpage'
    have hf := page_of_ofBob hnext hpage hpage'
    unfold BobPage.read at hf
    split at hf
    case h_1 response ht =>
      obtain rfl := Option.some.inj hf
      have hstatus := hcandid page response hpage ht
      constructor
      · intro hscreen hexpired
        obtain ⟨_, r, hsent, hq, hans⟩ := asked_of_run hrun b page hpage _ (List.mem_of_getElem? ht)
        exact overSince_of_tells hrun hsent (Or.inl rfl) hq hans
          (BobPage.tells_of_loaded hexpired hstatus (phaseless_of_loading hrun hpage ht))
      · rintro ⟨response', ⟨ht', hstatus'⟩ | ⟨ht', _⟩⟩
        · obtain rfl := BobTask.loading.inj (Option.some.inj (ht.symm.trans ht'))
          exact absurd hstatus hstatus'
        · cases ht.symm.trans ht'
    case h_2 response ht =>
      obtain rfl := Option.some.inj hf
      rcases key_of_reading hrun hpage ht with ⟨hscreen, p, hkey⟩
      constructor
      · intro _ hexpired
        exact overSince_of_reading hrun hpage ht (BobPage.verified_expired hscreen hexpired)
      · rintro ⟨response', ⟨ht', _⟩ | ⟨ht', hok, h404, h409⟩⟩
        · cases ht.symm.trans ht'
        · obtain rfl := BobTask.reading.inj (Option.some.inj (ht.symm.trans ht'))
          exact BobPage.verified_able hok h404 h409 hkey
    case h_3 => cases hf

theorem honest_rejected_iff (hnext : World.next env (.bob b (.rejected n)) w = some w') :
    Honest env before (.bob b (.rejected n)) w w' ↔ candid (.bob b (.rejected n)) w := by
  constructor
  · intro h page hpage
    refine ⟨fun r ht => ?_, fun response ht => ?_, fun response ht => ?_⟩
    · have hf : page.rejected n = some { page.finish n with screen := .expired } := by
        simp [BobPage.rejected, ht]
      cases h.screen hnext hpage hf (Or.inl ⟨r, Or.inl ht⟩)
    · have hf : page.rejected n = some { page.finish n with screen := .expired } := by
        simp [BobPage.rejected, ht]
      cases h.screen hnext hpage hf (Or.inr ⟨response, Or.inl ht⟩)
    · by_contra hok
      rw [Bool.not_eq_false] at hok
      have hf : page.rejected n = some (page.verified n response (.obj [])) := by
        simp [BobPage.rejected, ht]
      have hstatus : response.status ≠ 404 ∧ response.status ≠ 409 := by
        simp only [Response.ok, Bool.and_eq_true, decide_eq_true_eq] at hok
        omega
      have hscreen := h.screen hnext hpage hf (Or.inr ⟨response, Or.inr ⟨ht, hstatus⟩⟩)
      rw [BobPage.verified_cutOff hok] at hscreen
      cases hscreen
  · intro hcandid
    refine honest_of_page hnext ?_
    intro page page' hpage hpage'
    have hf := page_of_ofBob hnext hpage hpage'
    rcases hcandid page hpage with ⟨hfetching, hloading, hreading⟩
    rcases BobPage.rejected_cases hf with ⟨r, ht⟩ | ⟨response, ht⟩ | ⟨response, ht, rfl⟩ | ⟨hno, rfl⟩
    · exact absurd ht (hfetching r)
    · exact absurd ht (hloading response)
    · rcases key_of_reading hrun hpage ht with ⟨hscreen, p, hkey⟩
      constructor
      · intro _ hexpired
        exact overSince_of_reading hrun hpage ht (BobPage.verified_expired hscreen hexpired)
      · rintro (⟨r, ht' | ht'⟩ | ⟨response', ht' | ⟨ht', h404, h409⟩⟩)
        · cases ht.symm.trans ht'
        · cases ht.symm.trans ht'
        · cases ht.symm.trans ht'
        · obtain rfl := BobTask.reading.inj (Option.some.inj (ht.symm.trans ht'))
          exact BobPage.verified_able (hreading response ht) h404 h409 hkey
    · constructor
      · intro _ hexpired
        cases hexpired
      · rintro (⟨r, ht | ht⟩ | ⟨response, ht | ⟨ht, _⟩⟩)
        · exact absurd ht (hfetching r)
        · obtain ⟨_, _, _, p, hkey, _⟩ :=
            ((World.Ok.of_reach ⟨before, hrun⟩).bobs b page hpage).of_task ht
          exact ⟨rfl, rfl, p, hkey⟩
        · exact absurd ht (hloading response)
        · exact absurd ht (hno response)

end Run

/-! ## Runs -/

/-- A step is honest exactly if it is candid. -/
theorem honest_iff {before : List Event} (hrun : (world env W).Run Lts.anyStep World.init before w)
    (hnext : World.next env e w = some w') : Honest env before e w w' ↔ candid e w := by
  by_cases he : ∃ b a, e = .bob b a
  · rcases he with ⟨b, a, rfl⟩
    cases a with
    | read n => exact honest_read_iff hrun hnext
    | rejected n => exact honest_rejected_iff hrun hnext
    | answered n => exact iff_of_true (honest_answered hrun hnext) trivial
    | init sid =>
      refine iff_of_true (honest_of_screen hnext (fun _ => id) fun page page' hpage => ?_) trivial
      simp [World.next, World.bobStep, hpage] at hnext
    | submit bobName answer =>
      refine iff_of_true (honest_of_screen hnext (fun _ => id) fun page page' hpage hpage' => ?_) trivial
      exact BobPage.submit_screen (page_of_ofBob hnext hpage hpage')
    | generated n =>
      refine iff_of_true (honest_of_screen hnext (fun _ => id) fun page page' hpage hpage' => ?_) trivial
      rcases Option.map_eq_some_iff.mp hnext with ⟨w₁, hw₁, rfl⟩
      exact BobPage.generated_screen (page_of_ofBob hw₁ hpage hpage')
    | fetch n r limited =>
      refine iff_of_true (honest_of_screen hnext (fun _ => id) fun page page' hpage hpage' => ?_) trivial
      rcases page_of_ofBobSending hnext hpage hpage' with ⟨q, hf⟩
      exact BobPage.fetch_screen hf
    | keyless n r limited =>
      refine iff_of_true (honest_of_screen hnext (fun _ => id) fun page page' hpage hpage' => ?_) trivial
      rcases page_of_ofBobSending hnext hpage hpage' with ⟨q, hf⟩
      exact BobPage.keyless_screen hf
    | post n r limited =>
      refine iff_of_true (honest_of_screen hnext (fun _ => id) fun page page' hpage hpage' => ?_) trivial
      rcases page_of_ofBobSending hnext hpage hpage' with ⟨q, hf⟩
      exact BobPage.post_screen hf
    | imported n =>
      refine iff_of_true (honest_of_screen hnext (fun _ => id) fun page page' hpage hpage' => ?_) trivial
      exact BobPage.imported_screen (page_of_ofBob hnext hpage hpage')
    | derived n =>
      refine iff_of_true (honest_of_screen hnext (fun _ => id) fun page page' hpage hpage' => ?_) trivial
      exact BobPage.derived_screen (page_of_ofBob hnext hpage hpage')
  · push Not at he
    refine iff_of_true (fun b page page' hpage hpage' => ?_) ?_
    · rw [bobs_of_next hnext fun a => he b a] at hpage'
      obtain rfl := Option.some.inj (hpage.symm.trans hpage')
      exact ⟨fun hscreen hexpired => absurd hexpired hscreen, fun a ha => absurd ha (he b a)⟩
    · cases e with
      | bob b a => exact absurd rfl (he b a)
      | _ => trivial

/-- In a run of the pages and the server every step is honest, so that Bob is told "expired" only when
it is true and can try again when a request has failed, exactly if every step is candid. -/
theorem honest_iff_candid (h : (world env W).Run Lts.anyStep World.init ls w) :
    (∀ before e s t, (world env W).Took ls before e s t → Honest env before e s t) ↔
      (world env W).Run candid World.init ls w := by
  constructor
  · intro hhonest
    refine h.strengthen ?_
    intro before e rest s hls hrun
    subst hls
    rcases h.split with ⟨s', h₁, h₂⟩
    obtain rfl := hrun.deterministic h₁
    rcases Lts.run_cons_iff.mp h₂ with ⟨_, t, hst, _⟩
    exact (honest_iff hrun hst).mp
      (hhonest before e s t ⟨⟨rest, by simp⟩, Lts.exec_of_run hrun, hst⟩)
  · intro hcandid before e s t took
    exact (honest_iff took.run took.step).mpr (took.guard hcandid)

/-- Where in a run a session was over. -/
theorem OverSince.take {sid : Str} (h : OverSince env W ls b sid) :
    ∃ k m e r u, k < m ∧ m ≤ ls.length ∧ ls[k]? = some e ∧ Sends b r e ∧
      (world env W).exec (ls.take m) World.init = some u ∧ u.server.Over sid := by
  rcases h with ⟨before, e, rest, rfl, ⟨r, hsends⟩, _, middle, u, ⟨after, rfl⟩, hexec, hover⟩
  refine ⟨before.length, (before ++ e :: middle).length, e, r, u, by simp, by simp, by simp, hsends,
    ?_, hover⟩
  have hcut : before ++ e :: (middle ++ after) = (before ++ e :: middle) ++ after := by simp
  rw [hcut, List.take_left, hexec]

namespace Sample

/-- Alice creates a session, Bob opens its link, and the limiter answers his page. -/
def busy : List Event := List.flatten
  [[.alice (.generated 0), .alice (.exported 0), .alice .start,
      .alice (.create (lit "Alice") (lit "Where?") (lit " Porto")), .alice (.post 0 0 false)],
    [.embed 0 (some vector), .name 0 sid, .redis 0 .none, .answer 0].map Event.server,
    [.bob 0 (.init sid), .bob 0 (.generated 0), .bob 0 (.fetch 0 1 true), .server (.answer 1),
      .bob 0 (.answered 0)]]

end Sample

/-- A page shows "expired" though its session is waiting for Bob all the while. -/
theorem waiting_told_expired :
    ¬ ∀ (ls : List Event) (w : World Sample.crypto),
      (world Sample.config Sample.crypto).Run Lts.anyStep World.init ls w →
      ∀ before e s t, (world Sample.config Sample.crypto).Took ls before e s t →
        ∀ b page page', s.bobs b = some page → t.bobs b = some page' →
          page.screen ≠ .expired → page'.screen = .expired →
            OverSince Sample.config Sample.crypto before b page.sid := by
  intro h
  have hsome : ((world Sample.config Sample.crypto).exec (Sample.busy ++ [.bob 0 (.read 0)])
      World.init).isSome = true := by decide +kernel
  have took := Lts.Took.of_exec _ List.prefix_rfl hsome
  have hrun := Lts.run_after _ _ hsome
  have hpage : (((world Sample.config Sample.crypto).after Sample.busy).bobs 0).map
      (fun page => (page.screen, page.sid)) = some (.loading, Sample.sid) := by decide +kernel
  have hpage' : (((world Sample.config Sample.crypto).after
      (Sample.busy ++ [.bob 0 (.read 0)])).bobs 0).map (·.screen) = some .expired := by decide +kernel
  rcases Option.map_eq_some_iff.mp hpage with ⟨page, hb, hp⟩
  rcases Option.map_eq_some_iff.mp hpage' with ⟨page', hb', hscreen'⟩
  rcases Prod.mk.inj hp with ⟨hscreen, hsid⟩
  have hover := h _ _ hrun _ _ _ _ took 0 page page' hb hb' (by simp [hscreen]) hscreen'
  rw [hsid] at hover
  rcases hover.take with ⟨k, m, e, r, u, hkm, hm, he, ⟨n, limited, hsends⟩, hexec, hu⟩
  -- Bob's page sends nothing before the session is created
  have hpages : ∀ k < 9, ∀ a, Sample.busy[k]? ≠ some (.bob 0 a) := by
    intro k hk a
    interval_cases k <;> simp [Sample.busy]
  have hk : 9 ≤ k := by
    by_contra hk
    rcases hsends with rfl | rfl | rfl <;> exact hpages k (by omega) _ he
  have hwaiting : ∀ m < 15, 9 < m → ((world Sample.config Sample.crypto).exec (Sample.busy.take m)
      World.init).all (fun u => decide (¬ u.server.Over Sample.sid)) = true := by decide +kernel
  have hlen : Sample.busy.length = 14 := rfl
  have hall := hwaiting m (by omega) (by omega)
  rw [hexec] at hall
  exact of_decide_eq_true hall hu

namespace Sample

/-- Bob opens the link, and the limiter answers his verify request. -/
def refused : List Event := List.flatten
  [[.alice (.generated 0), .alice (.exported 0), .alice .start,
      .alice (.create (lit "Alice") (lit "Where?") (lit " Porto")), .alice (.post 0 0 false)],
    [.embed 0 (some vector), .name 0 sid, .redis 0 .none, .answer 0].map Event.server,
    [.bob 0 (.init sid), .bob 0 (.generated 0), .bob 0 (.fetch 0 1 false),
      .server (.redis 1 .none), .server (.answer 1), .bob 0 (.answered 0), .bob 0 (.read 0)],
    [.bob 0 (.submit (lit "Bob") (lit "porto")), .bob 0 (.post 0 2 true), .server (.answer 2),
      .bob 0 (.answered 0)]]

/-- Task `n` reads no answer to a GET with another status than 200. -/
def loadsOk (n : ℕ) (page : BobPage crypto) : Bool :=
  match page.tasks[n]? with
  | some (.loading response) => response.status = 200
  | _ => true

/-- Task 0 reads a 429 to a verify request. -/
def readsRefusal (page : BobPage crypto) : Bool :=
  match page.tasks[(0 : ℕ)]? with
  | some (.reading response) => response.status = 429
  | _ => false

/-- Enough for a step to be candid. -/
def isCandid (e : Event) (w : World crypto) : Bool :=
  match e with
  | .bob b (.read n) => (w.bobs b).all (loadsOk n)
  | .bob _ (.rejected _) => false
  | _ => true

theorem candid_of_isCandid {e : Event} {w : World crypto} (h : isCandid e w = true) :
    candid e w := by
  cases e with
  | bob b a =>
    cases a with
    | read n =>
      intro page response hpage htask
      simpa [isCandid, hpage, loadsOk, htask] using h
    | rejected n => simp [isCandid] at h
    | _ => trivial
  | _ => trivial

theorem refused_candid : (world config crypto).Run candid World.init (refused ++ [.bob 0 (.read 0)])
    ((world config crypto).after (refused ++ [.bob 0 (.read 0)])) := by
  have hrun := (world config crypto).run_after (refused ++ [.bob 0 (.read 0)]) (by decide +kernel)
  have hall : ∀ k < 21, (((world config crypto).exec ((refused ++ [Event.bob 0 (.read 0)]).take k)
      World.init).all fun w => (refused ++ [Event.bob 0 (.read 0)])[k]?.all (isCandid · w)) =
        true := by decide +kernel
  refine hrun.strengthen ?_
  intro before e rest w hls hbefore
  have hlt : before.length < 21 := by
    have hlength := congrArg List.length hls
    rw [show (refused ++ [Event.bob 0 (.read 0)]).length = 21 from rfl, List.length_append,
      List.length_cons] at hlength
    omega
  have hk := hall before.length hlt
  have hexec : (world config crypto).exec before World.init = some w := Lts.exec_of_run hbefore
  rw [hls, List.take_left, hexec, List.getElem?_append_right le_rfl] at hk
  exact candid_of_isCandid (by simpa using hk)

end Sample

/-- It applies to a run in which Bob's verify request is refused: he can try again. -/
theorem honest_iff_candid_sample :
    ∃ page page', ((world Sample.config Sample.crypto).after Sample.refused).bobs 0 = some page ∧
      ((world Sample.config Sample.crypto).after
        (Sample.refused ++ [.bob 0 (.read 0)])).bobs 0 = some page' ∧
      page.Fails (.read 0) ∧ page'.Able := by
  have hsome : ((world Sample.config Sample.crypto).exec (Sample.refused ++ [.bob 0 (.read 0)])
      World.init).isSome = true := by decide +kernel
  have took := Lts.Took.of_exec _ List.prefix_rfl hsome
  have hhonest := (honest_iff_candid (Lts.run_after _ _ hsome)).mpr Sample.refused_candid
  have hfails : (((world Sample.config Sample.crypto).after Sample.refused).bobs 0).any
      Sample.readsRefusal = true := by decide +kernel
  have hpage' : (((world Sample.config Sample.crypto).after
      (Sample.refused ++ [.bob 0 (.read 0)])).bobs 0).isSome = true := by decide +kernel
  rcases (Option.any_eq_true _ _).mp hfails with ⟨page, hb, hstatus⟩
  rcases Option.isSome_iff_exists.mp hpage' with ⟨page', hb'⟩
  have hfail : page.Fails (.read 0) := by
    cases htask : page.tasks[0]? with
    | none => simp [Sample.readsRefusal, htask] at hstatus
    | some task =>
      cases task with
      | reading response =>
        have h429 : response.status = 429 := by simpa [Sample.readsRefusal, htask] using hstatus
        exact ⟨response, Or.inr ⟨htask, by simp [Response.ok, h429], by omega, by omega⟩⟩
      | _ => simp [Sample.readsRefusal, htask] at hstatus
  exact ⟨page, page', hb, hb', hfail,
    (hhonest _ _ _ _ took 0 page page' hb hb').2 (.read 0) rfl hfail⟩

end Doppelganger
