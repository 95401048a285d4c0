import Doppelganger.Rest

/-!
# What the forms let through

Both pages check a form before they send it: `trim` leaves something of every field, and `maxlength`
keeps a field from growing too long. The server checks it again with `strip` and `len`. The two
notions of white space differ: `strip` takes the separators U+001C to U+001F and U+0085 too, which
`trim` leaves alone. `pages_refused_iff` says that this is the only way in which a request that a page
has sent can be refused as a bad request.

That a value a user has typed is not longer than `maxlength` is taken from the browser.
-/

open Text Redis

namespace Doppelganger

/-! ## White space -/

/-- What `strip` takes and `trim` leaves. -/
def isSeparator (u : UInt16) : Bool := (28 ≤ u && u ≤ 31) || u == 0x85

theorem isSeparator_iff {u : UInt16} :
    isSeparator u = true ↔ isSpace u = true ∧ isJsSpace u = false := by
  simp only [isSeparator, isSpace, isJsSpace, Bool.or_eq_true, Bool.and_eq_true, decide_eq_true_eq,
    beq_iff_eq, Bool.or_eq_false_iff, Bool.and_eq_false_iff, decide_eq_false_iff_not,
    beq_eq_false_iff_ne, ne_eq, UInt16.le_iff_toNat_le, ← UInt16.toNat_inj, UInt16.reduceToNat]
  omega

theorem strip_eq_nil_iff {s : Str} : strip s = [] ↔ ∀ u ∈ s, isSpace u = true := by
  rw [strip, List.rdropWhile_eq_nil_iff]
  constructor
  · intro h u hu
    rw [← List.takeWhile_append_dropWhile (p := isSpace) (l := s)] at hu
    rcases List.mem_append.mp hu with hu | hu
    · exact List.mem_takeWhile_imp hu
    · exact h u hu
  · intro h u hu
    exact h u ((List.dropWhile_suffix _).subset hu)

/-- A text that `trim` leaves alone, and no longer than the field it comes from. -/
structure FieldText (maxlength : ℕ) (s : Str) : Prop where
  ne : s ≠ []
  first : ∀ u, s.head? = some u → isJsSpace u = false
  last : ∀ u, s.getLast? = some u → isJsSpace u = false
  short : s.length ≤ maxlength

theorem fieldText_trim {maxlength : ℕ} {s : Str} (hne : trim s ≠ []) (hlen : s.length ≤ maxlength) :
    FieldText maxlength (trim s) where
  ne := hne
  first := by
    intro u hu
    have hdrop : s.dropWhile isJsSpace ≠ [] := by
      intro hnil
      exact hne (by simp [trim, hnil])
    -- what is dropped at the end leaves the head where it is
    rcases List.rdropWhile_prefix isJsSpace (s.dropWhile isJsSpace) with ⟨rest, hrest⟩
    have hhead : (s.dropWhile isJsSpace).head? = some u := by
      rw [← hrest, List.head?_append]
      exact Option.or_eq_some_iff.mpr (Or.inl hu)
    have hnot := List.head?_dropWhile_not isJsSpace s
    rw [hhead] at hnot
    simpa using hnot
  last := by
    intro u hu
    have hnot := List.rdropWhile_last_not isJsSpace (s.dropWhile isJsSpace) hne
    rw [List.getLast?_eq_some_getLast hne] at hu
    rw [← Option.some.inj hu]
    exact Bool.eq_false_of_not_eq_true hnot
  short := by
    have hrdrop := (List.rdropWhile_prefix isJsSpace (s.dropWhile isJsSpace)).length_le
    have hdrop := (List.dropWhile_suffix (l := s) isJsSpace).length_le
    exact (hrdrop.trans hdrop).trans hlen

/-- White space to the server, though a page would send it. -/
structure OnlySeparated (s : Str) : Prop where
  space : ∀ u ∈ s, isSpace u = true
  first : ∃ u, s.head? = some u ∧ isSeparator u = true
  last : ∃ u, s.getLast? = some u ∧ isSeparator u = true

theorem FieldText.strip_eq_nil_iff {maxlength : ℕ} {s : Str} (h : FieldText maxlength s) :
    strip s = [] ↔ OnlySeparated s := by
  constructor
  · intro hstrip
    have hspace := Doppelganger.strip_eq_nil_iff.mp hstrip
    have hhead := List.head?_eq_some_head h.ne
    have hlast := List.getLast?_eq_some_getLast h.ne
    refine ⟨hspace, ⟨_, hhead, ?_⟩, _, hlast, ?_⟩
    · exact isSeparator_iff.mpr ⟨hspace _ (List.head_mem h.ne), h.first _ hhead⟩
    · exact isSeparator_iff.mpr ⟨hspace _ (List.getLast_mem h.ne), h.last _ hlast⟩
  · intro hsep
    exact Doppelganger.strip_eq_nil_iff.mpr hsep.space

/-- A text has no more characters than code units. -/
theorem len_le_length (s : Str) : len s ≤ s.length := by
  fun_induction len s with
  | case1 => exact le_rfl
  | case2 => exact le_rfl
  | case3 a b rest _ ih =>
    simp only [List.length_cons]
    omega
  | case4 a b rest _ ih =>
    simp only [List.length_cons] at ih ⊢
    omega

theorem FieldText.len_le {maxlength : ℕ} {s : Str} (h : FieldText maxlength s) :
    len s ≤ maxlength :=
  (len_le_length s).trans h.short

/-! ## Bad requests -/

/-- What the validator of its route makes of a request. -/
def Request.validate : Request → Except Exc (Option Str)
  | .create body => validateSessionCreate body
  | .verify _ body => validateVerify body
  | _ => .ok none

/-- A request is refused as a bad one exactly for what its validator says, unless it is one too
many. -/
structure Judged (q : Request) (hd : Handler) : Prop where
  refused : ∀ msg, q.validate = .ok (some msg) →
    hd.response? = some (errorResponse 400 msg) ∨ hd.response? = some rateLimited
  bad : ∀ response, hd.response? = some response → response.status = 400 →
    ∃ msg, q.validate = .ok (some msg)

section Server

variable {env : Env} {σ σ' : State} {l : Label} {q : Request} {hd hd' : Handler}

theorem handleError_status_ne (e : Exc) : (handleError e).status ≠ 400 := by
  cases e <;> decide

theorem start_of_error {e : Exc} (h : q.validate = .error e) :
    Handler.start q = .replying (.error e) := by
  cases q with
  | create body =>
    have hv : validateSessionCreate body = .error e := h
    simp only [Handler.start, hv]
  | verify sid body =>
    have hv : validateVerify body = .error e := h
    simp only [Handler.start, hv]
  | _ => cases h

theorem start_of_refused {msg : Str} (h : q.validate = .ok (some msg)) :
    Handler.start q = .replying (.ok (errorResponse 400 msg)) := by
  cases q with
  | create body =>
    have hv : validateSessionCreate body = .ok (some msg) := h
    simp only [Handler.start, hv]
  | verify sid body =>
    have hv : validateVerify body = .ok (some msg) := h
    simp only [Handler.start, hv]
  | _ => cases h

/-- A request that passes its validator goes on. -/
theorem start_of_passed (h : q.validate = .ok none) : (Handler.start q).response? = none := by
  cases q with
  | create body =>
    rcases validateSessionCreate_eq_none.mp h with ⟨_, form, hform, _⟩
    have hv : validateSessionCreate body = .ok none := h
    simp only [Handler.start, hv, hform, Handler.response?]
  | verify sid body =>
    rcases validateVerify_eq_none.mp h with ⟨_, form, hform, _⟩
    have hv : validateVerify body = .ok none := h
    simp only [Handler.start, hv, hform, Handler.response?]
  | _ => rfl

theorem judged_start (q : Request) : Judged q (.start q) := by
  constructor
  · intro msg hmsg
    rw [start_of_refused hmsg]
    exact Or.inl rfl
  · intro response hresp hstatus
    cases hv : q.validate with
    | error e =>
      rw [start_of_error hv] at hresp
      obtain rfl := Option.some.inj hresp
      exact absurd hstatus (handleError_status_ne e)
    | ok msg =>
      cases msg with
      | some msg => exact ⟨msg, rfl⟩
      | none =>
        rw [start_of_passed hv] at hresp
        cases hresp

theorem judged_limited (q : Request) : Judged q (.replying (.ok rateLimited)) := by
  constructor
  · exact fun _ _ => Or.inr rfl
  · intro response hresp hstatus
    obtain rfl := Option.some.inj hresp
    cases hstatus

theorem ok_of_bind {α β : Type} {check : Except Exc α} {rest : α → Except Exc β} {b : β}
    (h : check >>= rest = .ok b) : ∃ a, check = .ok a ∧ rest a = .ok b := by
  cases check with
  | error e => cases h
  | ok a => exact ⟨a, rfl, h⟩

theorem getResponse_status_ne {session : Option Session} {response : Response}
    (h : getResponse session = .ok response) : response.status ≠ 400 := by
  cases session with
  | none =>
    cases h
    decide
  | some session =>
    rcases ok_of_bind h with ⟨_, _, h⟩
    rcases ok_of_bind h with ⟨_, _, h⟩
    rcases ok_of_bind h with ⟨_, _, h⟩
    cases h
    simp

theorem verifyResponse_status_ne {session : Session} {score : ℚ} {response : Response}
    (h : verifyResponse env session score .won = .ok response) : response.status ≠ 400 := by
  unfold verifyResponse at h
  split_ifs at h
  · rcases ok_of_bind h with ⟨text, _, h⟩
    split at h
    · cases h
    · cases h
      simp [passResponse]
  · cases h
    simp [failResponse]

/-- No handler that waits for something answers that the request was a bad one. -/
theorem status_ne_of_handlerStep {r : ℕ} {db : Store} (h : HandlerStep env r db l hd hd')
    (hnone : hd.response? = none) {response : Response} (hresp : hd'.response? = some response) :
    response.status ≠ 400 := by
  have hreply : ∀ {result : Result}, hd' = .replying result →
      (∀ response, result = .ok response → response.status ≠ 400) → response.status ≠ 400 := by
    intro result hd' hresult
    subst hd'
    obtain rfl := Option.some.inj hresp
    cases result with
    | error e => exact handleError_status_ne e
    | ok response => exact hresult _ rfl
  cases h with
  | embedded result _ _ hembed =>
    cases hembed with
    | created | scored => cases hresp
    | createFailed | verifyFailed =>
      refine hreply rfl ?_
      rintro _ ⟨⟩
      decide
    | notScored | notEncoded => exact hreply rfl nofun
  | named => cases hresp
  | notNamed => exact hreply rfl nofun
  | executed _ effect _ hcmd =>
    cases hcmd with
    | create form v sid createdAt =>
      refine hreply rfl ?_
      intro response hok
      rw [createStored_eq] at hok
      split_ifs at hok
      rcases createResponse_cases env sid v with ⟨e, herror, _⟩ | ⟨_, _, _, _, hanswer⟩
      · rw [herror] at hok
        cases hok
      · rw [hanswer] at hok
        cases hok
        simp
    | get sid => exact hreply rfl fun _ => getResponse_status_ne
    | load sid form =>
      rcases verifyLoaded_cases sid form (SessionStore.get db sid) with
        ⟨_, hgo⟩ | ⟨_, _, _, hgo⟩ | ⟨_, _, _, _, _, hgo⟩ | ⟨_, _, _, hgo⟩
      · refine hreply hgo ?_
        rintro _ ⟨⟩
        decide
      · exact hreply hgo nofun
      · refine hreply hgo ?_
        rintro _ ⟨⟩
        decide
      · rw [hgo] at hresp
        cases hresp
    | gone | completed | delete =>
      refine hreply rfl ?_
      rintro _ ⟨⟩
      decide
    | won sid form session bob score e hdb hphase =>
      exact hreply rfl fun _ => verifyResponse_status_ne
  | failed => exact hreply rfl nofun
  | answered result => cases hnone

/-- All requests of a server. -/
def State.Judged (σ : State) : Prop :=
  ∀ r req, σ.reqs r = some req → Doppelganger.Judged req.request req.handler

theorem judged_of_step (hj : σ.Judged) (h : step env l σ = some σ') : σ'.Judged := by
  intro r req hreq
  cases hold : σ.reqs r with
  | none =>
    rcases arrival_of_step h hold hreq with ⟨limited, _, hhandler⟩
    rw [hhandler]
    cases limited with
    | true => exact judged_limited _
    | false => exact judged_start _
  | some old =>
    rcases handlerStep_of_step h hold with ⟨handler, hnew, hcase⟩
    obtain rfl := Option.some.inj (hnew.symm.trans hreq)
    rcases hcase with rfl | hstep
    · exact hj r old hold
    · cases hresp : old.handler.response? with
      | some response =>
        -- what has been answered stays
        rcases response_of_step h hold hresp with ⟨handler', hnew', hresp'⟩
        obtain rfl := (Req.mk.inj (Option.some.inj (hnew'.symm.trans hnew))).2
        have hsame : handler'.response? = old.handler.response? := hresp'.trans hresp.symm
        constructor
        · intro msg hmsg
          rw [hsame]
          exact (hj r old hold).refused msg hmsg
        · intro response hresponse
          rw [hsame] at hresponse
          exact (hj r old hold).bad response hresponse
      | none =>
        constructor
        · intro msg hmsg
          rcases (hj r old hold).refused msg hmsg with hmsg | hmsg
          · rw [hresp] at hmsg
            cases hmsg
          · rw [hresp] at hmsg
            cases hmsg
        · intro response hresponse hstatus
          exact absurd hstatus (status_ne_of_handlerStep hstep hresp hresponse)

end Server

/-! ## Texts that a page sends -/

section Pages

variable {W : Crypto} {env : Env} {w w' : World W} {e : Event}

/-- What a user types is no longer than the fields of the forms allow. -/
def Typed : Event → Prop
  | .alice (.create aliceName memoryQuestion memoryAnswer) =>
    aliceName.length ≤ 50 ∧ memoryQuestion.length ≤ 500 ∧ memoryAnswer.length ≤ 500
  | .bob _ (.submit bobName answer) => bobName.length ≤ 50 ∧ answer.length ≤ 500
  | _ => True

/-- The texts that `create` goes on with. -/
def AliceTask.Checked : AliceTask W → Prop
  | .creating aliceName memoryQuestion memoryAnswer _ =>
    FieldText 50 aliceName ∧ FieldText 500 memoryQuestion ∧ FieldText 500 memoryAnswer
  | _ => True

/-- The texts that `submitAnswer` goes on with. -/
def BobTask.Checked : BobTask W → Prop
  | .submitting bobName answer _ => FieldText 50 bobName ∧ FieldText 500 answer
  | _ => True

/-- The pages have checked what they are about to send. -/
structure World.Checked (w : World W) : Prop where
  alice : ∀ task ∈ w.alice.tasks, task.Checked
  bobs : ∀ b page, w.bobs b = some page → ∀ task ∈ page.tasks, task.Checked

namespace AlicePage

variable {page page' : AlicePage W} {n : ℕ}

/-- Every task is an old one, or sends texts that have been checked. -/
def Keeps (page page' : AlicePage W) : Prop :=
  ∀ task ∈ page'.tasks, task ∈ page.tasks ∨ task.Checked

theorem keeps_of_eq (h : page'.tasks = page.tasks) : page.Keeps page' :=
  fun _ ht => Or.inl (h ▸ ht)

theorem keeps_goOn {task : AliceTask W} (h : page'.tasks = page.tasks.set n task)
    (hchecked : task.Checked) : page.Keeps page' := by
  intro task' ht
  rw [h] at ht
  rcases List.mem_or_eq_of_mem_set ht with hold | rfl
  · exact Or.inl hold
  · exact Or.inr hchecked

theorem keeps_finish (h : page'.tasks = page.tasks.eraseIdx n) : page.Keeps page' := by
  intro task ht
  rw [h] at ht
  exact Or.inl (List.mem_of_mem_eraseIdx ht)

theorem keeps_await {task : AliceTask W} (h : page'.tasks = page.tasks ++ [task])
    (hchecked : task.Checked) : page.Keeps page' := by
  intro task' ht
  rw [h] at ht
  rcases List.mem_append.mp ht with hold | hnew
  · exact Or.inl hold
  · rw [List.mem_singleton.mp hnew]
    exact Or.inr hchecked

theorem keeps_create {aliceName memoryQuestion memoryAnswer : Str}
    (htyped : Typed (.alice (.create aliceName memoryQuestion memoryAnswer)))
    (h : page.create aliceName memoryQuestion memoryAnswer = some page') : page.Keeps page' := by
  unfold create at h
  split_ifs at h with hready hblank
  · obtain rfl := Option.some.inj h
    exact keeps_of_eq rfl
  · push Not at hblank
    split at h
    · obtain rfl := Option.some.inj h
      exact keeps_of_eq rfl
    · obtain rfl := Option.some.inj h
      exact keeps_await rfl ⟨fieldText_trim hblank.1 htyped.1,
        fieldText_trim hblank.2.1 htyped.2.1, fieldText_trim hblank.2.2 htyped.2.2⟩

theorem tasks_created (page : AlicePage W) (response : Response) :
    (page.created response).tasks = page.tasks := by
  unfold created
  split_ifs
  · rfl
  · split
    · rfl
    · split
      · split_ifs
        · rfl
        · rfl
      · rfl

theorem keeps_onmessage (page : AlicePage W) (n : ℕ) (sid data : Str) :
    page.Keeps (page.onmessage n sid data) := by
  rcases page.onmessage_cases n sid data with ⟨ended, hpage | ⟨event, _, hpage⟩⟩
  · rw [hpage]
    exact keeps_of_eq rfl
  · rw [hpage]
    unfold onevent
    split_ifs
    · exact keeps_of_eq rfl
    · split
      · split_ifs
        · exact keeps_await rfl trivial
        · exact keeps_of_eq rfl
      · exact keeps_of_eq rfl
    · exact keeps_of_eq rfl
    · exact keeps_await rfl trivial
    · exact keeps_of_eq rfl

end AlicePage

open AlicePage in
theorem keeps_of_aliceStep {a : AliceAct} (htyped : Typed (.alice a))
    (h : w.aliceStep env a = some w') : w.alice.Keeps w'.alice := by
  cases moved_of_aliceStep h with
  | create aliceName memoryQuestion memoryAnswer p =>
    rcases Option.map_eq_some_iff.mp h with ⟨page, hpage, heq⟩
    have hkeeps := keeps_create htyped hpage
    rw [← heq]
    exact hkeeps
  | start | unsent | connected | skipped | dropped | refused => exact keeps_of_eq rfl
  | again => exact keeps_await rfl trivial
  | generated | post | answered | imported => exact keeps_goOn rfl trivial
  | exported | keyless | derived | caught | rejected => exact keeps_finish rfl
  | read n response ht => exact keeps_finish (tasks_created _ _)
  | received n i k sid data hsrc => exact keeps_onmessage _ _ _ _

/-! ### Bob's pages -/

theorem checked_submit {page page' : BobPage W} {b : ℕ} {bobName answer : Str}
    (htyped : Typed (.bob b (.submit bobName answer)))
    (h : page.submit bobName answer = some page') (hpage : ∀ task ∈ page.tasks, task.Checked) :
    ∀ task ∈ page'.tasks, task.Checked := by
  unfold BobPage.submit at h
  split_ifs at h with hready hblank
  · obtain rfl := Option.some.inj h
    exact hpage
  · push Not at hblank
    split at h
    · obtain rfl := Option.some.inj h
      exact hpage
    · obtain rfl := Option.some.inj h
      intro task ht
      rcases List.mem_append.mp ht with hold | hnew
      · exact hpage task hold
      · rw [List.mem_singleton.mp hnew]
        exact ⟨fieldText_trim hblank.1 htyped.1, fieldText_trim hblank.2 htyped.2⟩

/-- A promise that is settled never leads to the beginning of `submitAnswer`. -/
theorem checked_of_settles {page page' : BobPage W} {σ : State} (hok : page.Ok σ)
    (h : page.Settles page') : ∀ task ∈ page'.tasks, task.Checked := by
  have hle : page.rank ≤ 5 := by
    rcases hok.waits with hnone | ⟨task, hone, _⟩
    · simp [BobPage.rank, hnone]
    · rw [BobPage.rank, hone]
      cases task <;> simp [BobTask.rank]
  intro task ht
  have htask : task.rank ≤ page'.rank :=
    List.single_le_sum (fun _ _ => Nat.zero_le _) _ (List.mem_map_of_mem ht)
  have hlt := h.rank
  cases task with
  | submitting bobName answer p =>
    simp only [BobTask.rank] at htask
    omega
  | _ => trivial

theorem checked_of_bobStep (hw : w.Ok env) {b : ℕ} {a : BobAct} (htyped : Typed (.bob b a))
    (h : World.next env (.bob b a) w = some w')
    (hpages : ∀ page, w.bobs b = some page → ∀ task ∈ page.tasks, task.Checked) :
    ∀ page, w'.bobs b = some page → ∀ task ∈ page.tasks, task.Checked := by
  intro page₁ hpage₁
  cases ha : a.calls with
  | false =>
    rcases settles_of_next hw ha h with ⟨page, page', hpage, hpage', hsettles⟩
    obtain rfl := Option.some.inj (hpage'.symm.trans hpage₁)
    exact checked_of_settles (hw.bobs b page hpage) hsettles
  | true =>
    cases a with
    | init sid =>
      rcases called_of_next ha h with ⟨sid', _, rfl⟩ | ⟨page, page', hpage, _, _, _⟩
      · rw [setBob_bobs, if_pos rfl] at hpage₁
        obtain rfl := Option.some.inj hpage₁
        simp [BobPage.init, BobTask.Checked]
      · simp [World.next, World.bobStep, hpage] at h
    | submit bobName answer =>
      rcases ofBob_eq_some h with ⟨page, page', hpage, hf, rfl⟩
      rw [setBob_bobs, if_pos rfl] at hpage₁
      obtain rfl := Option.some.inj hpage₁
      exact checked_submit htyped hf (hpages page hpage)
    | _ => cases ha

theorem checked_init : (World.init : World W).Checked where
  alice := by simp [World.init, AlicePage.init, AliceTask.Checked]
  bobs := nofun

theorem checked_of_next (hw : w.Ok env) (hc : w.Checked) (htyped : Typed e)
    (h : World.next env e w = some w') : w'.Checked := by
  constructor
  · rcases alice_of_next h with hsame | ⟨a, rfl, hstep⟩
    · rw [hsame]
      exact hc.alice
    · intro task ht
      rcases keeps_of_aliceStep htyped hstep task ht with hold | hchecked
      · exact hc.alice task hold
      · exact hchecked
  · intro b
    by_cases he : ∀ a, e ≠ .bob b a
    · rw [bobs_of_next h he]
      exact hc.bobs b
    · push Not at he
      rcases he with ⟨a, rfl⟩
      exact checked_of_bobStep hw htyped h (hc.bobs b)

/-! ## Requests that a page sends -/

/-- A request as a page sends it. -/
inductive PageRequest (W : Crypto) : Request → Prop
  | create (aliceName memoryQuestion memoryAnswer : Str) (p : ℕ) : FieldText 50 aliceName →
      FieldText 500 memoryQuestion → FieldText 500 memoryAnswer →
      PageRequest W (.create (AlicePage.body aliceName memoryQuestion memoryAnswer (W.jwk p)))
  | verify (sid bobName answer : Str) (p : ℕ) : FieldText 50 bobName → FieldText 500 answer →
      PageRequest W (.verify sid (BobPage.body bobName answer (W.jwk p)))

/-- A page sends a form with this event, as request `r`. -/
def SendsForm (r : ℕ) (e : Event) : Prop :=
  ∃ n limited, e = .alice (.post n r limited) ∨ ∃ b, e = .bob b (.post n r limited)

theorem pageRequest_of_next (hc : w.Checked) {r : ℕ} (hsends : SendsForm r e)
    (h : World.next env e w = some w') :
    ∃ q, w'.server.request? r = some q ∧ PageRequest W q := by
  rcases hsends with ⟨n, limited, rfl | ⟨b, rfl⟩⟩
  · cases moved_of_next h with
    | post n r limited aliceName memoryQuestion memoryAnswer p σ' ht hs =>
      rcases hc.alice _ (List.mem_of_getElem? ht) with ⟨hname, hquestion, hanswer⟩
      exact ⟨_, request?_of_arrival hs, .create _ _ _ p hname hquestion hanswer⟩
  · rcases ofBobSending_eq_some h with ⟨page, page', q, σ', hpage, hf, hs, rfl⟩
    refine ⟨q, request?_of_arrival hs, ?_⟩
    unfold BobPage.post at hf
    split at hf
    · next bobName answer p ht =>
      rcases hc.bobs b page hpage _ (List.mem_of_getElem? ht) with ⟨hname, hanswer⟩
      rcases Prod.mk.inj (Option.some.inj hf) with ⟨_, rfl⟩
      exact .verify _ _ _ p hname hanswer
    · cases hf

/-- The texts of a request, under the names that the server has for them. -/
def Request.texts : Request → List (Str × Str)
  | .create body => [lit "alice_name", lit "memory_question", lit "memory_answer"].filterMap
      fun name => (stringMember body name).map (Prod.mk name)
  | .verify _ body => [lit "bob_name", lit "answer"].filterMap
      fun name => (stringMember body name).map (Prod.mk name)
  | _ => []

/-- The first text that is white space to the server. -/
def Request.blank? (q : Request) : Option (Str × Str) := q.texts.find? fun t => (strip t.2).isEmpty

/-- What is said of a text that is missing. -/
def required (t : Str × Str) : Str := t.1 ++ lit " required"

/-- A dict of the right members, none too long, is refused for its first blank text only. -/
theorem validateSessionCreate_of_form {data : Json} {form : CreateForm} (hobj : data.isObj = true)
    (hform : createForm data = some form) (hquestion : len form.memoryQuestion ≤ 500)
    (hanswer : len form.memoryAnswer ≤ 500)
    (hjwk : form.alicePubkeyJwk.isObj = true ∧ isP256 form.alicePubkeyJwk = true) :
    validateSessionCreate data = .ok ((Request.create data).blank?.map required) := by
  rcases createForm_eq_some.mp hform with ⟨hn, hq, ha, hj⟩
  have hkey : ∀ m₁ m₂, validateJwk data (lit "alice_pubkey_jwk") m₁ m₂ = .ok none := fun m₁ m₂ =>
    validateJwk_eq_none.mpr ⟨_, hj, hjwk⟩
  have htexts : (Request.create data).texts = [(lit "alice_name", form.aliceName),
      (lit "memory_question", form.memoryQuestion), (lit "memory_answer", form.memoryAnswer)] := by
    simp [Request.texts, hn, hq, ha]
  have hmsgs : lit "alice_name required" = lit "alice_name" ++ lit " required" ∧
      lit "memory_question required" = lit "memory_question" ++ lit " required" ∧
      lit "memory_answer required" = lit "memory_answer" ++ lit " required" := by decide
  simp only [validateSessionCreate, truthy_of_get? hj, Request.blank?, htexts, hkey,
    isBlankMember_of_string hobj hn, isBlankMember_of_string hobj hq,
    isBlankMember_of_string hobj ha, isLongMember_of_string hobj hq,
    isLongMember_of_string hobj ha, Nat.not_lt.mpr hquestion, Nat.not_lt.mpr hanswer, hmsgs]
  -- the checks stop at the first blank text
  cases hbn : (strip form.aliceName).isEmpty
  · cases hbq : (strip form.memoryQuestion).isEmpty
    · cases hba : (strip form.memoryAnswer).isEmpty <;>
        simp [hbn, hbq, hba, required, bind, Except.bind, pure, Except.pure]
    · simp [hbn, hbq, required, bind, Except.bind, pure, Except.pure]
  · simp [hbn, required, bind, Except.bind, pure, Except.pure]

theorem validateVerify_of_form {data : Json} {form : VerifyForm} (sid : Str)
    (hobj : data.isObj = true) (hform : verifyForm data = some form)
    (hanswer : len form.answer ≤ 500)
    (hjwk : form.bobPubkeyJwk.isObj = true ∧ isP256 form.bobPubkeyJwk = true) :
    validateVerify data = .ok ((Request.verify sid data).blank?.map required) := by
  rcases verifyForm_eq_some.mp hform with ⟨hn, ha, hj⟩
  have hkey : ∀ m₁ m₂, validateJwk data (lit "bob_pubkey_jwk") m₁ m₂ = .ok none := fun m₁ m₂ =>
    validateJwk_eq_none.mpr ⟨_, hj, hjwk⟩
  have htexts : (Request.verify sid data).texts =
      [(lit "bob_name", form.bobName), (lit "answer", form.answer)] := by
    simp [Request.texts, hn, ha]
  have hmsgs : lit "bob_name required" = lit "bob_name" ++ lit " required" ∧
      lit "answer required" = lit "answer" ++ lit " required" := by decide
  simp only [validateVerify, truthy_of_get? hj, Request.blank?, htexts, hkey,
    isBlankMember_of_string hobj hn, isBlankMember_of_string hobj ha,
    isLongMember_of_string hobj ha, Nat.not_lt.mpr hanswer, hmsgs]
  cases hbn : (strip form.bobName).isEmpty
  · cases hba : (strip form.answer).isEmpty <;>
      simp [hbn, hba, required, bind, Except.bind, pure, Except.pure]
  · simp [hbn, required, bind, Except.bind, pure, Except.pure]

/-- The keys that a browser exports are EC P-256 keys. -/
def Crypto.ExportsP256 (W : Crypto) : Prop :=
  ∀ k, (W.exportPublicKey k).isObj = true ∧ isP256 (W.exportPublicKey k) = true

/-- Of what a page sends the server refuses a blank text only. -/
theorem validate_of_pageRequest (hjwk : W.ExportsP256) {q : Request} (h : PageRequest W q) :
    q.validate = .ok (q.blank?.map required) := by
  cases h with
  | create aliceName memoryQuestion memoryAnswer p hname hquestion hanswer =>
    have hform : createForm (AlicePage.body aliceName memoryQuestion memoryAnswer (W.jwk p)) =
        some ⟨aliceName, memoryQuestion, memoryAnswer, W.jwk p⟩ := rfl
    exact validateSessionCreate_of_form rfl hform hquestion.len_le hanswer.len_le (hjwk _)
  | verify sid bobName answer p hname hanswer =>
    have hform : verifyForm (BobPage.body bobName answer (W.jwk p)) =
        some ⟨bobName, answer, W.jwk p⟩ := rfl
    exact validateVerify_of_form sid rfl hform hanswer.len_le (hjwk _)

/-- The texts of a page's request come from fields. -/
theorem fieldText_of_pageRequest {q : Request} (h : PageRequest W q) :
    ∀ t ∈ q.texts, ∃ maxlength, FieldText maxlength t.2 := by
  cases h with
  | create aliceName memoryQuestion memoryAnswer p hname hquestion hanswer =>
    intro t ht
    have htexts : t ∈ [(lit "alice_name", aliceName), (lit "memory_question", memoryQuestion),
        (lit "memory_answer", memoryAnswer)] := ht
    simp only [List.mem_cons, List.not_mem_nil, or_false] at htexts
    rcases htexts with rfl | rfl | rfl
    · exact ⟨_, hname⟩
    · exact ⟨_, hquestion⟩
    · exact ⟨_, hanswer⟩
  | verify sid bobName answer p hname hanswer =>
    intro t ht
    have htexts : t ∈ [(lit "bob_name", bobName), (lit "answer", answer)] := ht
    simp only [List.mem_cons, List.not_mem_nil, or_false] at htexts
    rcases htexts with rfl | rfl
    · exact ⟨_, hname⟩
    · exact ⟨_, hanswer⟩

/-- A blank text among those of a page's request. -/
theorem blank?_eq_none_iff {q : Request} (h : PageRequest W q) :
    q.blank? = none ↔ ∀ t ∈ q.texts, ¬ OnlySeparated t.2 := by
  rw [Request.blank?, List.find?_eq_none]
  constructor
  · intro hnone t ht hsep
    rcases fieldText_of_pageRequest h t ht with ⟨_, htext⟩
    exact hnone t ht (by simpa using htext.strip_eq_nil_iff.mpr hsep)
  · intro hnone t ht hblank
    rcases fieldText_of_pageRequest h t ht with ⟨_, htext⟩
    exact hnone t ht (htext.strip_eq_nil_iff.mp (by simpa using hblank))

theorem judged_of_next (hj : w.server.Judged) (h : World.next env e w = some w') :
    w'.server.Judged := by
  rcases server_of_next h with hsame | ⟨l, hs, _⟩
  · rw [hsame]
    exact hj
  · exact judged_of_step hj hs

/-- A form that a page has sent is there, as the page has sent it. -/
theorem pageRequest_of_run {ls : List Event}
    (h : (world env W).Run (fun e _ => Typed e) World.init ls w) {r : ℕ}
    (hsent : ∃ e ∈ ls, SendsForm r e) :
    ∃ q, w.server.request? r = some q ∧ PageRequest W q := by
  rcases hsent with ⟨e, he, hsends⟩
  rcases List.append_of_mem he with ⟨before, rest, rfl⟩
  rcases h.split with ⟨w₀, hbefore, hrun⟩
  rcases Lts.run_cons_iff.mp hrun with ⟨_, w₁, hstep, hrest⟩
  have hinv : w₀.Ok env ∧ w₀.Checked := by
    refine hbefore.invariant (P := fun w => w.Ok env ∧ w.Checked) ⟨.init, checked_init⟩ ?_
    rintro e s t htyped hs ⟨hok, hc⟩
    exact ⟨hok.of_next hs, checked_of_next hok hc htyped hs⟩
  rcases pageRequest_of_next hinv.2 hsends hstep with ⟨q, hq, hpage⟩
  have hlater : w₁.server.Later w.server :=
    hrest.chain (R := fun s t : World W => s.server.Later t.server) (fun s => .refl _)
      (fun _ _ _ => .trans) fun _ _ _ _ => later_of_next
  exact ⟨q, hlater.request r q hq, hpage⟩

/-- In a run of the pages, the server and anyone else, where what is typed fits the fields and keys
are exported as EC P-256 keys: a form that a page has sent is refused as a bad request exactly if
one of its texts is white space that begins and ends with a separator, which `strip` takes and `trim`
does not, and the limiter lets it through. The error names such a text. -/
theorem pages_refused_iff {ls : List Event}
    (h : (world env W).Run (fun e _ => Typed e) World.init ls w) (hjwk : W.ExportsP256) {r : ℕ}
    (hsent : ∃ e ∈ ls, SendsForm r e) {response : Response}
    (hanswer : w.server.answer? r = some response) :
    ∃ q, w.server.request? r = some q ∧
      (response.status = 400 ↔ response ≠ rateLimited ∧ ∃ t ∈ q.texts, OnlySeparated t.2) ∧
      (response.status = 400 →
        ∃ t ∈ q.texts, OnlySeparated t.2 ∧ response = errorResponse 400 (required t)) := by
  rcases pageRequest_of_run h hsent with ⟨q, hq, hpage⟩
  have hjudged : w.server.Judged := by
    refine h.invariant (P := fun w => w.server.Judged) ?_ fun _ _ _ _ hs hj => judged_of_next hj hs
    intro r req hreq
    cases hreq
  rcases (State.answer?_eq_some _).mp hanswer with ⟨q', hreq⟩
  obtain rfl : q' = q := by
    have hq' := hq
    rw [State.request?, hreq] at hq'
    exact Option.some.inj hq'
  have hj := hjudged r _ hreq
  have hvalid := validate_of_pageRequest hjwk hpage
  -- the first blank text decides
  cases hblank : q'.blank? with
  | none =>
    rw [hblank] at hvalid
    have hnot : response.status ≠ 400 := by
      intro hstatus
      rcases hj.bad response rfl hstatus with ⟨msg, hmsg⟩
      simp [hvalid] at hmsg
    have hno := (blank?_eq_none_iff hpage).mp hblank
    refine ⟨q', hq, ?_, fun hstatus => absurd hstatus hnot⟩
    constructor
    · exact fun hstatus => absurd hstatus hnot
    · rintro ⟨_, t, ht, hsep⟩
      exact absurd hsep (hno t ht)
  | some t =>
    rw [hblank] at hvalid
    have ht : t ∈ q'.texts := List.mem_of_find?_eq_some hblank
    have hsep : OnlySeparated t.2 := by
      rcases fieldText_of_pageRequest hpage t ht with ⟨_, htext⟩
      exact htext.strip_eq_nil_iff.mp (by simpa using List.find?_some hblank)
    have hresponse : response = errorResponse 400 (required t) ∨ response = rateLimited := by
      rcases hj.refused _ hvalid with hmsg | hmsg
      · exact Or.inl (Option.some.inj hmsg)
      · exact Or.inr (Option.some.inj hmsg)
    have hlimited : rateLimited.status ≠ 400 := by decide
    refine ⟨q', hq, ?_, ?_⟩
    · constructor
      · intro hstatus
        refine ⟨?_, t, ht, hsep⟩
        rintro rfl
        exact hlimited hstatus
      · rintro ⟨hne, _⟩
        rw [hresponse.resolve_right hne]
        rfl
    · intro hstatus
      refine ⟨t, ht, hsep, hresponse.resolve_right ?_⟩
      rintro rfl
      exact hlimited hstatus

end Pages

/-- Alice calls herself U+001C. -/
def Sample.separated : List Event :=
  [.alice (.generated 0), .alice (.exported 0), .alice .start,
    .alice (.create [0x1C] (lit "Where?") (lit "Porto")), .alice (.post 0 0 false),
    .server (.answer 0)]

/-- It applies: her request is refused as one without a name. -/
theorem pages_refused_sample :
    let w := (world Sample.config Sample.crypto).after Sample.separated
    ∃ response, w.server.answer? 0 = some response ∧
      ∃ q, w.server.request? 0 = some q ∧ response ≠ rateLimited ∧
        ∃ t ∈ q.texts, OnlySeparated t.2 := by
  intro w
  have hrun : (world Sample.config Sample.crypto).Run Lts.anyStep World.init Sample.separated w :=
    Lts.run_after _ _ (by decide +kernel)
  have hstatus : (w.server.answer? 0).map Response.status = some 400 := by decide +kernel
  clear_value w
  have htyped : (world Sample.config Sample.crypto).Run (fun e _ => Typed e) World.init
      Sample.separated w := by
    refine (hrun.of_labels (p := Typed) ?_).mono fun _ _ h => h.2
    simp only [Sample.separated, List.mem_cons, List.not_mem_nil, or_false, forall_eq_or_imp,
      forall_eq, Typed]
    decide
  have hsent : ∃ e ∈ Sample.separated, SendsForm 0 e :=
    ⟨.alice (.post 0 0 false), by simp [Sample.separated], 0, false, Or.inl rfl⟩
  rcases Option.map_eq_some_iff.mp hstatus with ⟨response, hanswer, h400⟩
  rcases pages_refused_iff htyped (fun _ => ⟨rfl, rfl⟩) hsent hanswer with ⟨q, hq, hiff, _⟩
  rcases hiff.mp h400 with ⟨hne, t, ht, hsep⟩
  exact ⟨response, hanswer, q, hq, hne, t, ht, hsep⟩

end Doppelganger
