import Doppelganger.SameKey
import Doppelganger.Telling

/-!
# What Bob's pages ask for

A page sends one request at a time and waits for its answer, then for the body of the answer.
`Asked` follows what a page waits for back to the last request that it has sent. A step of a
page opens it, sends nothing (`Went`), or sends a request: `BobMoved` says what each does to
the tasks, and `asked_of_run` is the induction over the run.
-/

open Text Redis

namespace Doppelganger

variable {W : Crypto} {env : Env} {w w' : World W} {b r n : ℕ} {ls : List Event} {e : Event}

/-! ## Requests of a page -/

/-- Page `b` sends request `r`. -/
def Sends (b r : ℕ) (e : Event) : Prop :=
  ∃ n limited, e = .bob b (.fetch n r limited) ∨ e = .bob b (.keyless n r limited) ∨
    e = .bob b (.post n r limited)

/-- Request `r` is the last that page `b` has sent. -/
def SentLast (ls : List Event) (b r : ℕ) : Prop :=
  ∃ before e rest, ls = before ++ e :: rest ∧ Sends b r e ∧ ∀ e' ∈ rest, ∀ r', ¬ Sends b r' e'

theorem SentLast.snoc (h : SentLast ls b r) (he : ∀ r', ¬ Sends b r' e) :
    SentLast (ls ++ [e]) b r := by
  rcases h with ⟨before, e₀, rest, rfl, hsends, hrest⟩
  refine ⟨before, e₀, rest ++ [e], by simp, hsends, fun e' he' => ?_⟩
  rcases List.mem_append.mp he' with he' | he'
  · exact hrest e' he'
  · rw [List.mem_singleton.mp he']
    exact he

theorem sentLast_self (h : Sends b r e) : SentLast (ls ++ [e]) b r :=
  ⟨ls, e, [], rfl, h, nofun⟩

/-- What a page waits for is the answer, or the body of the answer, to the last request it sent. -/
def BobTask.Asked (σ : State) (ls : List Event) (b : ℕ) (sid : Str) : BobTask W → Prop
  | .fetching r => SentLast ls b r ∧ σ.request? r = some (.get sid)
  | .loading response => response.status ≠ 404 ∧ ∃ r, SentLast ls b r ∧
      σ.request? r = some (.get sid) ∧ σ.answer? r = some response
  | .posting r => SentLast ls b r ∧ ∃ body, σ.request? r = some (.verify sid body)
  | .reading response => ∃ r body, SentLast ls b r ∧
      σ.request? r = some (.verify sid body) ∧ σ.answer? r = some response
  | _ => True

/-- The tasks of the page. -/
def BobPage.Asked (σ : State) (ls : List Event) (b : ℕ) (page : BobPage W) : Prop :=
  ∀ task ∈ page.tasks, task.Asked σ ls b page.sid

/-- The tasks of all pages. -/
def World.Asked (w : World W) (ls : List Event) : Prop :=
  ∀ b page, w.bobs b = some page → page.Asked w.server ls b

theorem BobTask.Asked.later {σ σ' : State} {sid : Str} {task : BobTask W}
    (h : task.Asked σ ls b sid) (hl : σ.Later σ') (he : ∀ r', ¬ Sends b r' e) :
    task.Asked σ' (ls ++ [e]) b sid := by
  cases task with
  | fetching r => exact ⟨h.1.snoc he, hl.request _ _ h.2⟩
  | loading response =>
    rcases h with ⟨hstatus, r, hsent, hq, hans⟩
    exact ⟨hstatus, r, hsent.snoc he, hl.request _ _ hq, hl.answer _ _ hans⟩
  | posting r =>
    rcases h with ⟨hsent, body, hq⟩
    exact ⟨hsent.snoc he, body, hl.request _ _ hq⟩
  | reading response =>
    rcases h with ⟨r, body, hsent, hq, hans⟩
    exact ⟨r, body, hsent.snoc he, hl.request _ _ hq, hl.answer _ _ hans⟩
  | _ => trivial

/-- Where a new task of a page comes from, unless a request is sent. -/
inductive BobTask.From (σ : State) (page : BobPage W) : BobTask W → Prop
  | fetched (r : ℕ) (response : Response) : .fetching r ∈ page.tasks → response.status ≠ 404 →
      σ.answer? r = some response → From σ page (.loading response)
  | posted (r : ℕ) (response : Response) : .posting r ∈ page.tasks →
      σ.answer? r = some response → From σ page (.reading response)
  | other (task : BobTask W) : (∀ σ ls b sid, task.Asked σ ls b sid) → From σ page task

/-- An act that sends nothing: the tasks are old, or come from an old one. -/
structure BobPage.Went (σ : State) (page page' : BobPage W) : Prop where
  sid : page'.sid = page.sid
  tasks : ∀ task ∈ page'.tasks, task ∈ page.tasks ∨ task.From σ page

namespace BobPage

variable {σ : State} {page page' : BobPage W}

theorem Went.of_tasks (hsid : page'.sid = page.sid) (h : ∀ task ∈ page'.tasks, task ∈ page.tasks) :
    Went σ page page' :=
  ⟨hsid, fun task ht => Or.inl (h task ht)⟩

/-- A task is over. -/
theorem went_finish (hsid : page'.sid = page.sid) (h : page'.tasks = page.tasks.eraseIdx n) :
    Went σ page page' := by
  refine .of_tasks hsid ?_
  intro task ht
  rw [h] at ht
  exact List.mem_of_mem_eraseIdx ht

/-- A task goes on. -/
theorem went_goOn {task' : BobTask W} (hsid : page'.sid = page.sid)
    (h : page'.tasks = page.tasks.set n task') (hfrom : task'.From σ page) :
    Went σ page page' := by
  refine ⟨hsid, fun task ht => ?_⟩
  rw [h] at ht
  rcases List.mem_or_eq_of_mem_set ht with ht | rfl
  · exact Or.inl ht
  · exact Or.inr hfrom

theorem went_submit {bobName answer : Str} (h : page.submit bobName answer = some page') :
    Went σ page page' := by
  unfold submit at h
  split_ifs at h
  · obtain rfl := Option.some.inj h
    exact .of_tasks rfl fun _ => id
  · cases hkey : page.bobKeyPair with
    | none =>
      rw [hkey] at h
      obtain rfl := Option.some.inj h
      exact .of_tasks rfl fun _ => id
    | some p =>
      rw [hkey] at h
      obtain rfl := Option.some.inj h
      refine ⟨rfl, fun task ht => ?_⟩
      rcases List.mem_append.mp ht with ht | ht
      · exact Or.inl ht
      · rw [List.mem_singleton.mp ht]
        exact Or.inr (.other _ fun _ _ _ _ => trivial)

theorem went_generated {p : ℕ} (h : page.generated p n = some page') : Went σ page page' := by
  unfold generated at h
  split at h
  · obtain rfl := Option.some.inj h
    exact went_goOn rfl rfl (.other _ fun _ _ _ _ => trivial)
  · cases h

theorem went_answered (h : page.answered σ.answer? n = some page') : Went σ page page' := by
  unfold answered at h
  split at h
  case h_1 r ht =>
    rcases Option.map_eq_some_iff.mp h with ⟨response, hans, rfl⟩
    split_ifs with hstatus
    · exact went_finish rfl rfl
    · exact went_goOn rfl rfl (.fetched r response (List.mem_of_getElem? ht) hstatus hans)
  case h_2 r ht =>
    rcases Option.map_eq_some_iff.mp h with ⟨response, hans, rfl⟩
    exact went_goOn rfl rfl (.posted r response (List.mem_of_getElem? ht) hans)
  case h_3 => cases h

theorem went_verified (response : Response) (data : Json) :
    Went σ page (page.verified n response data) := by
  unfold verified
  split_ifs
  · exact went_finish rfl rfl
  · exact went_finish rfl rfl
  · split
    · split_ifs
      · exact went_goOn rfl rfl (.other _ fun _ _ _ _ => trivial)
      · exact went_finish rfl rfl
    · exact went_finish rfl rfl
  · exact went_finish rfl rfl

theorem went_read (h : page.read n = some page') : Went σ page page' := by
  unfold read at h
  split at h
  case h_1 response ht =>
    obtain rfl := Option.some.inj h
    unfold loaded
    split
    · exact went_finish rfl rfl
    · split_ifs <;> exact went_finish rfl rfl
  case h_2 response ht =>
    obtain rfl := Option.some.inj h
    exact went_verified _ _
  case h_3 => cases h

theorem went_imported (h : page.imported n = some page') : Went σ page page' := by
  unfold imported at h
  split at h
  · split at h
    · cases h
    · split at h
      · obtain rfl := Option.some.inj h
        exact went_finish rfl rfl
      · obtain rfl := Option.some.inj h
        exact went_goOn rfl rfl (.other _ fun _ _ _ _ => trivial)
  · cases h

theorem went_derived (h : page.derived n = some page') : Went σ page page' := by
  unfold derived at h
  split at h
  · obtain rfl := Option.some.inj h
    exact went_finish rfl rfl
  · cases h

theorem went_rejected (h : page.rejected n = some page') : Went σ page page' := by
  unfold rejected at h
  split at h
  case h_5 response ht =>
    obtain rfl := Option.some.inj h
    exact went_verified _ _
  case h_8 => cases h
  all_goals
    obtain rfl := Option.some.inj h
    exact went_finish rfl rfl

/-- What the page waits for has been asked for. -/
theorem Asked.went (h : page.Asked σ ls b) (hwent : Went σ page page')
    (he : ∀ r', ¬ Sends b r' e) : page'.Asked σ (ls ++ [e]) b := by
  intro task ht
  rw [hwent.sid]
  rcases hwent.tasks task ht with ht | hfrom
  · exact (h task ht).later (State.Later.refl σ) he
  · cases hfrom with
    | fetched r response hfetching hstatus hans =>
      rcases h _ hfetching with ⟨hsent, hq⟩
      exact ⟨hstatus, r, hsent.snoc he, hq, hans⟩
    | posted r response hposting hans =>
      rcases h _ hposting with ⟨hsent, body, hq⟩
      exact ⟨r, body, hsent.snoc he, hq, hans⟩
    | other task hasked => exact hasked _ _ _ _

end BobPage

/-! ## Steps -/

theorem later_of_next (h : World.next env e w = some w') : w.server.Later w'.server := by
  rcases server_of_next h with hsame | ⟨l, hs, _⟩
  · rw [hsame]
    exact State.Later.refl _
  · exact later_of_step hs

/-- The acts of a page that send nothing. -/
def BobAct.quiet : BobAct → Bool
  | .fetch _ _ _ => false
  | .keyless _ _ _ => false
  | .post _ _ _ => false
  | _ => true

theorem not_sends_of_quiet {a : BobAct} (ha : a.quiet = true) (b' r' : ℕ) :
    ¬ Sends b' r' (.bob b a) := by
  rintro ⟨n, limited, h | h | h⟩ <;> obtain ⟨_, rfl⟩ := Event.bob.inj h <;> cases ha

/-- A step of page `b`: it is opened, sends nothing, or sends a request. -/
inductive BobMoved (env : Env) (w : World W) (b : ℕ) : BobAct → World W → Prop
  | init (sid : Str) : w.bobs b = none → BobMoved env w b (.init sid) (w.setBob b (BobPage.init sid))
  | quiet (a : BobAct) (page page' : BobPage W) (w' : World W) : a.quiet = true →
      w.bobs b = some page → page.Went w.server page' → w'.bobs = (w.setBob b page').bobs →
      w'.server = w.server → BobMoved env w b a w'
  | get (a : BobAct) (n r : ℕ) (page page' : BobPage W) (limited : Bool) (σ' : State) :
      Sends b r (.bob b a) → w.bobs b = some page → page'.sid = page.sid →
      n < page.tasks.length → page'.tasks = page.tasks.set n (.fetching r) →
      step env (.request r (.get page.sid) limited) w.server = some σ' →
      BobMoved env w b a { w.setBob b page' with server := σ' }
  | verify (a : BobAct) (n r : ℕ) (page page' : BobPage W) (body : Json) (limited : Bool)
      (σ' : State) : Sends b r (.bob b a) → w.bobs b = some page → page'.sid = page.sid →
      n < page.tasks.length → page'.tasks = page.tasks.set n (.posting r) →
      step env (.request r (.verify page.sid body) limited) w.server = some σ' →
      BobMoved env w b a { w.setBob b page' with server := σ' }

theorem bobMoved_of_ofBob {a : BobAct} {f : BobPage W → Option (BobPage W)}
    (ha : a.quiet = true) (hf : ∀ page page', f page = some page' → page.Went w.server page')
    (h : w.ofBob b f = some w') : BobMoved env w b a w' := by
  rcases ofBob_eq_some h with ⟨page, page', hpage, hf', rfl⟩
  exact .quiet a page page' _ ha hpage (hf page page' hf') rfl rfl

theorem lt_of_task {page : BobPage W} {task : BobTask W} (ht : page.tasks[n]? = some task) :
    n < page.tasks.length := (List.getElem?_eq_some_iff.mp ht).1

theorem bobMoved_of_next {a : BobAct} (h : World.next env (.bob b a) w = some w') :
    BobMoved env w b a w' := by
  cases a with
  | init sid =>
    cases hb : w.bobs b with
    | some page => simp [World.next, World.bobStep, hb] at h
    | none =>
      obtain rfl : w.setBob b (BobPage.init sid) = w' := by
        simpa [World.next, World.bobStep, hb] using h
      exact .init sid hb
  | submit bobName answer =>
    exact bobMoved_of_ofBob rfl (fun _ _ => BobPage.went_submit) h
  | generated n =>
    rcases Option.map_eq_some_iff.mp h with ⟨w₁, hw₁, rfl⟩
    rcases ofBob_eq_some hw₁ with ⟨page, page', hpage, hf, rfl⟩
    exact .quiet _ page page' _ rfl hpage (BobPage.went_generated hf) rfl rfl
  | fetch n r limited =>
    rcases ofBobSending_eq_some h with ⟨page, page', q, σ', hpage, hf, hs, rfl⟩
    have hsends : Sends b r (.bob b (.fetch n r limited)) := ⟨n, limited, Or.inl rfl⟩
    unfold BobPage.fetch at hf
    split at hf
    case h_1 p ht =>
      split_ifs at hf
      all_goals
        rcases Prod.mk.inj (Option.some.inj hf) with ⟨rfl, rfl⟩
        exact .get _ n r page _ limited σ' hsends hpage rfl (lt_of_task ht) rfl hs
    case h_2 => cases hf
  | keyless n r limited =>
    rcases ofBobSending_eq_some h with ⟨page, page', q, σ', hpage, hf, hs, rfl⟩
    have hsends : Sends b r (.bob b (.keyless n r limited)) := ⟨n, limited, Or.inr (Or.inl rfl)⟩
    unfold BobPage.keyless at hf
    split at hf
    case h_1 ht =>
      rcases Prod.mk.inj (Option.some.inj hf) with ⟨rfl, rfl⟩
      exact .get _ n r page _ limited σ' hsends hpage rfl (lt_of_task ht) rfl hs
    case h_2 p ht =>
      rcases Prod.mk.inj (Option.some.inj hf) with ⟨rfl, rfl⟩
      exact .get _ n r page _ limited σ' hsends hpage rfl (lt_of_task ht) rfl hs
    case h_3 => cases hf
  | post n r limited =>
    rcases ofBobSending_eq_some h with ⟨page, page', q, σ', hpage, hf, hs, rfl⟩
    have hsends : Sends b r (.bob b (.post n r limited)) := ⟨n, limited, Or.inr (Or.inr rfl)⟩
    unfold BobPage.post at hf
    split at hf
    case h_1 bobName answer p ht =>
      rcases Prod.mk.inj (Option.some.inj hf) with ⟨rfl, rfl⟩
      exact .verify _ n r page _ _ limited σ' hsends hpage rfl (lt_of_task ht) rfl hs
    case h_2 => cases hf
  | answered n => exact bobMoved_of_ofBob rfl (fun _ _ => BobPage.went_answered) h
  | read n => exact bobMoved_of_ofBob rfl (fun _ _ => BobPage.went_read) h
  | imported n => exact bobMoved_of_ofBob rfl (fun _ _ => BobPage.went_imported) h
  | derived n => exact bobMoved_of_ofBob rfl (fun _ _ => BobPage.went_derived) h
  | rejected n => exact bobMoved_of_ofBob rfl (fun _ _ => BobPage.went_rejected) h

/-- The other pages are left alone. -/
theorem bobs_of_next (h : World.next env e w = some w') (he : ∀ a, e ≠ .bob b a) :
    w'.bobs b = w.bobs b := by
  cases e with
  | server l =>
    rcases Option.map_eq_some_iff.mp h with ⟨σ', _, rfl⟩
    rfl
  | alice a => cases moved_of_next h <;> rfl
  | bob b' a =>
    have hb : b ≠ b' := by
      rintro rfl
      exact he a rfl
    cases bobMoved_of_next h with
    | quiet a page page' w' _ _ _ hbobs _ => rw [hbobs, setBob_bobs, if_neg hb]
    | init => rw [setBob_bobs, if_neg hb]
    | get => exact (setBob_bobs b' _ b).trans (if_neg hb)
    | verify => exact (setBob_bobs b' _ b).trans (if_neg hb)

theorem not_sends_of_ne (he : ∀ a, e ≠ .bob b a) (r' : ℕ) : ¬ Sends b r' e := by
  rintro ⟨n, limited, h | h | h⟩ <;> exact he _ h

/-- The page that sends a request waits for nothing else. -/
theorem tasks_of_sending {page page' : BobPage W} {σ : State} (hok : page.Ok σ)
    {task task' : BobTask W} (hn : n < page.tasks.length)
    (hset : page'.tasks = page.tasks.set n task') (ht : task ∈ page'.tasks) : task = task' := by
  rcases hok.waits with hnone | ⟨task₀, hone, _⟩
  · rw [hnone] at hn
    cases hn
  · rw [hone] at hn hset
    obtain rfl : n = 0 := by simpa using hn
    rw [hset] at ht
    simpa using ht

theorem asked_of_next (hok : w.Ok env) (ha : w.Asked ls) (h : World.next env e w = some w') :
    w'.Asked (ls ++ [e]) := by
  intro b page₁ hpage₁
  by_cases he : ∀ a, e ≠ .bob b a
  · rw [bobs_of_next h he] at hpage₁
    exact fun task ht => (ha b page₁ hpage₁ task ht).later (later_of_next h) (not_sends_of_ne he)
  · push Not at he
    rcases he with ⟨a, rfl⟩
    cases bobMoved_of_next h with
    | init sid _ =>
      rw [setBob_bobs, if_pos rfl] at hpage₁
      obtain rfl := Option.some.inj hpage₁
      intro task ht
      obtain rfl := List.mem_singleton.mp ht
      trivial
    | quiet a page page' w' hquiet hpage hwent hbobs hserver =>
      rw [hbobs, setBob_bobs, if_pos rfl] at hpage₁
      obtain rfl := Option.some.inj hpage₁
      rw [hserver]
      exact (ha b page hpage).went hwent (not_sends_of_quiet hquiet b)
    | get a n r page page' limited σ' hsends hpage hsid hn hset hs =>
      obtain rfl : page' = page₁ := by
        simpa [World.setBob] using hpage₁
      intro task ht
      rw [tasks_of_sending (hok.bobs b page hpage) hn hset ht, hsid]
      exact ⟨sentLast_self hsends, request?_of_arrival hs⟩
    | verify a n r page page' body limited σ' hsends hpage hsid hn hset hs =>
      obtain rfl : page' = page₁ := by
        simpa [World.setBob] using hpage₁
      intro task ht
      rw [tasks_of_sending (hok.bobs b page hpage) hn hset ht, hsid]
      exact ⟨sentLast_self hsends, body, request?_of_arrival hs⟩

theorem asked_of_run (h : (world env W).Run Lts.anyStep World.init ls w) : w.Asked ls := by
  induction ls using List.reverseRecOn generalizing w with
  | nil =>
    obtain rfl := Lts.run_nil_iff.mp h
    exact fun b page hb => by cases hb
  | append_singleton ls e ih =>
    rcases h.split with ⟨w₀, h₁, h₂⟩
    rcases Lts.run_cons_iff.mp h₂ with ⟨_, w', hs, hnil⟩
    obtain rfl := Lts.run_nil_iff.mp hnil
    exact asked_of_next (World.Ok.of_reach ⟨ls, h₁⟩) (ih h₁) hs

theorem getsPhaseless_of_run (h : (world env W).Run Lts.anyStep World.init ls w) :
    w.server.GetsPhaseless := by
  refine h.invariant (P := fun w => w.server.GetsPhaseless) (fun r sid handler hreq => by cases hreq) ?_
  intro e w w' _ hs hall
  rcases server_of_next hs with hsame | ⟨l, hstep, _⟩
  · rwa [hsame]
  · exact getsPhaseless_of_step hall hstep

end Doppelganger
