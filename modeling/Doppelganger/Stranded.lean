import Doppelganger.SameKey

/-!
# Alice's page on `step-waiting`

`step-waiting` has no button. What takes the page away from it is an event of the stream, so while
nothing else is running the page depends on its event source: one that is open, or that will
reconnect. `Attended` is the invariant, and two things break it: an answer other than 200 closes the
source for good, and what the handler of a VERIFIED waits for can be rejected after it has closed
the source itself. Nothing catches either.
-/

open Text

namespace Doppelganger

variable {env : Env} {W : Crypto} {w w' : World W}

/-! ## The preview can be shown -/

theorem isNumber_of_round6 {v x : Json} (h : round6 env v = .ok x) : x.isNumber = true := by
  cases v with
  | int n =>
    obtain rfl := Except.ok.inj h
    rfl
  | bool b =>
    obtain rfl := Except.ok.inj h
    rfl
  | float y =>
    obtain rfl := Except.ok.inj h
    rfl
  | _ => cases h

theorem isNumber_of_mapM_round6 {vs xs : List Json} (h : vs.mapM (round6 env) = .ok xs) :
    ∀ x ∈ xs, x.isNumber = true := by
  induction vs generalizing xs with
  | nil =>
    obtain rfl := Except.ok.inj h
    simp
  | cons v vs ih =>
    rw [List.mapM_cons] at h
    cases hv : round6 env v with
    | error e => simp [hv, bind, Except.bind] at h
    | ok y =>
      cases hvs : vs.mapM (round6 env) with
      | error e => simp [hv, hvs, bind, Except.bind] at h
      | ok ys =>
        simp only [hv, hvs, bind, Except.bind, pure, Except.pure, Except.ok.injEq] at h
        subst h
        exact List.forall_mem_cons.mpr ⟨isNumber_of_round6 hv, ih hvs⟩

theorem isNumber_of_vectorPreview {v : Json} {xs : List Json} (h : vectorPreview env v = .ok xs) :
    ∀ x ∈ xs, x.isNumber = true := by
  cases v with
  | arr ys => exact isNumber_of_mapM_round6 h
  | str s =>
    simp only [vectorPreview] at h
    split_ifs at h
    obtain rfl := Except.ok.inj h
    simp
  | _ => cases h

/-- The page can show the preview in the answer to a create request. -/
theorem embeddingReceived_createResponse (env : Env) (sid : Str) (v : Json) :
    (answerOf (createResponse env sid v)).isError ∨
      ProtocolLog.embeddingReceived (answerOf (createResponse env sid v)).body = true := by
  rcases createResponse_cases env sid v with ⟨e, herror, _⟩ | ⟨qr, preview, n, hp, hanswer⟩
  · exact Or.inl (herror ▸ handleError_isError e)
  · right
    have hget : (answerOf (createResponse env sid v)).body.get? (lit "vector_preview") =
        some (.arr preview) := by rw [hanswer]; rfl
    simp only [ProtocolLog.embeddingReceived, hget, List.all_eq_true]
    exact fun x hx => isNumber_of_vectorPreview hp x (List.mem_of_mem_take hx)

/-- An answered create request was refused, or has a preview that can be shown. -/
def Previewed (σ : State) : Prop :=
  ∀ r body handler response, σ.reqs r = some ⟨.create body, handler⟩ →
    handler.response? = some response →
    response.isError ∨ ProtocolLog.embeddingReceived response.body = true

theorem Previewed.of_step {l : Label} {σ σ' : State} (hi : Inv env σ) (hp : Previewed σ)
    (h : step env l σ = some σ') : Previewed σ' := by
  intro r body handler response hreq hresp
  rcases createResponse_of_step hi h hreq hresp with ⟨handler₀, hreq₀, hresp₀⟩ | herr |
    ⟨c, -, -, v, rfl⟩
  · exact hp r body handler₀ response hreq₀ hresp₀
  · exact Or.inl herr
  · exact embeddingReceived_createResponse env c.sid v

theorem previewed_of_next (hw : w.Ok env) (hp : Previewed w.server) {e : Event}
    (h : World.next env e w = some w') : Previewed w'.server := by
  rcases server_of_next h with hsame | ⟨l, hs, -⟩
  · rwa [hsame]
  · exact hp.of_step hw.server hs

/-! ## Stranded -/

/-- `create` or the handler of an event goes on with this task. -/
def AliceTask.runs : AliceTask W → Bool
  | .generating => false
  | .exporting _ => false
  | _ => true

/-- The handler of a VERIFIED goes on with this task. -/
def AliceTask.handles : AliceTask W → Bool
  | .importing _ _ => true
  | .derivingKey _ _ _ => true
  | _ => false

/-- The page shows `step-waiting`, neither `create` nor a handler is running, and no event source is
open or reconnecting. -/
def AlicePage.Stranded (page : AlicePage W) : Prop :=
  page.screen = .waiting ∧ (∀ task ∈ page.tasks, task.runs = false) ∧ page.sources = []

/-- On `step-waiting` the page waits for something. -/
def AlicePage.Attended (page : AlicePage W) : Prop :=
  page.screen = .waiting → page.tasks ≠ [] ∨ page.sources ≠ []

/-- Keys are not generated on `step-waiting`, so an attended page is not stranded. -/
theorem World.Ok.stranded_iff (hw : w.Ok env) : w.alice.Stranded ↔ ¬ w.alice.Attended := by
  rcases hw.alice with ⟨act, hawaits, hact⟩
  constructor
  · rintro ⟨hscreen, hruns, hsources⟩ hattended
    rcases hattended hscreen with htasks | hopen
    · cases act with
      | idle => exact htasks hawaits.1
      | source es => exact htasks hawaits.1
      | task task =>
        have hrun := hruns task (by rw [hawaits.1]; exact List.mem_singleton.mpr rfl)
        cases task with
        | generating => simp [World.ActivityOk, World.TaskOk, World.Preparing, hscreen] at hact
        | exporting p => simp [World.ActivityOk, World.TaskOk, World.Preparing, hscreen] at hact
        | _ => cases hrun
    · exact hopen hsources
  · intro h
    simp only [AlicePage.Attended, not_forall, not_or, not_not] at h
    rcases h with ⟨hscreen, htasks, hsources⟩
    exact ⟨hscreen, by simp [htasks], hsources⟩

/-! ## What keeps the page attended -/

/-- No connection of the page is answered with a status other than 200, and neither `importPublicKey`
nor `deriveSharedKey` is rejected in the handler of a VERIFIED. -/
def Undisturbed : Lts.Guard (World W) Event := fun e w =>
  (∀ n, e ≠ .alice (.refused n)) ∧
  ∀ n task, e = .alice (.rejected n) → w.alice.tasks[n]? = some task → task.handles = false

theorem set_ne_nil {α : Type*} {l : List α} {n : ℕ} {a b : α} (h : l[n]? = some a) :
    l.set n b ≠ [] := by
  cases l with
  | nil => simp at h
  | cons c l => cases n <;> simp

namespace World.Ok

/-- A VERIFIED that the log can show carries a key whose `x` can be sliced. -/
theorem sliceable_of_verified (hw : w.Ok env) {i : ℕ} {st : Stream} {data : Str} {event : Json}
    (hst : w.server.streams i = some st) (hout : .message data ∈ st.out)
    (hload : Json.loads data = some event) (hlog : ProtocolLog.sseEvent event = true)
    (hverified : event.get? (lit "event") = some (.str verified)) :
    ∃ jwk, event.get? (lit "bob_pubkey_jwk") = some jwk ∧
      Json.sliceable (jwk.get? (lit "x")) = true := by
  obtain ⟨k, hk, -, -, hdata⟩ := winner_of_emitted hw.flow hst
    ⟨data, hout, hload, hverified⟩ (Or.inl rfl)
  have hjwk := (hdata rfl).2
  rcases hw.server.committer k hk with ⟨body, handler, c, response, -, haccepts, -⟩
  have htruthy := Json.jsTruthy_of_isObj haccepts.valid.bobPubkeyJwk.1
  refine ⟨_, hjwk, ?_⟩
  simp only [ProtocolLog.sseEvent, hjwk, htruthy, Bool.not_true, Bool.false_or,
    Bool.and_eq_true] at hlog
  exact hlog.2

/-- Whatever the stream says, the page has something to wait for or leaves `step-waiting`. -/
theorem attended_onmessage (hw : w.Ok env) {page : AlicePage W} {n i : ℕ} {st : Stream}
    {sid data : Str} (hopen : page.sources ≠ []) (hst : w.server.streams i = some st)
    (hout : .message data ∈ st.out) : (page.onmessage n sid data).Attended := by
  have hevent : ∀ page : AlicePage W, page.sources ≠ [] → ∀ event,
      Json.parse data = some event → (page.onevent n sid event).Attended := by
    intro page hopen event hparse
    have hload : Json.loads data = some event := (Option.filter_eq_some_iff.mp hparse).1
    unfold AlicePage.onevent
    cases hlog : ProtocolLog.sseEvent event with
    | false => exact fun _ => Or.inr hopen
    | true =>
      simp only [Bool.not_true, Bool.false_eq_true, if_false]
      split_ifs with hverified hfailed hexpired
      -- the source is closed, and the import is under way
      · rcases hw.sliceable_of_verified hst hout hload hlog hverified with ⟨jwk, hjwk, hslice⟩
        simp only [hjwk, hslice, if_true]
        exact fun _ => Or.inl (by simp)
      · intro hscreen
        cases hscreen
      · intro hscreen
        cases hscreen
      -- any other event leaves the source as it is
      · exact fun _ => Or.inr hopen
  rcases page.onmessage_cases n sid data with ⟨ended, hpage | ⟨event, hparse, hpage⟩⟩
  · exact fun _ => Or.inr (by rwa [hpage])
  · rw [hpage]
    exact hevent { page with ended := ended } hopen event hparse

/-- The end of `create`: it stays on its screen, or listens. -/
theorem attended_created (hw : w.Ok env) (hp : Previewed w.server) {r p : ℕ} {response : Response}
    (hmem : (r, p) ∈ w.alice.posted) (hans : w.server.answer? r = some response)
    {page : AlicePage W} (hscreen : page.screen = .create) :
    (page.created response).Attended := by
  have hretry : page.enable.Attended := by
    intro hwaiting
    have heq : page.screen = .waiting := hwaiting
    rw [hscreen] at heq
    cases heq
  rcases hw.posted r p hmem with ⟨_, body, hreq, _⟩
  rcases (State.request?_eq_some _).mp hreq with ⟨handler, hreq⟩
  rcases (State.answer?_eq_some _).mp hans with ⟨q, hdone⟩
  -- the request that the page posted is the one that was answered
  rcases Req.mk.inj (Option.some.inj (hreq.symm.trans hdone)) with ⟨rfl, rfl⟩
  unfold AlicePage.created
  cases hok : response.ok with
  | false => exact hretry
  | true =>
    have hshown : ProtocolLog.embeddingReceived response.body = true := by
      rcases hp r body _ response hreq rfl with herr | hshown
      · simp only [Response.isError] at herr
        simp only [Response.ok, Bool.and_eq_true, decide_eq_true_eq] at hok
        omega
      · exact hshown
    simp only [Bool.not_true, Bool.false_eq_true, if_false]
    split
    · exact hretry
    · next data hjson =>
      obtain rfl := Response.body_of_json hjson
      split
      · simp only [hshown, if_true]
        -- `connectAliceSSE` has added a source
        exact fun _ => Or.inr (by simp [AlicePage.connectAliceSSE])
      · exact hretry

/-- No step of an undisturbed run leaves the page on `step-waiting` with nothing to wait for. -/
theorem attended_of_aliceStep (hw : w.Ok env) (hp : Previewed w.server)
    (hpage : w.alice.Attended) {a : AliceAct} (hok : Undisturbed (.alice a) w)
    (h : w.aliceStep env a = some w') : w'.alice.Attended := by
  rcases hw.alice with ⟨act, hawaits, hact⟩
  -- on the other screens there is nothing to show
  have hleft : ∀ {page : AlicePage W}, page.screen ≠ .waiting → page.Attended :=
    fun hne hscreen => absurd hscreen hne
  have hprep : w.Preparing → w.alice.screen ≠ .waiting := by
    rintro (hs | hs) <;> rw [hs] <;> decide
  cases moved_of_aliceStep h with
  | start _ => exact hleft (by simp)
  | unsent _ _ _ _ => exact hpage
  | create _ _ _ p _ _ _ => exact fun _ => Or.inl (by simp)
  | again _ => exact hleft (by simp)
  | generated n ht => exact fun _ => Or.inl (set_ne_nil ht)
  | exported n p disabled ht =>
    rcases hawaits.of_task ht with ⟨rfl, rfl⟩
    exact hleft (hprep hact.2.1)
  | post n r limited _ _ _ p σ' ht hs => exact fun _ => Or.inl (set_ne_nil ht)
  | answered n r response ht hans => exact fun _ => Or.inl (set_ne_nil ht)
  | read n response ht =>
    rcases hawaits.of_task ht with ⟨rfl, rfl⟩
    rcases hact with ⟨_, hscreen, p, r, _, hmem, hans⟩
    exact hw.attended_created hp hmem hans hscreen
  | imported n p sid jwk key ht _ _ => exact fun _ => Or.inl (set_ne_nil ht)
  | keyless n sid jwk ht hnone => exact absurd hnone (hw.keyPair_of_importing ht)
  | derived n p sid key ht => exact hleft (by simp)
  | caught n task ht hcreates =>
    -- `create` does not wait for anything on `step-waiting`
    rcases hawaits.of_task ht with ⟨rfl, rfl⟩
    have hcreate : w.alice.screen = .create → w.alice.screen ≠ .waiting := by
      intro hs
      rw [hs]
      decide
    cases task with
    | creating aliceName memoryQuestion memoryAnswer p => exact hleft (hcreate hact.2.1)
    | posting r => exact hleft (hcreate hact.2.1)
    | reading response => exact hleft (hcreate hact.2.1)
    | _ => cases hcreates
  | rejected n task ht hcreates =>
    have hhandles := hok.2 n task rfl ht
    rcases hawaits.of_task ht with ⟨rfl, rfl⟩
    cases task with
    | generating => exact hleft (hprep hact.2)
    | exporting p => exact hleft (hprep hact.2.1)
    | importing sid jwk => cases hhandles
    | derivingKey sid p key => cases hhandles
    | _ => cases hcreates
  | connected n i k sid σ' hsrc hs => exact fun _ => Or.inr (set_ne_nil hsrc)
  | skipped n i k sid hsrc => exact fun _ => Or.inr (set_ne_nil hsrc)
  | received n i k sid data hsrc hdata =>
    rcases hawaits.of_source hsrc with ⟨rfl, rfl⟩
    rcases hact.2.2.2 i k rfl with ⟨st, hst, _⟩
    simp only [hst, Option.bind_some] at hdata
    exact hw.attended_onmessage (set_ne_nil hsrc) hst (List.mem_of_getElem? hdata)
  | dropped n i k sid hsrc => exact fun _ => Or.inr (set_ne_nil hsrc)
  | refused n i k sid status hsrc hpc => exact absurd rfl (hok.1 n)

theorem attended_of_next (hw : w.Ok env) (hp : Previewed w.server) (hpage : w.alice.Attended)
    {e : Event} (hok : Undisturbed e w) (h : World.next env e w = some w') : w'.alice.Attended := by
  rcases alice_of_next h with hsame | ⟨a, rfl, hstep⟩
  · rwa [hsame]
  · exact hw.attended_of_aliceStep hp hpage hok hstep

/-- What disturbs the page strands it. -/
theorem stranded_of_disturbed (hw : w.Ok env) {e : Event} (hnot : ¬ Undisturbed e w)
    (h : World.next env e w = some w') : w'.alice.Stranded := by
  rcases hw.alice with ⟨act, hawaits, hact⟩
  simp only [Undisturbed, not_and_or, not_forall, not_not, Bool.not_eq_false] at hnot
  rcases hnot with ⟨n, rfl⟩ | ⟨n, task, rfl, ht, hhandles⟩
  · cases moved_of_next h with
    | refused n i k sid status hsrc hpc =>
      -- the source was all that the page waited for
      rcases hawaits.of_source hsrc with ⟨rfl, rfl⟩
      have hidle : (w.alice.close 0).Awaits .idle := hawaits.close rfl rfl
      exact ⟨hact.2.1, fun task htask => by simp [hidle.1] at htask, hidle.2⟩
  · have hscreen : w.alice.screen = .waiting := by
      rcases hawaits.of_task ht with ⟨rfl, rfl⟩
      cases task with
      | importing sid jwk => exact hact.2.1
      | derivingKey sid p key => exact hact.2.1
      | _ => cases hhandles
    cases moved_of_next h with
    | caught n task' ht' hcreates =>
      obtain rfl := Option.some.inj (ht.symm.trans ht')
      cases task with
      | importing sid jwk => cases hcreates
      | derivingKey sid p key => cases hcreates
      | _ => cases hhandles
    | rejected n task' ht' =>
      -- the handler had closed the source before
      rcases hawaits.of_task ht' with ⟨rfl, rfl⟩
      have hidle : (w.alice.finish 0).Awaits .idle := hawaits.finish rfl rfl
      exact ⟨hscreen, fun task htask => by simp [hidle.1] at htask, hidle.2⟩

end World.Ok

/-! ## Whole runs -/

/-- What is carried along a run. -/
structure World.Kept (env : Env) (w : World W) : Prop where
  ok : w.Ok env
  previewed : Previewed w.server
  attended : w.alice.Attended

theorem World.Kept.init : (World.init : World W).Kept env where
  ok := World.Ok.init
  previewed := by simp [Previewed, World.init, State.init]
  attended := by
    intro hscreen
    cases hscreen

theorem World.Kept.of_run {es : List Event}
    (h : (world env W).Run Undisturbed World.init es w) : w.Kept env := by
  refine h.invariant (P := fun w => w.Kept env) World.Kept.init ?_
  intro e w w' hok hs hw
  exact ⟨hw.ok.of_next hs, previewed_of_next hw.ok hw.previewed hs,
    hw.ok.attended_of_next hw.previewed hw.attended hok hs⟩

/-- In no state that the run `es` goes through is Alice stranded. -/
def NeverStranded (env : Env) (W : Crypto) (es : List Event) : Prop :=
  ∀ es₁ es₂ w, es = es₁ ++ es₂ → (world env W).Run Lts.anyStep World.init es₁ w →
    ¬ w.alice.Stranded

theorem neverStranded_iff {es : List Event} (h : (world env W).Run Lts.anyStep World.init es w) :
    NeverStranded env W es ↔ (world env W).Run Undisturbed World.init es w := by
  constructor
  · intro hnever
    refine h.strengthen ?_
    rintro es₁ e es₂ w₁ rfl hrun
    by_contra hnot
    -- after the first step that disturbs her she is stranded
    rcases h.split with ⟨w₂, hrun₂, hrest⟩
    obtain rfl := hrun.deterministic hrun₂
    rcases Lts.run_cons_iff.mp hrest with ⟨_, w₃, hs, _⟩
    have hok : w₁.Ok env := World.Ok.of_reach ⟨es₁, hrun⟩
    refine hnever (es₁ ++ [e]) es₂ w₃ (by simp) (hrun.append (Lts.Run.single trivial hs)) ?_
    exact hok.stranded_of_disturbed hnot hs
  · rintro hund es₁ es₂ w₁ rfl hrun
    rcases hund.split with ⟨w₂, hrun₂, _⟩
    obtain rfl := (hrun₂.mono fun _ _ _ => trivial).deterministic hrun
    have hkept := World.Kept.of_run hrun₂
    exact fun hstranded => hkept.ok.stranded_iff.mp hstranded hkept.attended

/-! ## When a connection is refused -/

/-- Whenever a connection of the page reads the phase, Redis answers and the hash is there; and the
handler of a VERIFIED gets its key. -/
def Served : Lts.Guard (World W) Event := fun e w =>
  (∀ es ∈ w.alice.sources, ∀ i k st fault, es.conn = some (i, k) →
    w.server.streams i = some st → st.pc = .checkingPhase → e = .server (.read i fault) →
    fault = .none ∧ SessionStore.getPhase w.server.store st.sid ≠ none) ∧
  ∀ n task, e = .alice (.rejected n) → w.alice.tasks[n]? = some task → task.handles = false

/-- No connection of the page has been refused. -/
def World.Accepted (w : World W) : Prop :=
  ∀ es ∈ w.alice.sources, ∀ i k st, es.conn = some (i, k) → w.server.streams i = some st →
    ∀ status, st.pc ≠ .refused status

/-- A stream is refused by its first read. -/
theorem refused_of_moved {σ : State} {i : ℕ} {st st' : Stream} {l : Label} {status : ℕ}
    (h : st.Moved σ i l st') (hpc : st'.pc = .refused status) :
    st.pc = .refused status ∨ ∃ fault, l = .read i fault ∧ st.pc = .checkingPhase ∧
      (fault = .none → SessionStore.getPhase σ.store st.sid = none) := by
  cases h with
  | read hread =>
    cases hread with
    -- the route answers 404: `get_phase` has found nothing
    | refused hcheck hphase => exact Or.inr ⟨_, rfl, hcheck, fun _ => hphase⟩
    | _ => cases hpc
  | failed hfault hfail =>
    cases hcheck : st.pc with
    -- the route answers 503
    | checkingPhase => exact Or.inr ⟨_, rfl, rfl, fun hnone => absurd hnone hfault⟩
    | checking =>
      simp only [Stream.fail, hcheck, Option.some.injEq] at hfail
      subst hfail
      cases hpc
    | polling deadline =>
      simp only [Stream.fail, hcheck, Option.some.injEq] at hfail
      subst hfail
      cases hpc
    | _ => simp [Stream.fail, hcheck] at hfail
  | advanced hadv => cases hadv <;> cases hpc
  | closed hclose =>
    rcases (Stream.close_cases hclose).2.2 with hclosed | hleaving
    · rw [hclosed] at hpc
      cases hpc
    · rw [hleaving] at hpc
      cases hpc
  | received _ _ => exact Or.inl hpc
  | still _ _ => exact Or.inl hpc

/-- The sources of `page'` are connected to streams that those of `page` were connected to. -/
def AlicePage.Connects (page page' : AlicePage W) : Prop :=
  ∀ es ∈ page'.sources, ∀ i k, es.conn = some (i, k) →
    ∃ es₀ ∈ page.sources, ∃ k₀, es₀.conn = some (i, k₀)

namespace AlicePage.Connects

variable {page page' page'' : AlicePage W}

theorem of_subset (h : page'.sources ⊆ page.sources) : page.Connects page' :=
  fun es hes _ k hconn => ⟨es, h hes, k, hconn⟩

theorem trans (h : page.Connects page') (h' : page'.Connects page'') : page.Connects page'' := by
  intro es hes i k hconn
  rcases h' es hes i k hconn with ⟨es', hes', k', hconn'⟩
  exact h es' hes' i k' hconn'

theorem of_set {n : ℕ} {es' : EventSource} (h : page'.sources = page.sources.set n es')
    (hconn : ∀ i k, es'.conn = some (i, k) →
      ∃ es₀ ∈ page.sources, ∃ k₀, es₀.conn = some (i, k₀)) : page.Connects page' := by
  intro es hes i k hc
  rw [h] at hes
  rcases List.mem_or_eq_of_mem_set hes with hes | rfl
  · exact ⟨es, hes, k, hc⟩
  · exact hconn i k hc

/-- A source goes on in the stream that it is connected to. -/
theorem advance {n i k : ℕ} {sid : Str} (hsrc : page.sources[n]? = some ⟨sid, some (i, k)⟩) :
    page.Connects { page with sources := page.sources.set n ⟨sid, some (i, k + 1)⟩ } := by
  refine .of_set rfl ?_
  rintro i' k' hconn
  rcases Prod.mk.inj (Option.some.inj hconn) with ⟨rfl, rfl⟩
  exact ⟨_, List.mem_of_getElem? hsrc, k, rfl⟩

theorem created (response : Response) : page.Connects (page.created response) := by
  have hretry : page.Connects page.enable := of_subset (List.Subset.refl _)
  unfold AlicePage.created
  split_ifs
  · exact hretry
  · split
    · exact hretry
    · split
      · split_ifs
        · -- the new source has no connection yet
          intro es hes i k hconn
          rcases List.mem_append.mp hes with hes | hes
          · exact ⟨es, hes, k, hconn⟩
          · obtain rfl := List.mem_singleton.mp hes
            cases hconn
        · exact of_subset (List.Subset.refl _)
      · exact hretry

theorem onmessage (n : ℕ) (sid data : Str) : page.Connects (page.onmessage n sid data) := by
  have hclose : ∀ page : AlicePage W, (page.sources.eraseIdx n) ⊆ page.sources :=
    fun page => (List.eraseIdx_sublist _ _).subset
  have hevent : ∀ (page : AlicePage W) event, page.Connects (page.onevent n sid event) := by
    intro page event
    unfold AlicePage.onevent
    split_ifs
    · exact of_subset (List.Subset.refl _)
    · split
      · split_ifs <;> exact of_subset (hclose page)
      · exact of_subset (hclose page)
    · exact of_subset (hclose page)
    · exact of_subset (hclose page)
    · exact of_subset (List.Subset.refl _)
  rcases page.onmessage_cases n sid data with ⟨ended, hpage | ⟨event, _, hpage⟩⟩
  · rw [hpage]
    exact of_subset (List.Subset.refl _)
  · rw [hpage]
    exact hevent { page with ended := ended } event

end AlicePage.Connects

/-- The page is connected to a new stream by the step that says so. -/
theorem connects_of_aliceStep {a : AliceAct} (h : w.aliceStep env a = some w') :
    w.alice.Connects w'.alice ∨ ∃ n i k, a = .connected n i k := by
  cases moved_of_aliceStep h with
  | connected n i k sid σ' hsrc hs => exact Or.inr ⟨n, i, k, rfl⟩
  | read n response ht =>
    have hfinish : w.alice.Connects (w.alice.finish n) := .of_subset (List.Subset.refl _)
    exact Or.inl (hfinish.trans (.created _))
  | skipped n i k sid hsrc => exact Or.inl (.advance hsrc)
  | received n i k sid data hsrc hdata =>
    exact Or.inl ((AlicePage.Connects.advance hsrc).trans (.onmessage _ _ _))
  | dropped n i k sid hsrc =>
    refine Or.inl (.of_set rfl ?_)
    rintro i' k' hconn
    cases hconn
  | refused n i k sid status hsrc hpc =>
    exact Or.inl (.of_subset (List.eraseIdx_sublist _ _).subset)
  | _ => exact Or.inl (.of_subset (List.Subset.refl _))

/-- A served step refuses no connection of the page. -/
theorem accepted_of_next (hw : w.Ok env) (hacc : w.Accepted) {e : Event} (hok : Served e w)
    (h : World.next env e w = some w') : w'.Accepted := by
  rcases hw.alice with ⟨act, hawaits, hact⟩
  -- the stream of a source stays what it was, or is refused by the step that reads for it
  have hkept : ∀ es ∈ w.alice.sources, ∀ i k st', es.conn = some (i, k) →
      w'.server.streams i = some st' → ∀ status, st'.pc ≠ .refused status := by
    intro es hes i k st' hconn hst' status hpc
    rcases List.mem_iff_getElem?.mp hes with ⟨n, hsrc⟩
    rcases hawaits.of_source hsrc with ⟨rfl, rfl⟩
    rcases hact.2.2.2 i k hconn with ⟨st, hst, -⟩
    rcases server_of_next h with hsame | ⟨l, hs, hl⟩
    · rw [hsame] at hst'
      exact hacc es hes i k st' hconn hst' status hpc
    rcases moved_of_step hs hst with ⟨st'', hst'', hmoved⟩
    obtain rfl := Option.some.inj (hst'.symm.trans hst'')
    rcases refused_of_moved hmoved hpc with hbefore | ⟨fault, rfl, hcheck, hphase⟩
    · exact hacc es hes i k st hconn hst status hbefore
    · rcases hl with rfl | ⟨_, _, _, hl⟩ | ⟨_, _, _, _, _, hl⟩
      · rcases hok.1 es hes i k st fault hconn hst hcheck rfl with ⟨rfl, hsome⟩
        exact hsome (hphase rfl)
      · cases hl
      · cases hl
  intro es' hes' i k st' hconn hst' status
  rcases alice_of_next h with hsame | ⟨a, rfl, hstep⟩
  · rw [hsame] at hes'
    exact hkept es' hes' i k st' hconn hst' status
  rcases connects_of_aliceStep hstep with hconnects | ⟨n, j, worker, rfl⟩
  · rcases hconnects es' hes' i k hconn with ⟨es, hes, k₀, hconn₀⟩
    exact hkept es hes i k₀ st' hconn₀ hst' status
  · -- the new stream has not read anything yet
    cases moved_of_aliceStep hstep with
    | connected _ _ _ sid σ' hsrc hs =>
      rcases List.mem_or_eq_of_mem_set hes' with hes | rfl
      · exact hkept es' hes i k st' hconn hst' status
      · rcases Prod.mk.inj (Option.some.inj hconn) with ⟨rfl, rfl⟩
        rcases step_stream hs with ⟨_, rfl⟩
        obtain rfl := Option.some.inj ((State.setStream_streams_self _ _ _).symm.trans hst')
        simp [Stream.new]

/-- A source that is connected to a stream that is not refused is not closed. -/
theorem undisturbed_of_served (hacc : w.Accepted) {e : Event} (hok : Served e w)
    (h : World.next env e w = some w') : Undisturbed e w := by
  refine ⟨?_, hok.2⟩
  rintro n rfl
  cases moved_of_next h with
  | refused n i k sid status hsrc hpc =>
    rcases Option.map_eq_some_iff.mp hpc with ⟨st, hst, hrefused⟩
    exact hacc _ (List.mem_of_getElem? hsrc) i k st rfl hst status hrefused

theorem undisturbed_of_served_run {es : List Event}
    (h : (world env W).Run Served World.init es w) :
    (world env W).Run Undisturbed World.init es w := by
  have hinv : ∀ {es w}, (world env W).Run Served World.init es w → w.Ok env ∧ w.Accepted := by
    intro es w hrun
    refine hrun.invariant (P := fun w => w.Ok env ∧ w.Accepted) ⟨World.Ok.init, ?_⟩ ?_
    · intro es hes
      simp [world, World.init, AlicePage.init] at hes
    · rintro e w w' hok hs ⟨hw, hacc⟩
      exact ⟨hw.of_next hs, accepted_of_next hw hacc hok hs⟩
  refine h.strengthen ?_
  rintro es₁ e es₂ w₁ rfl hrun
  rcases h.split with ⟨w₂, hrun₂, hrest⟩
  obtain rfl := hrun.deterministic hrun₂
  rcases Lts.run_cons_iff.mp hrest with ⟨hok, w₃, hs, _⟩
  exact undisturbed_of_served (hinv hrun).2 hok hs

/-- In a run of Alice's page with the server, any pages of Bob's and anyone else, she is never
stranded exactly when nothing disturbs the page: no connection is answered with a status other than
200, and the handler of a VERIFIED gets its key. No connection is, while each one finds its hash and
Redis answers. -/
theorem alice_not_stranded_iff {es : List Event}
    (h : (world env W).Run Lts.anyStep World.init es w) :
    (NeverStranded env W es ↔ (world env W).Run Undisturbed World.init es w) ∧
      ((world env W).Run Served World.init es w → NeverStranded env W es) :=
  ⟨neverStranded_iff h, fun hserved => (neverStranded_iff h).mpr (undisturbed_of_served_run hserved)⟩

namespace Sample

/-- Alice has created a session and is about to connect. -/
def waiting : List Event := session.take 11

/-- Her connection drops as soon as it is accepted, and after `d` milliseconds she reconnects. -/
def reconnected (d : ℕ) : List Event :=
  waiting ++ [.alice (.connected 0 0 0), .server (.read 0 .none), .alice (.dropped 0),
    .server (.tick d), .alice (.connected 0 1 0), .server (.read 1 .none)]

end Sample

/-- It applies to a page that reconnects in time. -/
theorem alice_not_stranded_sample :
    ((world Sample.config Sample.crypto).after (Sample.reconnected 1000)).alice.screen = .waiting ∧
      NeverStranded Sample.config Sample.crypto (Sample.reconnected 1000) := by
  have hrun := Lts.run_after (world Sample.config Sample.crypto) (Sample.reconnected 1000)
    (by decide +kernel)
  have hlabels : ∀ e ∈ Sample.reconnected 1000,
      (∀ n, e ≠ .alice (.refused n)) ∧ ∀ n, e ≠ .alice (.rejected n) := by
    simp [Sample.reconnected, Sample.waiting, Sample.session]
  refine ⟨by decide +kernel, (alice_not_stranded_iff hrun).1.mpr ((hrun.of_labels hlabels).mono ?_)⟩
  rintro e s ⟨-, hrefused, hrejected⟩
  exact ⟨hrefused, fun n _ he => absurd he (hrejected n)⟩

/-- She reconnects when the hash has expired: the source is closed for good, and the page stays on
`step-waiting`. -/
theorem alice_stranded_after_expiry :
    let es := Sample.reconnected 600000 ++ [.alice (.refused 0)]
    let w := (world Sample.config Sample.crypto).after es
    (world Sample.config Sample.crypto).Run Lts.anyStep World.init es w ∧ w.alice.Stranded ∧
      ¬ NeverStranded Sample.config Sample.crypto es := by
  intro es w
  have hrun : (world Sample.config Sample.crypto).Run Lts.anyStep World.init es w :=
    Lts.run_after _ es (by decide +kernel)
  have hscreen : w.alice.screen = .waiting := by decide +kernel
  have htasks : w.alice.tasks.length = 0 := by decide +kernel
  have hsources : w.alice.sources.length = 0 := by decide +kernel
  clear_value w
  have hstranded : w.alice.Stranded :=
    ⟨hscreen, by simp [List.length_eq_zero_iff.mp htasks], List.length_eq_zero_iff.mp hsources⟩
  exact ⟨hrun, hstranded, fun hnever => hnever es [] w (by simp) hrun hstranded⟩

end Doppelganger
