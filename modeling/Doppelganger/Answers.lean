import Doppelganger.TwoRuns

/-!
# Raw answers

The text of a memory answer, and that of an answer to the challenge, goes to the
embedding service and nowhere else: two runs that differ in such texts, and are
given the same embeddings, are in the same state up to the forms still held by
handlers. An embedding in turn shows in the response to its creator and in the
scores; GET requests and streams do not depend on it.
-/

open Text Redis

namespace Doppelganger

variable {env : Env} {ls ls' : List Label} {σ σ' : State}

/-! ## Texts -/

/-- A text that passes the two checks on answers. -/
def ValidAnswer (s : Str) : Prop := strip s ≠ [] ∧ len s ≤ 500

instance (s : Str) : Decidable (ValidAnswer s) := instDecidableAnd

/-- Labels that differ in the text of an answer at most. -/
inductive SameButAnswer : Label → Label → Prop
  | create (r : ℕ) (body : Json) (limited : Bool) (s s' : Str) :
      body.get? (lit "memory_answer") = some (.str s) → ValidAnswer s → ValidAnswer s' →
      SameButAnswer (.request r (.create body) limited)
        (.request r (.create (body.set (lit "memory_answer") (.str s'))) limited)
  | verify (r : ℕ) (sid : Str) (body : Json) (limited : Bool) (s s' : Str) :
      body.get? (lit "answer") = some (.str s) → ValidAnswer s → ValidAnswer s' →
      SameButAnswer (.request r (.verify sid body) limited)
        (.request r (.verify sid (body.set (lit "answer") (.str s'))) limited)
  | same (l : Label) : SameButAnswer l l

section Texts

variable {body : Json} {name s s' : Str}

theorem isObj_of_get? {v : Json} (h : body.get? name = some v) : body.isObj = true := by
  cases body <;> first | rfl | cases h

theorem isBlankMember_set_ne {name' : Str} (h : name' ≠ name) (v : Json) :
    isBlankMember (body.set name v) name' = isBlankMember body name' := by
  simp only [isBlankMember, getOrEmpty, Json.isObj_set, Json.get?_set_ne h]

theorem isLongMember_set_ne {name' : Str} (h : name' ≠ name) (v : Json) :
    isLongMember (body.set name v) name' = isLongMember body name' := by
  simp only [isLongMember, getOrEmpty, Json.isObj_set, Json.get?_set_ne h]

theorem validateJwk_set_ne {name' : Str} (h : name' ≠ name) (v : Json) (m₁ m₂ : Str) :
    validateJwk (body.set name v) name' m₁ m₂ = validateJwk body name' m₁ m₂ := by
  simp only [validateJwk, Json.get?_set_ne h]

theorem stringMember_set_ne {name' : Str} (h : name' ≠ name) (v : Json) :
    stringMember (body.set name v) name' = stringMember body name' := by
  simp only [stringMember, Json.get?_set_ne h]

/-- Both checks pass, on either text. -/
theorem checks_of_valid (hget : body.get? name = some (.str s)) (hs : ValidAnswer s) :
    isBlankMember body name = .ok false ∧ isLongMember body name = .ok false := by
  have hobj := isObj_of_get? hget
  have hstr : stringMember body name = some s := by simp [stringMember, hget]
  constructor
  · rw [isBlankMember_of_string hobj hstr]
    simpa using hs.1
  · rw [isLongMember_of_string hobj hstr]
    simpa using hs.2

theorem get?_set_text (hget : body.get? name = some (.str s)) (s' : Str) :
    (body.set name (.str s')).get? name = some (.str s') :=
  Json.get?_set_self (isObj_of_get? hget) _ _

theorem truthy_set (hget : body.get? name = some (.str s)) (s' : Str) :
    (body.set name (.str s')).truthy = body.truthy := by
  rw [truthy_of_get? hget, truthy_of_get? (get?_set_text hget s')]

/-- The validator says the same of both texts. -/
theorem validateSessionCreate_set_answer (hget : body.get? (lit "memory_answer") = some (.str s))
    (hs : ValidAnswer s) (hs' : ValidAnswer s') :
    validateSessionCreate (body.set (lit "memory_answer") (.str s')) =
      validateSessionCreate body := by
  rcases checks_of_valid hget hs with ⟨hblank, hlong⟩
  rcases checks_of_valid (get?_set_text hget s') hs' with ⟨hblank', hlong'⟩
  unfold validateSessionCreate
  rw [truthy_set hget, isBlankMember_set_ne (by decide), isBlankMember_set_ne (by decide),
    isLongMember_set_ne (by decide), validateJwk_set_ne (by decide), hblank, hblank', hlong, hlong']

theorem validateVerify_set_answer (hget : body.get? (lit "answer") = some (.str s))
    (hs : ValidAnswer s) (hs' : ValidAnswer s') :
    validateVerify (body.set (lit "answer") (.str s')) = validateVerify body := by
  rcases checks_of_valid hget hs with ⟨hblank, hlong⟩
  rcases checks_of_valid (get?_set_text hget s') hs' with ⟨hblank', hlong'⟩
  unfold validateVerify
  rw [truthy_set hget, isBlankMember_set_ne (by decide), validateJwk_set_ne (by decide), hblank,
    hblank', hlong, hlong']

theorem createForm_set_answer (hget : body.get? (lit "memory_answer") = some (.str s)) (s' : Str) :
    createForm (body.set (lit "memory_answer") (.str s')) =
      (createForm body).map fun form => { form with memoryAnswer := s' } := by
  have hstr : stringMember body (lit "memory_answer") = some s := by simp [stringMember, hget]
  have hstr' : stringMember (body.set (lit "memory_answer") (.str s')) (lit "memory_answer") =
      some s' := by simp [stringMember, get?_set_text hget s']
  unfold createForm
  rw [stringMember_set_ne (by decide), stringMember_set_ne (by decide),
    Json.get?_set_ne (by decide), hstr, hstr']
  cases stringMember body (lit "alice_name") <;>
    cases stringMember body (lit "memory_question") <;>
    cases body.get? (lit "alice_pubkey_jwk") <;> rfl

theorem verifyForm_set_answer (hget : body.get? (lit "answer") = some (.str s)) (s' : Str) :
    verifyForm (body.set (lit "answer") (.str s')) =
      (verifyForm body).map fun form => { form with answer := s' } := by
  have hstr : stringMember body (lit "answer") = some s := by simp [stringMember, hget]
  have hstr' : stringMember (body.set (lit "answer") (.str s')) (lit "answer") = some s' := by
    simp [stringMember, get?_set_text hget s']
  unfold verifyForm
  rw [stringMember_set_ne (by decide), Json.get?_set_ne (by decide), hstr, hstr']
  cases stringMember body (lit "bob_name") <;>
    cases body.get? (lit "bob_pubkey_jwk") <;> rfl

end Texts

/-! ## The same state -/

/-- No key and no embedding differs. -/
def textTwin : Twin where
  postedKey _ k := k
  postedVector _ v := v
  storedKey _ k := k
  storedVector _ v := v

theorem textTwin_labels {l l' : Label} (h : SameButAnswer l l') : textTwin.Labels env l l' := by
  cases h with
  | create r body limited s s' hget hs hs' =>
    refine .request _ _ _ _ (.create _ _ ?_)
    simp only [Handler.start, validateSessionCreate_set_answer hget hs hs',
      createForm_set_answer hget]
    -- refused alike, or accepted with the same form up to the text
    cases validateSessionCreate body with
    | error e => exact .replying _ _ (.same _ _)
    | ok msg =>
      cases msg with
      | some msg => exact .replying _ _ (.same _ _)
      | none =>
        cases createForm body with
        | none => exact .replying _ _ (.same _ _)
        | some form => exact .embedding _ _ ⟨rfl, rfl, rfl⟩
  | verify r sid body limited s s' hget hs hs' =>
    refine .request _ _ _ _ (.verify _ _ _ ?_)
    simp only [Handler.start, validateVerify_set_answer hget hs hs', verifyForm_set_answer hget]
    cases validateVerify body with
    | error e => exact .replying _ _ (.same _ _)
    | ok msg =>
      cases msg with
      | some msg => exact .replying _ _ (.same _ _)
      | none =>
        cases verifyForm body with
        | none => exact .replying _ _ (.same _ _)
        | some form => exact .loading _ _ _ ⟨rfl, rfl⟩
  | same =>
    cases l with
    | request r q limited =>
      exact .request _ _ _ _ (.same _ (Twin.Handlers.start_self (fun _ => rfl) q))
    | embed r result =>
      cases result with
      | some v => exact .embed r v
      | none => exact .same _ (by simp) (by simp)
    | _ => exact .same _ (by simp) (by simp)

theorem textTwin_allows (l : Label) (σ : State) : textTwin.Allows env l σ := by
  cases l with
  | name r sid => exact ⟨rfl, rfl⟩
  | embed r result =>
    cases result with
    | some v => exact fun _ _ _ _ _ => ⟨rfl, fun _ => rfl⟩
    | none => trivial
  | _ => trivial

theorem textTwin_store {db db' : Store} (h : textTwin.Stores db db') : db' = db := by
  have hentries : db'.db = db.db := by
    funext k
    have he := h.entries k
    generalize db.db k = o, db'.db k = o' at he ⊢
    cases he with
    | none => rfl
    | some sid session session' deadline _ hs =>
      have hfields : session' = session := by
        funext f
        rcases hs.embedding with ⟨v, hv, hv'⟩
        rcases hs.key with ⟨k, hk, hk'⟩
        cases f with
        | answerEmbedding => exact hv'.trans hv.symm
        | alicePubkeyJwk => exact hk'.trans hk.symm
        | _ => exact hs.same _ (by decide) (by decide)
      rw [hfields]
  calc db' = ⟨db'.now, db'.db⟩ := rfl
    _ = ⟨db.now, db.db⟩ := by rw [h.now, hentries]
    _ = db := rfl

theorem textTwin_answer (h : textTwin.States env σ σ') (r : ℕ) : σ'.answer? r = σ.answer? r := by
  cases hreq : σ.reqs r with
  | none => simp [State.answer?, hreq, h.req_none hreq]
  | some req =>
    rcases req with ⟨q, old⟩
    rcases h.req hreq with ⟨q', old', hreq', hh⟩
    cases hh with
    | done result result' hres => cases hres <;> simp [State.answer?, hreq, hreq', textTwin]
    | _ => simp [State.answer?, hreq, hreq', Handler.sent?]

/-! ## Another embedding -/

/-- Request `r` is given the embedding `v'` where it was given `v`. -/
def Label.embedInstead (r : ℕ) (v v' : Json) (l : Label) : Label :=
  if l = .embed r (some v) then .embed r (some v') else l

/-- Session `s`, created by request `r`, holds `v'` in the place of `v`. -/
def vectorTwin (r : ℕ) (s : Str) (v v' : Json) : Twin where
  postedKey _ k := k
  postedVector r' x := if r' = r ∧ x = v then v' else x
  storedKey _ k := k
  storedVector s' x := if s' = s ∧ x = v then v' else x

theorem vectorTwin_labels (r : ℕ) (s : Str) (v v' : Json) (l : Label) :
    (vectorTwin r s v v').Labels env l (Label.embedInstead r v v' l) := by
  cases l with
  | request r' q limited =>
    have hne : Label.request r' q limited ≠ .embed r (some v) := by simp
    rw [Label.embedInstead, if_neg hne]
    exact .request _ _ _ _ (.same _ (Twin.Handlers.start_self (fun _ => rfl) q))
  | embed r' result =>
    cases result with
    | none =>
      have hne : Label.embed r' none ≠ .embed r (some v) := by simp
      rw [Label.embedInstead, if_neg hne]
      exact .same _ (by simp) (by simp)
    | some x =>
      have hl : Label.embedInstead r v v' (.embed r' (some x)) =
          .embed r' (some ((vectorTwin r s v v').postedVector r' x)) := by
        by_cases hx : r' = r ∧ x = v
        · rcases hx with ⟨rfl, rfl⟩
          simp [Label.embedInstead, vectorTwin]
        · simp [Label.embedInstead, vectorTwin, hx]
      rw [hl]
      exact .embed r' x
  | _ => exact .same _ (by simp) (by simp)

/-- The other embedding is stored for session `s` and for no other, and scores the answers to it
alike. -/
theorem vectorTwin_allows (hrun : (server env).Run Lts.anyStep (server env).init ls σ) {r : ℕ}
    {s : Str} {v v' : Json} (hname : .name r s ∈ ls)
    (hscore : ∀ r' body limited b, .request r' (.verify s body) limited ∈ ls →
      .embed r' (some b) ∈ ls → env.cosineSimilarity v' b = env.cosineSimilarity v b)
    {ls₁ ls₂ : List Label} (hls : ls = ls₁ ++ ls₂) {σ₁ : State}
    (hrun₁ : (server env).Run Lts.anyStep (server env).init ls₁ σ₁) :
    (server env).Run ((vectorTwin r s v v').Allows env) (server env).init ls₁ σ₁ := by
  subst hls
  refine hrun₁.strengthen ?_
  rintro ls₀ l ls₃ τ rfl hrun₀
  have hl : l ∈ ls₀ ++ l :: ls₃ ++ ls₂ := by simp
  cases l with
  | name r' s' =>
    have hiff := named_once hrun hl hname
    refine ⟨rfl, ?_⟩
    funext x
    simp only [vectorTwin, hiff]
  | embed r' result =>
    cases result with
    | none => trivial
    | some b =>
      intro q sid form session hreq
      have hi := Inv.of_run hrun₀
      rcases hi.handlers r' _ hreq with ⟨⟨body, rfl, _⟩, _⟩
      -- the request is a verify request on `sid`, so it is not the creator
      have hreq₀ : τ.request? r' = some (.verify sid body) := by simp [State.request?, hreq]
      obtain ⟨limited, hmem⟩ : ∃ limited, Label.request r' (.verify sid body) limited ∈ ls₀ := by
        rcases requested_of_run hrun₀ hreq₀ with hinit | hmem
        · cases hinit
        · exact hmem
      have hmem' : Label.request r' (.verify sid body) limited ∈ ls₀ ++ Label.embed r' (some b) ::
          ls₃ ++ ls₂ := by simp [hmem]
      have hne : r' ≠ r := by
        rintro rfl
        rcases accepted_of_name hrun hname with ⟨body', form', hcreate, _⟩
        rw [request_of_mem hrun hmem'] at hcreate
        cases hcreate
      refine ⟨if_neg fun hx => hne hx.1, fun alice => ?_⟩
      by_cases hx : sid = s ∧ alice = v
      · rcases hx with ⟨rfl, rfl⟩
        simpa [vectorTwin] using hscore r' body limited b hmem' hl
      · simp [vectorTwin, hx]
  | _ => trivial

theorem vectorTwin_answer {r : ℕ} {s : Str} {v v' : Json}
    (h : (vectorTwin r s v v').States env σ σ') {r' : ℕ} {q : Request}
    (hq : σ.request? r' = some q) (hne : ∀ body, q ≠ .create body) :
    σ'.answer? r' = σ.answer? r' := by
  rcases (State.request?_eq_some _).mp hq with ⟨old, hreq⟩
  rcases h.req hreq with ⟨q', old', hreq', hh⟩
  cases hh with
  | done result result' hres =>
    cases hres with
    | created body sid x => exact absurd rfl (hne body)
    | _ => simp [State.answer?, hreq, hreq', vectorTwin]
  | _ => simp [State.answer?, hreq, hreq', Handler.sent?]

/-! ## Both together -/

/-- Two runs that differ in valid texts of answers only end with the same store, the same messages
published, the same streams and the same responses. And had the creator of session `s` been given
another embedding that scores every answer to `s` alike, then in every state of the run all streams,
all messages and all responses but those of create requests would be the same. -/
theorem answers_stay_inside (hrun : (server env).Run Lts.anyStep (server env).init ls σ) :
    (∀ ls', List.Forall₂ SameButAnswer ls ls' →
      ∃ σ', (server env).Run Lts.anyStep (server env).init ls' σ' ∧ σ'.store = σ.store ∧
        σ'.published = σ.published ∧ σ'.streams = σ.streams ∧
        ∀ r, σ'.answer? r = σ.answer? r) ∧
    (∀ r s v v', .name r s ∈ ls →
      (∀ r' body limited b, .request r' (.verify s body) limited ∈ ls → .embed r' (some b) ∈ ls →
        env.cosineSimilarity v' b = env.cosineSimilarity v b) →
      ∀ ls₁ ls₂ σ₁, ls = ls₁ ++ ls₂ → (server env).Run Lts.anyStep (server env).init ls₁ σ₁ →
        ∃ σ₁', (server env).Run Lts.anyStep (server env).init
            (ls₁.map (Label.embedInstead r v v')) σ₁' ∧
          σ₁'.streams = σ₁.streams ∧ σ₁'.published = σ₁.published ∧
          ∀ r' q, σ₁.request? r' = some q → (∀ body, q ≠ .create body) →
            σ₁'.answer? r' = σ₁.answer? r') := by
  constructor
  · intro ls' hls
    have hallows : (server env).Run (textTwin.Allows env) (server env).init ls σ :=
      hrun.mono fun l s _ => textTwin_allows l s
    obtain ⟨σ', hrun', hstates⟩ :=
      Twin.run_of_run hallows (hls.imp fun _ _ => textTwin_labels)
    exact ⟨σ', hrun', textTwin_store hstates.store, hstates.published, hstates.streams,
      textTwin_answer hstates⟩
  · intro r s v v' hname hscore ls₁ ls₂ σ₁ hls hrun₁
    have hlabels : List.Forall₂ ((vectorTwin r s v v').Labels env) ls₁
        (ls₁.map (Label.embedInstead r v v')) :=
      List.forall₂_map_right_iff.mpr (List.forall₂_same.mpr fun l _ => vectorTwin_labels r s v v' l)
    obtain ⟨σ₁', hrun₁', hstates⟩ :=
      Twin.run_of_run (vectorTwin_allows hrun hname hscore hls hrun₁) hlabels
    exact ⟨σ₁', hrun₁', hstates.streams, hstates.published,
      fun r' q hq hne => vectorTwin_answer hstates hq hne⟩

/-- It applies to a session that was answered: another memory answer with the same embedding leaves
the same store. -/
theorem answers_stay_inside_sample :
    let body := (Sample.createBody (Sample.jwk (lit "alice"))).set (lit "memory_answer")
      (.str (lit "Lisboa"))
    ∃ σ', (server Sample.config).Run Lts.anyStep (server Sample.config).init
        (.request 0 (.create body) false :: Sample.won.tail) σ' ∧
      σ'.store = ((server Sample.config).after Sample.won).store := by
  intro body
  have hrun := Lts.run_after (server Sample.config) Sample.won (by decide +kernel)
  have hfirst : SameButAnswer
      (.request 0 (.create (Sample.createBody (Sample.jwk (lit "alice")))) false)
      (.request 0 (.create body) false) :=
    .create 0 _ false (lit "Porto") (lit "Lisboa") (by decide) (by decide) (by decide)
  have hls : List.Forall₂ SameButAnswer Sample.won
      (.request 0 (.create body) false :: Sample.won.tail) :=
    .cons hfirst (List.forall₂_same.mpr fun l _ => .same l)
  rcases (answers_stay_inside hrun).1 _ hls with ⟨σ', hrun', hstore, _⟩
  exact ⟨σ', hrun', hstore⟩

end Doppelganger
