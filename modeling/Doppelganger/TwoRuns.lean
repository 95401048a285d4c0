import Doppelganger.History

/-!
# Two runs

Two runs on one schedule that differ in what is secret: the texts of the answers,
a posted key, the embedding of a memory answer. `Twin` says what the second run
has in the place of a key or an embedding of the first. Every part of the state
has its relation:

* `Forms`, `Said` — what the handlers read from a body; the texts are free;
* `Sessions` — hashes that differ in the two fields that hold a secret;
* `Results` — the two responses that carry something derived from a secret;
* `States` — everything else is the same in both states.

`Twin.step_of_step` is the step lemma and `Twin.run_of_run` the simulation. What
is claimed of a particular secret is read off `States` for its twin.
-/

open Text Redis

namespace Doppelganger

/-! ## Labels of a run -/

section Labels

variable {env : Env} {ok : Lts.Guard State Label} {ls : List Label} {σ σ' : State}

/-- Only a create request that was accepted draws a session id. -/
theorem accepted_of_name (h : (server env).Run ok (server env).init ls σ) {r : ℕ} {sid : Str}
    (hmem : .name r sid ∈ ls) :
    ∃ body form, σ.request? r = some (.create body) ∧ AcceptsCreate body form := by
  rcases List.append_of_mem hmem with ⟨ls₁, ls₂, rfl⟩
  rcases h.split with ⟨τ, hrun₁, hrun⟩
  rcases Lts.run_cons_iff.mp hrun with ⟨_, τ', hs, hrest⟩
  replace hs : step env (.name r sid) τ = some τ' := hs
  rcases step_name hs with ⟨⟨q, old⟩, handler, hreq, hname, _, rfl⟩
  rcases name_cases hname with ⟨form, v, rfl, _⟩
  rcases (Inv.of_run hrun₁).handlers r _ hreq with ⟨body, rfl, hform⟩
  refine ⟨body, form, (later_of_run hrest).request r _ ?_, hform⟩
  simp [State.request?]

/-- A handler that has drawn its session id, or never will. -/
def Handler.named : Handler → Bool
  | .embedding _ => false
  | .naming _ _ => false
  | _ => true

/-- No step takes a handler back to before its draw. -/
theorem named_handlerStep {db : Store} {l : Label} {r : ℕ} {hd hd' : Handler}
    (h : HandlerStep env r db l hd hd') (hnamed : hd.named = true) : hd'.named = true := by
  cases h with
  | embedded result _ _ hembed => cases hembed <;> first | rfl | cases hnamed
  | named form v sid => cases hnamed
  | executed _ effect _ hcmd =>
    cases hcmd with
    | load sid form =>
      rcases verifyLoaded_cases sid form (SessionStore.get db sid) with
        ⟨_, hv⟩ | ⟨_, _, _, hv⟩ | ⟨_, _, _, _, _, hv⟩ | ⟨_, _, _, hv⟩ <;> rw [hv] <;> rfl
    | _ => rfl
  | _ => rfl

/-- Session ids are only ever added. -/
theorem ids_of_step {l : Label} (h : step env l σ = some σ') {sid : Str} (hsid : sid ∈ σ.ids) :
    sid ∈ σ'.ids := by
  cases l with
  | request r q limited =>
    rcases step_request h with ⟨_, rfl⟩
    exact hsid
  | embed r result =>
    rcases step_embed h with ⟨_, _, _, _, rfl⟩
    exact hsid
  | name r sid' =>
    rcases step_name h with ⟨_, _, _, _, _, rfl⟩
    exact List.mem_cons_of_mem _ hsid
  | redis r fault =>
    obtain ⟨_, _, _, _, _, ⟨_, rfl⟩ | ⟨_, rfl⟩ | ⟨_, rfl⟩⟩ := step_redis h <;> exact hsid
  | answer r =>
    rcases step_answer h with ⟨_, _, _, _, rfl⟩
    exact hsid
  | tick d =>
    obtain rfl := step_tick h
    exact hsid
  | _ => rwa [(sameCore_of_step rfl h).ids]

/-- Once a request has drawn its id, it draws no other; a drawn id is not drawn again. -/
theorem no_name_of_run (h : (server env).Run ok σ ls σ') :
    (∀ r req, σ.reqs r = some req → req.handler.named = true → ∀ sid, .name r sid ∉ ls) ∧
    (∀ sid ∈ σ.ids, ∀ r, .name r sid ∉ ls) := by
  induction h with
  | nil σ => simp
  | @cons σ τ σ' l ls _ hs _ ih =>
    replace hs : step env l σ = some τ := hs
    constructor
    · intro r req hreq hnamed sid hmem
      rcases List.mem_cons.mp hmem with rfl | hmem
      · rcases step_name hs with ⟨req₀, handler, hreq₀, hstep, _⟩
        obtain rfl := Option.some.inj (hreq.symm.trans hreq₀)
        rcases name_cases hstep with ⟨form, v, hold, _⟩
        rw [hold] at hnamed
        cases hnamed
      · rcases handlerStep_of_step hs hreq with ⟨handler, hreq', hcases⟩
        have hnamed' : handler.named = true := by
          rcases hcases with rfl | hstep
          · exact hnamed
          · exact named_handlerStep hstep hnamed
        exact ih.1 r _ hreq' hnamed' sid hmem
    · intro sid hsid r hmem
      rcases List.mem_cons.mp hmem with rfl | hmem
      · rcases step_name hs with ⟨_, _, _, _, hnot, _⟩
        exact hnot hsid
      · exact ih.2 sid (ids_of_step hs hsid) r hmem

/-- A session id belongs to one request, and a request to one session id. -/
theorem named_once (h : (server env).Run ok σ ls σ') {r r' : ℕ} {sid sid' : Str}
    (hn : .name r sid ∈ ls) (hn' : .name r' sid' ∈ ls) : r = r' ↔ sid = sid' := by
  induction h with
  | nil σ => cases hn
  | @cons σ τ σ' l ls _ hs hrun ih =>
    replace hs : step env l σ = some τ := hs
    -- after the first of the two, neither the request nor the id occurs again
    have hafter : ∀ {r : ℕ} {sid : Str}, l = .name r sid →
        (∀ s, .name r s ∉ ls) ∧ ∀ r', .name r' sid ∉ ls := by
      rintro r sid rfl
      rcases no_name_of_run hrun with ⟨hno, hids⟩
      rcases step_name hs with ⟨req, handler, _, hstep, _, rfl⟩
      refine ⟨hno r { req with handler } (State.setReq_reqs_self σ r { req with handler }) ?_,
        hids sid List.mem_cons_self⟩
      obtain ⟨_, _, _, rfl | ⟨_, rfl⟩⟩ := name_cases hstep <;> rfl
    rcases List.mem_cons.mp hn with he | hn₁ <;> rcases List.mem_cons.mp hn' with he' | hn₁'
    · rcases Label.name.inj (he.trans he'.symm) with ⟨rfl, rfl⟩
      simp
    · rcases hafter he.symm with ⟨hr, hs⟩
      exact ⟨fun heq => absurd hn₁' (heq ▸ hr _), fun heq => absurd hn₁' (heq ▸ hs _)⟩
    · rcases hafter he'.symm with ⟨hr, hs⟩
      exact ⟨fun heq => absurd hn₁ (heq ▸ hr _), fun heq => absurd hn₁ (heq ▸ hs _)⟩
    · exact ih hn₁ hn₁'

end Labels

/-! ## Twins -/

/-- What the second run has in the place of a secret of the first: of what create request `r` posts
and is given, and of what session `sid` holds. -/
structure Twin where
  postedKey : ℕ → Json → Json
  postedVector : ℕ → Json → Json
  storedKey : Str → Json → Json
  storedVector : Str → Json → Json

namespace Twin

variable (T : Twin) (env : Env)

/-- What `create_session` reads; the text of the answer is free. -/
structure Forms (r : ℕ) (form form' : CreateForm) : Prop where
  aliceName : form'.aliceName = form.aliceName
  memoryQuestion : form'.memoryQuestion = form.memoryQuestion
  alicePubkeyJwk : form'.alicePubkeyJwk = T.postedKey r form.alicePubkeyJwk

/-- What `verify` reads; the text of the answer is free. -/
structure Said (form form' : VerifyForm) : Prop where
  bobName : form'.bobName = form.bobName
  bobPubkeyJwk : form'.bobPubkeyJwk = form.bobPubkeyJwk

/-- The hash of session `sid`. -/
structure Sessions (sid : Str) (session session' : Session) : Prop where
  same : ∀ f, f ≠ .answerEmbedding → f ≠ .alicePubkeyJwk → session' f = session f
  embedding : ∃ v, session .answerEmbedding = some (Json.dumps v) ∧
    session' .answerEmbedding = some (T.storedVector sid v).dumps
  key : ∃ k, session .alicePubkeyJwk = some (Json.dumps k) ∧
    session' .alicePubkeyJwk = some (T.storedKey sid k).dumps

/-- What is stored under a key. -/
inductive Entries (k : Str) : Option (Entry Field) → Option (Entry Field) → Prop
  | none : Entries k none none
  | some (sid : Str) (session session' : Session) (deadline : Option ℕ) : k = key sid →
      T.Sessions sid session session' →
      Entries k (some ⟨session, deadline⟩) (some ⟨session', deadline⟩)

structure Stores (db db' : Store) : Prop where
  now : db'.now = db.now
  entries : ∀ k, T.Entries k (db.db k) (db'.db k)

/-- What request `r` is answered. Two responses carry something derived from a secret: that of a
create request shows the embedding, and a PASS hands out the key. -/
inductive Results (r : ℕ) : Request → Result → Result → Prop
  | same (q : Request) (result : Result) : Results r q result result
  | created (body : Json) (sid : Str) (v : Json) : Results r (.create body)
      (createResponse env sid v) (createResponse env sid (T.postedVector r v))
  | passed (sid : Str) (body : Json) (score : ℚ) (k : Json) : Results r (.verify sid body)
      (.ok (passResponse score k)) (.ok (passResponse score (T.storedKey sid k)))

/-- The handler of request `r`, which is `q` in the first run. -/
inductive Handlers (r : ℕ) (q : Request) : Handler → Handler → Prop
  | embedding (form form' : CreateForm) : T.Forms r form form' →
      Handlers r q (.embedding form) (.embedding form')
  | naming (form form' : CreateForm) (v : Json) : T.Forms r form form' →
      Handlers r q (.naming form v) (.naming form' (T.postedVector r v))
  | creating (form form' : CreateForm) (v : Json) (sid createdAt : Str) : T.Forms r form form' →
      T.postedKey r = T.storedKey sid → T.postedVector r = T.storedVector sid →
      Handlers r q (.creating form v sid createdAt)
        (.creating form' (T.postedVector r v) sid createdAt)
  | reading (sid : Str) : Handlers r q (.reading sid) (.reading sid)
  | loading (sid : Str) (form form' : VerifyForm) : Said form form' →
      Handlers r q (.loading sid form) (.loading sid form')
  | scoring (sid : Str) (form form' : VerifyForm) (session session' : Session) :
      Said form form' → T.Sessions sid session session' →
      Handlers r q (.scoring sid form session) (.scoring sid form' session')
  | finalizing (sid : Str) (form form' : VerifyForm) (session session' : Session) (bob : Json)
      (score : ℚ) : Said form form' → T.Sessions sid session session' →
      Handlers r q (.finalizing sid form session bob score)
        (.finalizing sid form' session' bob score)
  | deleting (sid : Str) : Handlers r q (.deleting sid) (.deleting sid)
  | replying (result result' : Result) : T.Results env r q result result' →
      Handlers r q (.replying result) (.replying result')
  | done (result result' : Result) : T.Results env r q result result' →
      Handlers r q (.done (answerOf result)) (.done (answerOf result'))

inductive Reqs (r : ℕ) : Option Req → Option Req → Prop
  | none : Reqs r none none
  | some (q q' : Request) (handler handler' : Handler) : T.Handlers env r q handler handler' →
      Reqs r (some ⟨q, handler⟩) (some ⟨q', handler'⟩)

/-- The two states of the server. -/
structure States (σ σ' : State) : Prop where
  store : T.Stores σ.store σ'.store
  reqs : ∀ r, T.Reqs env r (σ.reqs r) (σ'.reqs r)
  streams : σ'.streams = σ.streams
  workers : σ'.workers = σ.workers
  ids : σ'.ids = σ.ids
  published : σ'.published = σ.published

/-- Two arrivals: they differ in a text, or in a posted key. -/
inductive Requests (r : ℕ) : Request → Request → Prop
  | same (q : Request) : T.Handlers env r q (.start q) (.start q) → Requests r q q
  | create (body body' : Json) :
      T.Handlers env r (.create body) (.start (.create body)) (.start (.create body')) →
      Requests r (.create body) (.create body')
  | verify (sid : Str) (body body' : Json) :
      T.Handlers env r (.verify sid body) (.start (.verify sid body)) (.start (.verify sid body')) →
      Requests r (.verify sid body) (.verify sid body')

/-- Two labels: the outside does the same in both runs, up to the secret. -/
inductive Labels : Label → Label → Prop
  | request (r : ℕ) (q q' : Request) (limited : Bool) : T.Requests env r q q' →
      Labels (.request r q limited) (.request r q' limited)
  | embed (r : ℕ) (v : Json) : Labels (.embed r (some v)) (.embed r (some (T.postedVector r v)))
  | same (l : Label) : (∀ r q limited, l ≠ .request r q limited) →
      (∀ r v, l ≠ .embed r (some v)) → Labels l l

/-- The twin is coherent at a step: what a session holds is what its creator posted and was given,
and the other embedding gives every answer the same score. -/
def Allows : Lts.Guard State Label
  | .name r sid, _ => T.postedKey r = T.storedKey sid ∧ T.postedVector r = T.storedVector sid
  | .embed r (some v), σ => ∀ q sid form session,
      σ.reqs r = some ⟨q, .scoring sid form session⟩ →
      T.postedVector r v = v ∧
        ∀ alice, env.cosineSimilarity (T.storedVector sid alice) v = env.cosineSimilarity alice v
  | _, _ => True

/-! ### Stores -/

section Stores

variable {T} {env} {db db' : Store} {sid : Str}

theorem Stores.init : T.Stores Server.init Server.init := ⟨rfl, fun _ => .none⟩

theorem Stores.put (h : T.Stores db db') {k : Str} {e e' : Option (Entry Field)}
    (he : T.Entries k e e') : T.Stores (db.put k e) (db'.put k e') := by
  refine ⟨h.now, fun k' => ?_⟩
  by_cases hk : k' = k
  · subst hk
    simpa using he
  · rw [Server.put_db_ne hk, Server.put_db_ne hk]
    exact h.entries k'

theorem Stores.tick (h : T.Stores db db') (d : ℕ) : T.Stores (db.tick d) (db'.tick d) := by
  refine ⟨by simp [h.now], fun k => ?_⟩
  have he := h.entries k
  simp only [Server.tick]
  -- the deadlines are the same, and so is the clock
  cases hdb : db.db k <;> cases hdb' : db'.db k <;> rw [hdb, hdb'] at he <;> cases he
  case none.none => exact .none
  case some.some sid session session' deadline hk hs =>
    rw [h.now, Option.filter_some, Option.filter_some]
    split_ifs
    · exact .some sid session session' deadline hk hs
    · exact .none

/-- The two hashes of a session. -/
theorem Stores.cases (h : T.Stores db db') (sid : Str) :
    (db.db (key sid) = none ∧ db'.db (key sid) = none) ∨
    ∃ session session' deadline, db.db (key sid) = some ⟨session, deadline⟩ ∧
      db'.db (key sid) = some ⟨session', deadline⟩ ∧ T.Sessions sid session session' := by
  have he := h.entries (key sid)
  cases hdb : db.db (key sid) <;> cases hdb' : db'.db (key sid) <;> rw [hdb, hdb'] at he <;> cases he
  case none.none => exact Or.inl ⟨rfl, rfl⟩
  case some.some sid' session session' deadline hk hs =>
    obtain rfl := key_injective hk
    exact Or.inr ⟨session, session', deadline, rfl, rfl, hs⟩

/-- A field that holds no secret reads the same. -/
theorem Stores.hget (h : T.Stores db db') (sid : Str) {f : Field} (hv : f ≠ .answerEmbedding)
    (hk : f ≠ .alicePubkeyJwk) : db'.hget (key sid) f = db.hget (key sid) f := by
  rcases h.cases sid with ⟨hdb, hdb'⟩ | ⟨session, session', deadline, hdb, hdb', hs⟩
  · rw [Server.hget_of_none hdb, Server.hget_of_none hdb']
  · rw [Server.hget_eq hdb, Server.hget_eq hdb']
    exact hs.same f hv hk

theorem Stores.getPhase (h : T.Stores db db') (sid : Str) :
    SessionStore.getPhase db' sid = SessionStore.getPhase db sid :=
  h.hget sid (by decide) (by decide)

theorem Stores.terminalEvent (h : T.Stores db db') (sid : Str) :
    SessionStore.terminalEvent db' sid = SessionStore.terminalEvent db sid := by
  have hphase := h.hget sid (f := .phase) (by decide) (by decide)
  have hname := h.hget sid (f := .bobName) (by decide) (by decide)
  have hjwk := h.hget sid (f := .bobPubkeyJwk) (by decide) (by decide)
  have hscore := h.hget sid (f := .similarityScore) (by decide) (by decide)
  simp only [SessionStore.terminalEvent, hphase, hname, hjwk, hscore]

/-- A stream reads nothing that holds a secret. -/
theorem Stores.redis (h : T.Stores db db') (st : Stream) : st.redis db' = st.redis db := by
  simp only [Stream.redis, h.getPhase, h.terminalEvent]

/-- The snapshots of a session. -/
theorem Stores.get (h : T.Stores db db') (sid : Str) :
    (SessionStore.get db sid = none ∧ SessionStore.get db' sid = none) ∨
    ∃ session session', SessionStore.get db sid = some session ∧
      SessionStore.get db' sid = some session' ∧ T.Sessions sid session session' := by
  rcases h.cases sid with ⟨hdb, hdb'⟩ | ⟨session, session', deadline, hdb, hdb', hs⟩
  · exact Or.inl ⟨by simp [SessionStore.get, Server.hgetall, hdb],
      by simp [SessionStore.get, Server.hgetall, hdb']⟩
  · exact Or.inr ⟨session, session', by simp [SessionStore.get, Server.hgetall, hdb],
      by simp [SessionStore.get, Server.hgetall, hdb'], hs⟩

end Stores

/-! ### Hashes -/

section Sessions

variable {T} {env} {sid : Str} {session session' : Session}

theorem Sessions.new {r : ℕ} {form form' : CreateForm} (h : T.Forms r form form')
    (hkey : T.postedKey r = T.storedKey sid) (hvector : T.postedVector r = T.storedVector sid)
    (v : Json) (createdAt : Str) :
    T.Sessions sid (SessionStore.newSession form v createdAt)
      (SessionStore.newSession form' (T.postedVector r v) createdAt) where
  same := by
    intro f hv hk
    cases f with
    | answerEmbedding => exact absurd rfl hv
    | alicePubkeyJwk => exact absurd rfl hk
    | aliceName => exact congrArg some h.aliceName
    | memoryQuestion => exact congrArg some h.memoryQuestion
    | _ => rfl
  embedding := ⟨v, rfl, by rw [hvector]; rfl⟩
  key := ⟨form.alicePubkeyJwk, rfl, by rw [← hkey, ← h.alicePubkeyJwk]; rfl⟩

theorem updates_congr {form form' : VerifyForm} (h : Said form form') (score : ℚ) :
    updates env form' score = updates env form score := by
  simp only [updates, h.bobName, h.bobPubkeyJwk]

theorem event_congr {form form' : VerifyForm} (h : Said form form') (score : ℚ) :
    event env form' score = event env form score := by
  simp only [event, h.bobName, h.bobPubkeyJwk]

/-- An outcome is written over neither secret. -/
theorem Sessions.write (h : T.Sessions sid session session') (form : VerifyForm) (score : ℚ) :
    T.Sessions sid (session.write (updates env form score))
      (session'.write (updates env form score)) := by
  have hkeep : ∀ (s : Session) (f : Field), f = .answerEmbedding ∨ f = .alicePubkeyJwk →
      s.write (updates env form score) f = s f := by
    rintro s f (rfl | rfl) <;> by_cases hp : passed env score = true <;>
      simp [updates, hp, Hash.write]
  refine ⟨?_, ?_, ?_⟩
  · intro f hv hk
    have hf := h.same f hv hk
    by_cases hp : passed env score = true <;>
      simp only [updates, hp, if_true, Hash.write, List.foldl_cons, List.foldl_nil,
        Function.update_apply, hf, Bool.false_eq_true, if_false]
  · rw [hkeep _ _ (Or.inl rfl), hkeep _ _ (Or.inl rfl)]
    exact h.embedding
  · rw [hkeep _ _ (Or.inr rfl), hkeep _ _ (Or.inr rfl)]
    exact h.key

theorem Sessions.getResponse (h : T.Sessions sid session session') :
    getResponse (some session') = getResponse (some session) := by
  have hname := h.same .aliceName (by decide) (by decide)
  have hquestion := h.same .memoryQuestion (by decide) (by decide)
  have hphase := h.same .phase (by decide) (by decide)
  simp only [Doppelganger.getResponse, field, hname, hquestion, hphase]

theorem Sessions.scoreOf (h : T.Sessions sid session session') {v : Json}
    (hv : ∀ alice, env.cosineSimilarity (T.storedVector sid alice) v =
      env.cosineSimilarity alice v) : scoreOf env session' v = scoreOf env session v := by
  rcases h.embedding with ⟨alice, ha, ha'⟩
  simp only [Doppelganger.scoreOf, field, ha, ha', bind, Except.bind, Json.loads_dumps, hv]

/-- The two answers to a winner. -/
theorem Sessions.verifyResponse (h : T.Sessions sid session session') (r : ℕ) (body : Json)
    (score : ℚ) : T.Results env r (.verify sid body) (verifyResponse env session score .won)
      (verifyResponse env session' score .won) := by
  rcases h.key with ⟨k, hk, hk'⟩
  by_cases hp : passed env score = true
  · have hres : Doppelganger.verifyResponse env session score .won = .ok (passResponse score k) := by
      simp [Doppelganger.verifyResponse, hp, field, hk, bind, Except.bind]
    have hres' : Doppelganger.verifyResponse env session' score .won =
        .ok (passResponse score (T.storedKey sid k)) := by
      simp [Doppelganger.verifyResponse, hp, field, hk', bind, Except.bind]
    rw [hres, hres']
    exact .passed sid body score k
  · have hres : ∀ s, Doppelganger.verifyResponse env s score .won = .ok (failResponse score) := by
      simp [Doppelganger.verifyResponse, hp]
    rw [hres, hres]
    exact .same _ _

/-- What follows a snapshot. -/
theorem Sessions.verifyLoaded (h : T.Sessions sid session session') {form form' : VerifyForm}
    (hform : Said form form') (r : ℕ) (q : Request) :
    T.Handlers env r q (Handler.verifyLoaded sid form (some session))
      (Handler.verifyLoaded sid form' (some session')) := by
  have hphase := h.same .phase (by decide) (by decide)
  simp only [Handler.verifyLoaded, field, hphase]
  cases session .phase with
  | none => exact .replying _ _ (.same _ _)
  | some phase =>
    by_cases hw : phase = waitingForBob
    · simp only [hw, ne_eq, not_true_eq_false, if_false]
      exact .scoring sid form form' session session' hform h
    · simp only [hw, ne_eq, not_false_eq_true, if_true]
      exact .replying _ _ (.same _ _)

end Sessions

/-! ### Handlers -/

section Handlers

variable {T} {env} {r : ℕ} {q : Request} {hd hd' next : Handler}

/-- A request that posts the same key in both runs. -/
theorem Handlers.start_self (hkey : ∀ k, T.postedKey r k = k) (q : Request) :
    T.Handlers env r q (.start q) (.start q) := by
  cases q with
  | create body =>
    rcases start_create body with ⟨result, hstart, _⟩ | ⟨form, _, hstart⟩
    · rw [hstart]
      exact .replying _ _ (.same _ _)
    · rw [hstart]
      exact .embedding form form ⟨rfl, rfl, (hkey _).symm⟩
  | verify sid body =>
    rcases start_verify sid body with ⟨result, hstart, _⟩ | ⟨form, _, hstart⟩
    · rw [hstart]
      exact .replying _ _ (.same _ _)
    · rw [hstart]
      exact .loading sid form form ⟨rfl, rfl⟩
  | get sid => exact .reading sid
  | delete sid => exact .deleting sid

/-- The embedding service answers both handlers. -/
theorem Handlers.embed (h : T.Handlers env r q hd hd') {result : Option Json}
    (hstep : hd.embed env result = some next)
    (hok : ∀ v sid form session, result = some v → hd = .scoring sid form session →
      T.postedVector r v = v ∧
        ∀ alice, env.cosineSimilarity (T.storedVector sid alice) v = env.cosineSimilarity alice v) :
    ∃ next', hd'.embed env (result.map (T.postedVector r)) = some next' ∧
      T.Handlers env r q next next' := by
  cases h with
  | embedding form form' hform =>
    cases result with
    | none =>
      obtain rfl := Option.some.inj hstep
      exact ⟨_, rfl, .replying _ _ (.same _ _)⟩
    | some v =>
      obtain rfl := Option.some.inj hstep
      exact ⟨_, rfl, .naming form form' v hform⟩
  | scoring sid form form' session session' hform hs =>
    cases result with
    | none =>
      obtain rfl := Option.some.inj hstep
      exact ⟨_, rfl, .replying _ _ (.same _ _)⟩
    | some v =>
      obtain rfl := Option.some.inj hstep
      rcases hok v sid form session rfl rfl with ⟨hv, hscore⟩
      refine ⟨_, by rw [Option.map_some, hv]; rfl, ?_⟩
      -- both runs compute the same score, or raise alike
      simp only [Handler.verifyScored, hs.scoreOf hscore, hform.bobName]
      cases scoreOf env session v with
      | error e => exact .replying _ _ (.same _ _)
      | ok score =>
        dsimp only
        by_cases hw : (passed env score && !wellFormed form.bobName) = true
        · rw [if_pos hw, if_pos hw]
          exact Handlers.replying _ _ (.same _ _)
        · rw [if_neg hw, if_neg hw]
          exact .finalizing sid form form' session session' v score hform hs
  | _ => cases hstep

/-- Both handlers draw the same session id. -/
theorem Handlers.name (h : T.Handlers env r q hd hd') {now : ℕ} {sid : Str}
    (hstep : hd.name now sid = some next) (hkey : T.postedKey r = T.storedKey sid)
    (hvector : T.postedVector r = T.storedVector sid) :
    ∃ next', hd'.name now sid = some next' ∧ T.Handlers env r q next next' := by
  cases h with
  | naming form form' v hform =>
    simp only [Handler.name, hform.aliceName, hform.memoryQuestion] at hstep ⊢
    by_cases hw : (wellFormed form.aliceName && wellFormed form.memoryQuestion) = true
    · rw [if_pos hw] at hstep ⊢
      obtain rfl := Option.some.inj hstep
      exact ⟨_, rfl, .creating form form' v sid _ hform hkey hvector⟩
    · rw [if_neg hw] at hstep ⊢
      obtain rfl := Option.some.inj hstep
      exact ⟨_, rfl, .replying _ _ (.same _ _)⟩
  | _ => cases hstep

/-- Both Redis commands do the same, up to the secret. -/
theorem Handlers.redis (h : T.Handlers env r q hd hd') {σ : State} (hok : HandlerOk env σ r q hd)
    {db db' : Store} (hdb : T.Stores db db')
    (habsent : ∀ form v sid createdAt, hd = .creating form v sid createdAt →
      db.db (key sid) = none) {effect : Effect} (hstep : hd.redis env r db = some (effect, next)) :
    ∃ effect' next', hd'.redis env r db' = some (effect', next') ∧
      T.Stores effect.store effect'.store ∧ effect'.published = effect.published ∧
      T.Handlers env r q next next' := by
  cases h with
  | creating form form' v sid createdAt hform hkey hvector =>
    rcases Prod.mk.inj (Option.some.inj hstep) with ⟨rfl, rfl⟩
    rcases hok with ⟨⟨body, rfl, _⟩, _⟩
    refine ⟨_, _, rfl, ?_, rfl, .replying _ _ ?_⟩
    · have hnone := habsent form v sid createdAt rfl
      rcases hdb.cases sid with ⟨_, hnone'⟩ | ⟨_, _, _, hsome, _⟩
      · simp only [SessionStore.create_of_absent hnone, SessionStore.create_of_absent hnone',
          SessionStore.createdEntry, hdb.now]
        split_ifs
        · exact hdb.put .none
        · exact hdb.put (.some sid _ _ _ rfl (.new hform hkey hvector v createdAt))
      · rw [hnone] at hsome
        cases hsome
    · -- the time to live is refused in both runs or in neither
      rw [createStored_eq, createStored_eq, hdb.now]
      split_ifs
      · exact .created body sid v
      · exact .same _ _
  | reading sid =>
    rcases Prod.mk.inj (Option.some.inj hstep) with ⟨rfl, rfl⟩
    refine ⟨_, _, rfl, hdb, rfl, ?_⟩
    rcases hdb.get sid with ⟨hg, hg'⟩ | ⟨session, session', hg, hg', hs⟩
    · rw [hg, hg']
      exact .replying _ _ (.same _ _)
    · rw [hg, hg', hs.getResponse]
      exact .replying _ _ (.same _ _)
  | loading sid form form' hform =>
    rcases Prod.mk.inj (Option.some.inj hstep) with ⟨rfl, rfl⟩
    refine ⟨_, _, rfl, hdb, rfl, ?_⟩
    rcases hdb.get sid with ⟨hg, hg'⟩ | ⟨session, session', hg, hg', hs⟩
    · rw [hg, hg']
      exact .replying _ _ (.same _ _)
    · rw [hg, hg']
      exact hs.verifyLoaded hform r q
  | finalizing sid form form' session session' bob score hform hs =>
    rcases Prod.mk.inj (Option.some.inj hstep) with ⟨rfl, rfl⟩
    rcases hok with ⟨⟨body, rfl, _⟩, _⟩
    have hup : updates env form' score = updates env form score := updates_congr hform score
    have hev : event env form' score = event env form score := event_congr hform score
    refine ⟨_, _, by simp only [Handler.redis, hup, hev]; rfl, ?_⟩
    -- the script finds the same phase in both stores
    rcases hdb.cases sid with ⟨hn, hn'⟩ | ⟨stored, stored', deadline, he, he', hst⟩
    · simp only [SessionStore.finalize_of_none hn, SessionStore.finalize_of_none hn']
      exact ⟨hdb, trivial, .replying _ _ (.same _ _)⟩
    · have hphase := hst.same .phase (by decide) (by decide)
      by_cases hp : stored .phase = some waitingForBob
      · simp only [SessionStore.finalize_of_waiting he hp,
          SessionStore.finalize_of_waiting he' (hphase.trans hp)]
        exact ⟨hdb.put (.some sid _ _ _ rfl (hst.write form score)), trivial,
          .replying _ _ (hs.verifyResponse r body score)⟩
      · have hp' : stored' .phase ≠ some waitingForBob := by rwa [hphase]
        simp only [SessionStore.finalize_of_completed he hp,
          SessionStore.finalize_of_completed he' hp']
        exact ⟨hdb, trivial, .replying _ _ (.same _ _)⟩
  | deleting sid =>
    rcases Prod.mk.inj (Option.some.inj hstep) with ⟨rfl, rfl⟩
    exact ⟨_, _, rfl, hdb.put .none, rfl, .replying _ _ (.same _ _)⟩
  | _ => cases hstep

end Handlers

/-! ### The step lemma -/

section Simulation

variable {T} {env} {σ σ' τ : State} {l l' : Label}

theorem States.init : T.States env State.init State.init where
  store := .init
  reqs := fun _ => .none
  streams := rfl
  workers := rfl
  ids := rfl
  published := rfl

/-- The handlers of a request that is there. -/
theorem States.req (h : T.States env σ σ') {r : ℕ} {req : Req} (hreq : σ.reqs r = some req) :
    ∃ q' handler', σ'.reqs r = some ⟨q', handler'⟩ ∧
      T.Handlers env r req.request req.handler handler' := by
  have hr := h.reqs r
  rw [hreq] at hr
  generalize σ'.reqs r = o at hr ⊢
  cases hr with
  | some q q' handler handler' hh => exact ⟨q', handler', rfl, hh⟩

theorem States.req_none (h : T.States env σ σ') {r : ℕ} (hreq : σ.reqs r = none) :
    σ'.reqs r = none := by
  have hr := h.reqs r
  rw [hreq] at hr
  generalize σ'.reqs r = o at hr ⊢
  cases hr
  rfl

theorem States.setReq (h : T.States env σ σ') {r : ℕ} {q q' : Request} {handler handler' : Handler}
    (hh : T.Handlers env r q handler handler') :
    T.States env (σ.setReq r ⟨q, handler⟩) (σ'.setReq r ⟨q', handler'⟩) where
  store := h.store
  reqs := by
    intro r'
    by_cases hr : r' = r
    · subst hr
      rw [State.setReq_reqs_self, State.setReq_reqs_self]
      exact .some q q' handler handler' hh
    · rw [State.setReq_reqs_ne _ hr, State.setReq_reqs_ne _ hr]
      exact h.reqs r'
  streams := h.streams
  workers := h.workers
  ids := h.ids
  published := h.published

theorem States.apply (h : T.States env σ σ') {effect effect' : Effect}
    (hstore : T.Stores effect.store effect'.store)
    (hpublished : effect'.published = effect.published) :
    T.States env (σ.apply effect) (σ'.apply effect') where
  store := hstore
  reqs := h.reqs
  streams := h.streams
  workers := by simp only [State.apply, h.workers, hpublished]
  ids := h.ids
  published := by simp only [State.apply, h.published, hpublished]

theorem States.setStream (h : T.States env σ σ') (i : ℕ) (st : Stream) :
    T.States env (σ.setStream i st) (σ'.setStream i st) :=
  ⟨h.store, h.reqs, by simp only [State.setStream, h.streams], h.workers, h.ids, h.published⟩

theorem States.setWorker (h : T.States env σ σ') (w : ℕ) (worker : Worker) :
    T.States env (σ.setWorker w worker) (σ'.setWorker w worker) :=
  ⟨h.store, h.reqs, h.streams, by simp only [State.setWorker, h.workers], h.ids, h.published⟩

theorem States.deliverTo (h : T.States env σ σ') (w : ℕ) (m : Message) :
    T.States env (σ.deliverTo w m) (σ'.deliverTo w m) :=
  ⟨h.store, h.reqs, by simp only [State.deliverTo, h.streams, h.workers], h.workers, h.ids,
    h.published⟩

/-- A step of a stream or a listener depends on nothing that differs. -/
theorem stream_step_of_step (h : T.States env σ σ') (hl : l.ofStream = true)
    (hstep : step env l σ = some τ) : ∃ τ', step env l σ' = some τ' ∧ T.States env τ τ' := by
  cases l with
  | stream i sid w =>
    rcases step_stream hstep with ⟨hnone, rfl⟩
    refine ⟨_, ?_, h.setStream i (Stream.new sid w)⟩
    simp [step, h.streams, hnone]
  | read i fault =>
    rcases step_read hstep with ⟨st, st', hst, rfl, hcases⟩
    refine ⟨_, ?_, h.setStream i st'⟩
    rw [← h.streams] at hst
    rcases hcases with ⟨rfl, hread⟩ | ⟨hne, hfail⟩
    · rw [← h.store.redis] at hread
      simp [step, hst, hread]
    · cases fault with
      | none => exact absurd rfl hne
      | before | after => simp [step, hst, hfail]
  | advance i =>
    rcases step_advance hstep with ⟨st, st', hst, hadv, rfl⟩
    refine ⟨_, ?_, (h.setWorker _ _).setStream i st'⟩
    rw [← h.streams] at hst
    rw [← h.store.now] at hadv
    simp [step, hst, hadv, h.workers]
  | close i =>
    rcases step_close hstep with ⟨st, st', hst, hclose, rfl⟩
    refine ⟨_, ?_, h.setStream i st'⟩
    rw [← h.streams] at hst
    simp [step, hst, hclose]
  | listen w =>
    obtain rfl := step_listen hstep
    exact ⟨_, by simp only [step, h.workers], h.setWorker w _⟩
  | disconnect w =>
    obtain rfl := step_disconnect hstep
    exact ⟨_, by simp only [step, h.workers], h.setWorker w _⟩
  | deliver w =>
    rcases step_deliver hstep with ⟨m, rest, hm, rfl⟩
    refine ⟨_, ?_, (h.deliverTo w m).setWorker w _⟩
    simp only [step, h.workers, hm]
  | lose w n =>
    obtain rfl := step_lose hstep
    exact ⟨_, by simp only [step, h.workers], h.setWorker w _⟩
  | _ => cases hl

/-- Related labels taken in related states lead to related states. -/
theorem step_of_step (hi : Inv env σ) (h : T.States env σ σ') (hl : T.Labels env l l')
    (hok : T.Allows env l σ) (hstep : step env l σ = some τ) :
    ∃ τ', step env l' σ' = some τ' ∧ T.States env τ τ' := by
  cases hl with
  | request r q q' limited hq =>
    rcases step_request hstep with ⟨hnone, rfl⟩
    refine ⟨_, request_step (h.req_none hnone) q' limited, h.setReq ?_⟩
    cases limited with
    | true => exact .replying _ _ (.same _ _)
    | false =>
      cases hq with
      | same _ hh => exact hh
      | create _ _ hh => exact hh
      | verify _ _ _ hh => exact hh
  | embed r v =>
    rcases step_embed hstep with ⟨⟨q, old⟩, handler, hreq, hembed, rfl⟩
    rcases h.req hreq with ⟨q', old', hreq', hh⟩
    obtain ⟨handler', hembed', hnext⟩ := hh.embed hembed (by
      rintro v' sid form session he rfl
      obtain rfl := Option.some.inj he
      exact hok q sid form session hreq)
    exact ⟨_, embed_step hreq' hembed', h.setReq hnext⟩
  | same _ hnotreq hnotembed =>
    cases l with
    | request r q limited => exact absurd rfl (hnotreq r q limited)
    | embed r result =>
      cases result with
      | some v => exact absurd rfl (hnotembed r v)
      | none =>
        rcases step_embed hstep with ⟨⟨q, old⟩, handler, hreq, hembed, rfl⟩
        rcases h.req hreq with ⟨q', old', hreq', hh⟩
        obtain ⟨handler', hembed', hnext⟩ := hh.embed hembed (by
          intro v sid form session he
          cases he)
        exact ⟨_, embed_step hreq' hembed', h.setReq hnext⟩
    | name r sid =>
      rcases step_name hstep with ⟨⟨q, old⟩, handler, hreq, hname, hsid, rfl⟩
      rcases h.req hreq with ⟨q', old', hreq', hh⟩
      rcases hh.name hname hok.1 hok.2 with ⟨handler', hname', hnext⟩
      rw [← h.ids] at hsid
      rw [← h.store.now] at hname'
      refine ⟨_, name_step hreq' hname' hsid, ?_⟩
      have hset : T.States env (σ.setReq r ⟨q, handler⟩) (σ'.setReq r ⟨q', handler'⟩) :=
        h.setReq hnext
      exact ⟨hset.store, hset.reqs, hset.streams, hset.workers, congrArg (sid :: ·) h.ids,
        hset.published⟩
    | redis r fault =>
      rcases step_redis hstep with ⟨⟨q, old⟩, effect, handler, hreq, hredis, hcases⟩
      rcases h.req hreq with ⟨q', old', hreq', hh⟩
      obtain ⟨effect', handler', hredis', hstore, hpub, hnext⟩ :=
        hh.redis (hi.handlers r _ hreq) h.store (by
          rintro form v sid createdAt rfl
          exact hi.absent_of_creating hreq) hredis
      rcases redis_step hreq' hredis' with ⟨hnone, hbefore, hafter⟩
      -- a lost reply is answered the same in both runs
      have hlost : T.Handlers env r q (.replying (.error .redisError))
          (.replying (.error .redisError)) := .replying _ _ (.same _ _)
      rcases hcases with ⟨rfl, rfl⟩ | ⟨rfl, rfl⟩ | ⟨rfl, rfl⟩
      · exact ⟨_, hnone, (h.apply hstore hpub).setReq hnext⟩
      · exact ⟨_, hbefore, h.setReq hlost⟩
      · exact ⟨_, hafter, (h.apply hstore hpub).setReq hlost⟩
    | answer r =>
      rcases step_answer hstep with ⟨⟨q, old⟩, result, hreq, hold, rfl⟩
      obtain rfl : old = .replying result := hold
      rcases h.req hreq with ⟨q', old', hreq', hh⟩
      cases hh with
      | replying _ result' hres =>
        exact ⟨_, answer_step hreq' rfl, h.setReq (.done result result' hres)⟩
    | tick d =>
      obtain rfl := step_tick hstep
      exact ⟨_, rfl, ⟨h.store.tick d, h.reqs, h.streams, h.workers, h.ids, h.published⟩⟩
    | _ => exact stream_step_of_step h rfl hstep

/-- Two runs on related labels stay in related states. -/
theorem run_of_run {ls ls' : List Label}
    (hrun : (server env).Run (T.Allows env) (server env).init ls σ)
    (hls : List.Forall₂ (T.Labels env) ls ls') :
    ∃ σ', (server env).Run Lts.anyStep (server env).init ls' σ' ∧ T.States env σ σ' := by
  have hsim : ∃ σ', (server env).Run Lts.anyStep (server env).init ls' σ' ∧
      (Inv env σ ∧ T.States env σ σ') := by
    refine hrun.simulate (N := server env) (R := fun σ σ' => Inv env σ ∧ T.States env σ σ') ?_
      ⟨Inv.init, .init⟩ hls
    intro l l' s s' t hl hR hok hs
    rcases step_of_step hR.1 hR.2 hl hok hs with ⟨t', hs', ht⟩
    exact ⟨trivial, t', hs', hR.1.of_step hs, ht⟩
  rcases hsim with ⟨σ', hrun', _, hstates⟩
  exact ⟨σ', hrun', hstates⟩

end Simulation

end Twin

end Doppelganger
