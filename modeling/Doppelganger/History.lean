import Doppelganger.Steps

/-!
# What the histories determine

Two facts carry every result about a session: a drawn id is used by one
transaction, and the script lets one call win. So a session has one *creation* and
at most one *winner*, and everything the server holds or says about it can be
read off these two:

* the hash is the one written at the creation, with the winner's fields over it;
* its deadline is the instant of the creation plus the time to live, if the store accepted it;
* the messages published are those of the winners;
* a verify request is answered its own outcome, or an error.

`Inv` says this, `inv_of_reach` proves it for every run, lost replies included.
-/

open Text Redis

namespace Doppelganger

/-! ## Creations and winners -/

/-- The hash a session was created with. -/
def Creation.session (c : Creation) : Session :=
  SessionStore.newSession c.form c.embedding c.createdAt

/-- The hash of a session, once `winner` finalized it. -/
def Creation.fields (env : Env) (c : Creation) : Option Commit → Session
  | none => c.session
  | some k => c.session.write (updates env k.form k.score)

/-- When the hash dies: `EXPIRE` was issued at the creation, or refused there. -/
def Creation.deadline? (env : Env) (c : Creation) : Option ℕ :=
  Redis.deadline? c.instant env.sessionTtlSeconds

def Creation.entry (env : Env) (c : Creation) (winner : Option Commit) : Entry Field :=
  ⟨c.fields env winner, c.deadline? env⟩

/-- The message a winner published. -/
def Commit.message (env : Env) (k : Commit) : Message :=
  ⟨channel k.sid, (event env k.form k.score).dumps⟩

/-- What a winner is answered. -/
def Creation.response (env : Env) (c : Creation) (k : Commit) : Response :=
  if passed env k.score then passResponse k.score c.form.alicePubkeyJwk else failResponse k.score

/-- The call that finalized session `sid`, if one did. -/
def State.winner (σ : State) (sid : Str) : Option Commit :=
  σ.commits.find? fun k => k.sid = sid

section
variable (env : Env) (c : Creation) (k : Commit)

@[simp] theorem Creation.fields_none : c.fields env none = c.session := rfl

@[simp] theorem Creation.session_phase : c.session .phase = some waitingForBob := rfl

@[simp] theorem Creation.session_alicePubkeyJwk :
    c.session .alicePubkeyJwk = some c.form.alicePubkeyJwk.dumps := rfl

theorem Creation.fields_some_phase :
    c.fields env (some k) .phase = some (if passed env k.score then verified else failed) := by
  by_cases hp : passed env k.score = true <;> simp [Creation.fields, updates, hp, Hash.write]

/-- A session waits for Bob exactly as long as it has no winner. -/
theorem Creation.fields_phase_iff {winner : Option Commit} :
    c.fields env winner .phase = some waitingForBob ↔ winner = none := by
  cases winner with
  | none => simp
  | some k =>
    have hv := verified_ne_waiting
    have hf := failed_ne_waiting
    rw [Creation.fields_some_phase]
    split_ifs <;> simp [hv, hf]

/-- A session holds all nine fields, before and after its outcome. -/
theorem Creation.fields_full (winner : Option Commit) (f : Field) :
    (c.fields env winner f).isSome = true := by
  cases winner with
  | none => exact SessionStore.newSession_full _ _ _ f
  | some k =>
    have hfull := SessionStore.newSession_full c.form c.embedding c.createdAt f
    by_cases hp : passed env k.score = true <;> cases f <;>
      simp [Creation.fields, Creation.session, updates, hp, Hash.write, hfull]

end

/-- The answer to the winner is the outcome it wrote. -/
theorem verifyResponse_won (env : Env) (c : Creation) (k : Commit) :
    verifyResponse env c.session k.score .won = .ok (c.response env k) := by
  by_cases hp : passed env k.score = true
  · simp [verifyResponse, Creation.response, hp, field, bind, Except.bind]
  · simp [verifyResponse, Creation.response, hp]

/-- Scoring against a new session does not miss its embedding. -/
theorem scoreOf_session_ne_keyError (env : Env) (c : Creation) (bob : Json) :
    scoreOf env c.session bob ≠ .error .keyError := by
  simp only [scoreOf, Creation.session, field, SessionStore.newSession_answerEmbedding, bind,
    Except.bind, Json.loads_dumps]
  cases env.cosineSimilarity c.embedding bob <;> simp

/-! ## The invariant -/

/-- What the handler has made of its request so far. -/
def Handler.response? : Handler → Option Response
  | .replying result => some (answerOf result)
  | .done response => some response
  | _ => none

theorem Command.response?_eq_none {env : Env} {r : ℕ} {db : Store} {hd hd' : Handler}
    {effect : Effect} (h : Command env r db hd effect hd') : hd.response? = none := by
  cases h <;> rfl

/-- An answer is never changed. -/
theorem response_of_step {env : Env} {l : Label} {σ σ' : State} (h : step env l σ = some σ') {r : ℕ}
    {req : Req} (hreq : σ.reqs r = some req) {response : Response}
    (hresp : req.handler.response? = some response) :
    ∃ handler, σ'.reqs r = some { req with handler } ∧ handler.response? = some response := by
  rcases handlerStep_of_step h hreq with ⟨handler, hreq', rfl | hstep⟩
  · exact ⟨_, hreq', hresp⟩
  · -- only a reply that is sent goes on
    rcases req with ⟨q, hd⟩
    cases hstep with
    | embedded result _ _ hembed => cases hembed <;> simp [Handler.response?] at hresp
    | named form v sid => simp [Handler.response?] at hresp
    | notNamed form v sid => simp [Handler.response?] at hresp
    | executed _ effect _ hcmd => simp [hcmd.response?_eq_none] at hresp
    | failed fault _ effect _ _ hcmd => simp [hcmd.response?_eq_none] at hresp
    | answered result => exact ⟨_, hreq', hresp⟩

/-- `σ'` comes after `σ`: histories have grown, requests and answers are the same. -/
structure State.Later (σ σ' : State) : Prop where
  creations : σ.creations <+: σ'.creations
  commits : σ.commits <+: σ'.commits
  published : σ.published <+: σ'.published
  request : ∀ r q, σ.request? r = some q → σ'.request? r = some q
  answer : ∀ r response, σ.answer? r = some response → σ'.answer? r = some response

theorem later_of_step {env : Env} {l : Label} {σ σ' : State} (h : step env l σ = some σ') :
    σ.Later σ' := by
  rcases histories_of_step h with ⟨hcreations, hcommits, hpublished⟩
  refine ⟨hcreations, hcommits, hpublished, ?_, ?_⟩
  · intro r q hq
    rcases (State.request?_eq_some _).mp hq with ⟨handler, hreq⟩
    rcases request_of_step h hreq with ⟨handler', hreq'⟩
    exact (State.request?_eq_some _).mpr ⟨handler', hreq'⟩
  · intro r response hans
    rcases (State.answer?_eq_some _).mp hans with ⟨q, hreq⟩
    rcases handlerStep_of_step h hreq with ⟨handler, hreq', rfl | hstep⟩
    · exact (State.answer?_eq_some _).mpr ⟨q, hreq'⟩
    · -- a request that was answered takes no further step
      cases hstep with
      | embedded result _ _ hembed => cases hembed
      | executed _ effect _ hcmd => cases hcmd
      | failed fault _ effect _ _ hcmd => cases hcmd

theorem State.Later.refl (σ : State) : σ.Later σ :=
  ⟨List.prefix_rfl, List.prefix_rfl, List.prefix_rfl, fun _ _ => id, fun _ _ => id⟩

theorem State.Later.trans {σ τ υ : State} (h₁ : σ.Later τ) (h₂ : τ.Later υ) : σ.Later υ :=
  ⟨h₁.creations.trans h₂.creations, h₁.commits.trans h₂.commits, h₁.published.trans h₂.published,
    fun r q h => h₂.request r q (h₁.request r q h), fun r a h => h₂.answer r a (h₁.answer r a h)⟩

theorem later_of_run {env : Env} {ok : Lts.Guard State Label} {ls : List Label} {σ σ' : State}
    (h : (server env).Run ok σ ls σ') : σ.Later σ' :=
  h.chain State.Later.refl (fun _ _ _ => State.Later.trans) fun _ _ _ _ => later_of_step

section Arrivals

variable {env : Env} {ok : Lts.Guard State Label} {ls : List Label} {σ σ' : State}

/-- A request that is there arrived before the run or in it. -/
theorem requested_of_run (h : (server env).Run ok σ ls σ') {r : ℕ} {q : Request}
    (hq : σ'.request? r = some q) :
    σ.request? r = some q ∨ ∃ limited, .request r q limited ∈ ls := by
  induction h with
  | nil σ => exact Or.inl hq
  | @cons σ τ σ' l ls _ hs _ ih =>
    replace hs : step env l σ = some τ := hs
    rcases ih hq with hτ | ⟨limited, hmem⟩
    · by_cases hr : l.req? = some r
      · cases hσ : σ.request? r with
        | some q₀ =>
          rw [(later_of_step hs).request r q₀ hσ] at hτ
          exact Or.inl hτ
        | none =>
          -- only an arrival is a step of a request that is not there
          have hnone : σ.reqs r = none := by simpa [State.request?] using hσ
          cases l with
          | request r' q' limited =>
            obtain rfl := Option.some.inj hr
            rcases step_request hs with ⟨_, rfl⟩
            obtain rfl : q' = q := by simpa [State.request?] using hτ
            exact Or.inr ⟨limited, List.mem_cons_self⟩
          | embed r' result =>
            rcases step_embed hs with ⟨_, _, hreq, _⟩
            obtain rfl := Option.some.inj hr
            simp [hnone] at hreq
          | name r' sid =>
            rcases step_name hs with ⟨_, _, hreq, _⟩
            obtain rfl := Option.some.inj hr
            simp [hnone] at hreq
          | redis r' fault =>
            rcases step_redis hs with ⟨_, _, _, hreq, _⟩
            obtain rfl := Option.some.inj hr
            simp [hnone] at hreq
          | answer r' =>
            rcases step_answer hs with ⟨_, _, hreq, _⟩
            obtain rfl := Option.some.inj hr
            simp [hnone] at hreq
          | _ => cases hr
      · left
        rwa [State.request?, reqs_of_step_ne hs hr] at hτ
    · exact Or.inr ⟨limited, List.mem_cons_of_mem _ hmem⟩

/-- A request that arrived in the run is there after it. -/
theorem request_of_mem (h : (server env).Run ok σ ls σ') {r : ℕ} {q : Request} {limited : Bool}
    (hmem : .request r q limited ∈ ls) : σ'.request? r = some q := by
  rcases List.append_of_mem hmem with ⟨ls₁, ls₂, rfl⟩
  rcases h.split with ⟨τ, _, hrun⟩
  rcases Lts.run_cons_iff.mp hrun with ⟨_, τ', hs, hrest⟩
  replace hs : step env (.request r q limited) τ = some τ' := hs
  rcases step_request hs with ⟨_, rfl⟩
  exact (later_of_run hrest).request r q (by simp [State.request?])

end Arrivals

/-- Only a script that wins adds to the commits or publishes; this is all it does. -/
theorem win_of_step {env : Env} {l : Label} {σ σ' : State} (h : step env l σ = some σ') :
    (σ'.commits = σ.commits ∧ σ'.published = σ.published) ∨
    ∃ k fault q session bob e, l = .redis k.req fault ∧ fault ≠ .before ∧
      σ.reqs k.req = some ⟨q, .finalizing k.sid k.form session bob k.score⟩ ∧
      σ.store.db (key k.sid) = some e ∧ e.fields .phase = some waitingForBob ∧
      σ' = (σ.apply
        { store := σ.store.put (key k.sid)
            (some { e with fields := e.fields.write (updates env k.form k.score) }),
          published := [k.message env], committed := some k }).setReq k.req
        ⟨q, .replying (if fault = .none then verifyResponse env session k.score .won
          else .error .redisError)⟩ := by
  cases l with
  | request _ _ _ | embed _ _ | name _ _ | answer _ =>
    have hdata := sameData_of_step rfl h
    exact Or.inl ⟨hdata.commits, hdata.published⟩
  | tick d =>
    obtain rfl := step_tick h
    exact Or.inl ⟨rfl, rfl⟩
  | redis r fault =>
    rcases step_redis h with ⟨⟨q, old⟩, effect, handler, hreq, hcmd, hcases⟩
    cases command_of_redis hcmd with
    | won sid form session bob score e hdb hphase =>
      rcases hcases with ⟨rfl, rfl⟩ | ⟨rfl, rfl⟩ | ⟨rfl, rfl⟩
      · exact Or.inr ⟨⟨r, sid, form, score⟩, .none, q, session, bob, e, rfl, by simp, hreq, hdb,
          hphase, rfl⟩
      · exact Or.inl ⟨rfl, rfl⟩
      · exact Or.inr ⟨⟨r, sid, form, score⟩, .after, q, session, bob, e, rfl, by simp, hreq, hdb,
          hphase, rfl⟩
    | _ =>
      left
      rcases hcases with ⟨_, rfl⟩ | ⟨_, rfl⟩ | ⟨_, rfl⟩ <;> simp
  | _ =>
    have hcore := sameCore_of_step rfl h
    exact Or.inl ⟨hcore.commits, hcore.published⟩

/-- A verify request is answered the outcome it committed, or an error. -/
def AnswerOk (env : Env) (σ : State) (r : ℕ) : Request → Response → Prop
  | .verify sid _, response =>
    (∃ k ∈ σ.commits, k.req = r ∧ k.sid = sid ∧
      ∃ c ∈ σ.creations, c.sid = sid ∧ response = c.response env k) ∨ response.isError
  | _, _ => True

/-- `session` is the hash some session `sid` was created with. -/
def Snapshot (σ : State) (sid : Str) (session : Session) : Prop :=
  ∃ c ∈ σ.creations, c.sid = sid ∧ session = c.session

/-- What a handler of request `q` knows at each point. -/
def HandlerOk (env : Env) (σ : State) (r : ℕ) (q : Request) : Handler → Prop
  | .embedding form => ∃ body, q = .create body ∧ AcceptsCreate body form
  | .naming form _ => ∃ body, q = .create body ∧ AcceptsCreate body form
  | .creating form _ sid _ => (∃ body, q = .create body ∧ AcceptsCreate body form) ∧ sid ∈ σ.ids
  | .reading sid => q = .get sid
  | .loading sid form => ∃ body, q = .verify sid body ∧ AcceptsVerify body form
  | .scoring sid form session =>
    (∃ body, q = .verify sid body ∧ AcceptsVerify body form) ∧ Snapshot σ sid session
  | .finalizing sid form session bob score =>
    (∃ body, q = .verify sid body ∧ AcceptsVerify body form) ∧ Snapshot σ sid session ∧
      scoreOf env session bob = .ok score
  | .deleting sid => q = .delete sid
  | .replying result => result ≠ .error .keyError ∧ AnswerOk env σ r q (answerOf result)
  | .done response => AnswerOk env σ r q response

/-- The invariant of the request side. -/
structure Inv (env : Env) (σ : State) : Prop where
  /-- A transaction uses an id that was drawn. -/
  named : ∀ c ∈ σ.creations, c.sid ∈ σ.ids
  /-- An id in a prepared transaction is not used yet. -/
  fresh : ∀ r q form v sid at', σ.reqs r = some ⟨q, .creating form v sid at'⟩ →
    ∀ c ∈ σ.creations, c.sid ≠ sid
  /-- No two prepared transactions have the same id. -/
  sole : ∀ r r' q q' form form' v v' sid at' at'',
    σ.reqs r = some ⟨q, .creating form v sid at'⟩ →
    σ.reqs r' = some ⟨q', .creating form' v' sid at''⟩ → r = r'
  created_once : (σ.creations.map Creation.sid).Nodup
  committed_once : (σ.commits.map Commit.sid).Nodup
  /-- What is stored is what creation and winner say. -/
  stored : ∀ k e, σ.store.db k = some e →
    ∃ c ∈ σ.creations, k = key c.sid ∧ e = c.entry env (σ.winner c.sid)
  live : ∀ k e t, σ.store.db k = some e → e.expiresAt = some t → σ.store.now < t
  past : ∀ c ∈ σ.creations, c.instant ≤ σ.store.now
  creator : ∀ c ∈ σ.creations, ∃ body handler, σ.reqs c.req = some ⟨.create body, handler⟩ ∧
    AcceptsCreate body c.form ∧ handler.response? ≠ none
  committer : ∀ k ∈ σ.commits, ∃ body handler c response,
    σ.reqs k.req = some ⟨.verify k.sid body, handler⟩ ∧ AcceptsVerify body k.form ∧
    c ∈ σ.creations ∧ c.sid = k.sid ∧ handler.response? = some response ∧
    (response = c.response env k ∨ response = storeUnavailable)
  handlers : ∀ r req, σ.reqs r = some req → HandlerOk env σ r req.request req.handler
  announced : σ.published = σ.commits.map (Commit.message env)

section Uses

variable {env : Env} {σ : State}

theorem mem_of_winner {sid : Str} {k : Commit} (h : σ.winner sid = some k) :
    k ∈ σ.commits ∧ k.sid = sid :=
  ⟨List.mem_of_find?_eq_some h, by simpa using List.find?_some h⟩

theorem winner_eq_none_iff {sid : Str} : σ.winner sid = none ↔ ∀ k ∈ σ.commits, k.sid ≠ sid := by
  simp [State.winner]

namespace Inv

/-- Two creations of one session are the same. -/
theorem creation_unique (hi : Inv env σ) {c c' : Creation} (hc : c ∈ σ.creations)
    (hc' : c' ∈ σ.creations) (h : c.sid = c'.sid) : c = c' :=
  List.inj_on_of_nodup_map hi.created_once hc hc' h

/-- Two winners of one session are the same. -/
theorem commit_unique (hi : Inv env σ) {k k' : Commit} (hk : k ∈ σ.commits)
    (hk' : k' ∈ σ.commits) (h : k.sid = k'.sid) : k = k' :=
  List.inj_on_of_nodup_map hi.committed_once hk hk' h

theorem winner_of_mem (hi : Inv env σ) {k : Commit} (hk : k ∈ σ.commits) :
    σ.winner k.sid = some k := by
  cases hw : σ.winner k.sid with
  | none => exact absurd rfl (winner_eq_none_iff.mp hw k hk)
  | some k' =>
    rcases mem_of_winner hw with ⟨hk', hs⟩
    rw [hi.commit_unique hk' hk hs]

/-- The entry of a session, by its id. -/
theorem entry_of_stored (hi : Inv env σ) {sid : Str} {e : Entry Field}
    (h : σ.store.db (key sid) = some e) :
    ∃ c ∈ σ.creations, c.sid = sid ∧ e = c.entry env (σ.winner sid) := by
  rcases hi.stored _ e h with ⟨c, hc, hk, he⟩
  obtain rfl := key_injective hk
  exact ⟨c, hc, rfl, he⟩

/-- A stored session waits for Bob exactly when nobody finalized it. -/
theorem waiting_iff (hi : Inv env σ) {sid : Str} {e : Entry Field}
    (h : σ.store.db (key sid) = some e) :
    e.fields .phase = some waitingForBob ↔ σ.winner sid = none := by
  rcases hi.entry_of_stored h with ⟨c, _, _, rfl⟩
  exact c.fields_phase_iff env

/-- The id of a prepared transaction has no hash. -/
theorem absent_of_creating (hi : Inv env σ) {r : ℕ} {q : Request} {form : CreateForm} {v : Json}
    {sid createdAt : Str} (h : σ.reqs r = some ⟨q, .creating form v sid createdAt⟩) :
    σ.store.db (key sid) = none := by
  cases hdb : σ.store.db (key sid) with
  | none => rfl
  | some e =>
    rcases hi.entry_of_stored hdb with ⟨c, hc, hs, _⟩
    exact absurd hs (hi.fresh _ _ _ _ _ _ h c hc)

end Inv

end Uses

/-! ## Preservation -/

section Preservation

variable {env : Env} {σ : State}

theorem AnswerOk.mono {σ' : State} {r : ℕ} {q : Request} {response : Response}
    (hc : ∀ c ∈ σ.creations, c ∈ σ'.creations) (hk : ∀ k ∈ σ.commits, k ∈ σ'.commits)
    (h : AnswerOk env σ r q response) : AnswerOk env σ' r q response := by
  cases q with
  | verify sid body =>
    rcases h with ⟨k, hkm, hr, hs, c, hcm, hcs, he⟩ | h
    · exact Or.inl ⟨k, hk k hkm, hr, hs, c, hc c hcm, hcs, he⟩
    · exact Or.inr h
  | _ => trivial

theorem Snapshot.mono {σ' : State} {sid : Str} {session : Session}
    (hc : ∀ c ∈ σ.creations, c ∈ σ'.creations) (h : Snapshot σ sid session) :
    Snapshot σ' sid session := by
  rcases h with ⟨c, hcm, hs, he⟩
  exact ⟨c, hc c hcm, hs, he⟩

/-- What a handler knows stays true while the histories grow. -/
theorem HandlerOk.mono {σ' : State} {r : ℕ} {q : Request} {handler : Handler}
    (h : HandlerOk env σ r q handler) (hids : ∀ sid ∈ σ.ids, sid ∈ σ'.ids)
    (hc : ∀ c ∈ σ.creations, c ∈ σ'.creations) (hk : ∀ k ∈ σ.commits, k ∈ σ'.commits) :
    HandlerOk env σ' r q handler := by
  cases handler with
  | creating form v sid createdAt => exact ⟨h.1, hids _ h.2⟩
  | scoring sid form session => exact ⟨h.1, h.2.mono hc⟩
  | finalizing sid form session bob score => exact ⟨h.1, h.2.1.mono hc, h.2.2⟩
  | replying result => exact ⟨h.1, h.2.mono hc hk⟩
  | done response => exact AnswerOk.mono hc hk h
  | _ => exact h

/-- A handler that is not about to run a create transaction. -/
def Handler.NotCreating (handler : Handler) : Prop :=
  ∀ form v sid createdAt, handler ≠ .creating form v sid createdAt

/-- A transaction that is prepared after request `r` has moved on was prepared before. -/
theorem creating_of_setReq {r r' : ℕ} {req : Req} (hnot : req.handler.NotCreating) {q : Request}
    {form : CreateForm} {v : Json} {sid createdAt : Str}
    (h : (σ.setReq r req).reqs r' = some ⟨q, .creating form v sid createdAt⟩) :
    r' ≠ r ∧ σ.reqs r' = some ⟨q, .creating form v sid createdAt⟩ := by
  have hr : r' ≠ r := by
    rintro rfl
    rw [State.setReq_reqs_self] at h
    obtain rfl := Option.some.inj h
    exact hnot form v sid createdAt rfl
  rw [State.setReq_reqs_ne _ hr] at h
  exact ⟨hr, h⟩

namespace Inv

theorem init : Inv env State.init where
  named := by simp [State.init]
  fresh := by simp [State.init]
  sole := by simp [State.init]
  created_once := by simp [State.init]
  committed_once := by simp [State.init]
  stored := by simp [State.init, Server.init]
  live := by simp [State.init, Server.init]
  past := by simp [State.init]
  creator := by simp [State.init]
  committer := by simp [State.init]
  handlers := by simp [State.init]
  announced := by simp [State.init]

/-- Steps of streams and listeners. -/
theorem of_sameCore {σ' : State} (hi : Inv env σ) (h : σ.SameCore σ') : Inv env σ' where
  named := by rw [h.creations, h.ids]; exact hi.named
  fresh := by rw [h.creations, h.reqs]; exact hi.fresh
  sole := by rw [h.reqs]; exact hi.sole
  created_once := by rw [h.creations]; exact hi.created_once
  committed_once := by rw [h.commits]; exact hi.committed_once
  stored := by
    have hw : σ'.winner = σ.winner := by funext sid; simp [State.winner, h.commits]
    rw [h.creations, h.store, hw]
    exact hi.stored
  live := by rw [h.store]; exact hi.live
  past := by rw [h.creations, h.store]; exact hi.past
  creator := by rw [h.creations, h.reqs]; exact hi.creator
  committer := by rw [h.creations, h.reqs, h.commits]; exact hi.committer
  handlers := by
    rw [h.reqs]
    intro r req hr
    refine (hi.handlers r req hr).mono ?_ ?_ ?_
    · rw [h.ids]; exact fun _ => id
    · rw [h.creations]; exact fun _ => id
    · rw [h.commits]; exact fun _ => id
  announced := by rw [h.published, h.commits]; exact hi.announced

/-- Hashes disappear and time passes. -/
theorem withStore (hi : Inv env σ) {store : Store} (hnow : σ.store.now ≤ store.now)
    (hsub : ∀ k e, store.db k = some e → σ.store.db k = some e)
    (hlive : ∀ k e t, store.db k = some e → e.expiresAt = some t → store.now < t) :
    Inv env { σ with store } where
  named := hi.named
  fresh := hi.fresh
  sole := hi.sole
  created_once := hi.created_once
  committed_once := hi.committed_once
  stored := fun k e h => hi.stored k e (hsub k e h)
  live := hlive
  past := fun c hc => (hi.past c hc).trans hnow
  creator := hi.creator
  committer := hi.committer
  handlers := fun r req hr => (hi.handlers r req hr).mono (fun _ => id) (fun _ => id) (fun _ => id)
  announced := hi.announced

/-- A handler moves on, no command is executed. -/
theorem setReq (hi : Inv env σ) {r : ℕ} {req : Req}
    (hok : HandlerOk env σ r req.request req.handler) (hnot : req.handler.NotCreating)
    (hkeep : ∀ old, σ.reqs r = some old → req.request = old.request ∧
      ∀ response, old.handler.response? = some response →
        req.handler.response? = some response) :
    Inv env (σ.setReq r req) where
  named := hi.named
  fresh := fun _ _ _ _ _ _ h => hi.fresh _ _ _ _ _ _ (creating_of_setReq hnot h).2
  sole := fun _ _ _ _ _ _ _ _ _ _ _ h₁ h₂ => hi.sole _ _ _ _ _ _ _ _ _ _ _
    (creating_of_setReq hnot h₁).2 (creating_of_setReq hnot h₂).2
  created_once := hi.created_once
  committed_once := hi.committed_once
  stored := hi.stored
  live := hi.live
  past := hi.past
  creator := by
    intro c hc
    rcases hi.creator c hc with ⟨body, handler, hreq, hacc, hresp⟩
    by_cases hr : c.req = r
    · rcases hkeep _ (hr ▸ hreq) with ⟨hq, hk⟩
      rcases Option.ne_none_iff_exists'.mp hresp with ⟨response, hresp⟩
      refine ⟨body, req.handler, ?_, hacc, by simp [hk _ hresp]⟩
      rw [hr, State.setReq_reqs_self]
      exact congrArg some (Req.ext hq rfl)
    · exact ⟨body, handler, by rw [State.setReq_reqs_ne _ hr, hreq], hacc, hresp⟩
  committer := by
    intro k hkm
    rcases hi.committer k hkm with ⟨body, handler, c, response, hreq, hacc, hc, hs, hresp, he⟩
    by_cases hr : k.req = r
    · rcases hkeep _ (hr ▸ hreq) with ⟨hq, hk⟩
      refine ⟨body, req.handler, c, response, ?_, hacc, hc, hs, hk _ hresp, he⟩
      rw [hr, State.setReq_reqs_self]
      exact congrArg some (Req.ext hq rfl)
    · exact ⟨body, handler, c, response, by rw [State.setReq_reqs_ne _ hr, hreq], hacc, hc, hs,
        hresp, he⟩
  handlers := by
    intro r' req' h
    by_cases hr : r' = r
    · subst hr
      rw [State.setReq_reqs_self] at h
      obtain rfl := Option.some.inj h
      exact hok.mono (fun _ => id) (fun _ => id) (fun _ => id)
    · rw [State.setReq_reqs_ne _ hr] at h
      exact (hi.handlers r' req' h).mono (fun _ => id) (fun _ => id) (fun _ => id)
  announced := hi.announced

/-- A request that has not been answered has created nothing. -/
theorem creation_req_ne (hi : Inv env σ) {r : ℕ} {req : Req} (hreq : σ.reqs r = some req)
    (hnone : req.handler.response? = none) {c : Creation} (hc : c ∈ σ.creations) : c.req ≠ r := by
  rintro rfl
  rcases hi.creator c hc with ⟨body, handler, hreq', _, hresp⟩
  obtain rfl := Option.some.inj (hreq.symm.trans hreq')
  exact hresp hnone

/-- A request that has not been answered has finalized nothing. -/
theorem commit_req_ne (hi : Inv env σ) {r : ℕ} {req : Req} (hreq : σ.reqs r = some req)
    (hnone : req.handler.response? = none) {k : Commit} (hk : k ∈ σ.commits) : k.req ≠ r := by
  rintro rfl
  rcases hi.committer k hk with ⟨body, handler, c, response, hreq', _, _, _, hresp, _⟩
  obtain rfl := Option.some.inj (hreq.symm.trans hreq')
  simp [hnone] at hresp

/-- A session id is drawn. -/
theorem name (hi : Inv env σ) {r : ℕ} {req : Req} {handler : Handler} {sid : Str}
    (hreq : σ.reqs r = some req) (hstep : req.handler.name σ.store.now sid = some handler)
    (hsid : sid ∉ σ.ids) :
    Inv env { σ.setReq r { req with handler } with ids := sid :: σ.ids } := by
  rcases req with ⟨q, old⟩
  rcases name_cases hstep with ⟨form, v, rfl, hcases⟩
  have hbody := hi.handlers r _ hreq
  have hnone : (Handler.naming form v).response? = none := rfl
  have hids : ∀ sid' ∈ σ.ids, sid' ∈ sid :: σ.ids := fun _ => List.mem_cons_of_mem _
  -- an id that is not drawn yet has no session
  have hunused : ∀ c ∈ σ.creations, c.sid ≠ sid := by
    rintro c hc rfl
    exact hsid (hi.named c hc)
  -- another request's prepared id was drawn before
  have hother : ∀ r' q' form' v' at', r' ≠ r →
      σ.reqs r' ≠ some ⟨q', .creating form' v' sid at'⟩ := fun r' q' form' v' at' _ h =>
    hsid (hi.handlers r' _ h).2
  refine
    { named := fun c hc => hids _ (hi.named c hc)
      fresh := ?_
      sole := ?_
      created_once := hi.created_once
      committed_once := hi.committed_once
      stored := hi.stored
      live := hi.live
      past := hi.past
      creator := ?_
      committer := ?_
      handlers := ?_
      announced := hi.announced }
  · intro r' q' form' v' sid' at' h
    by_cases hr : r' = r
    · subst hr
      rw [State.setReq_reqs_self] at h
      rcases hcases with rfl | ⟨_, rfl⟩
      · cases h
        exact hunused
      · cases h
    · rw [State.setReq_reqs_ne _ hr] at h
      exact hi.fresh _ _ _ _ _ _ h
  · intro r₁ r₂ q₁ q₂ form₁ form₂ v₁ v₂ sid' at₁ at₂ h₁ h₂
    rcases hcases with rfl | ⟨_, rfl⟩
    · by_cases hr₁ : r₁ = r <;> by_cases hr₂ : r₂ = r
      · rw [hr₁, hr₂]
      · rw [hr₁, State.setReq_reqs_self] at h₁
        rw [State.setReq_reqs_ne _ hr₂] at h₂
        cases h₁
        exact absurd h₂ (hother _ _ _ _ _ hr₂)
      · rw [State.setReq_reqs_ne _ hr₁] at h₁
        rw [hr₂, State.setReq_reqs_self] at h₂
        cases h₂
        exact absurd h₁ (hother _ _ _ _ _ hr₁)
      · rw [State.setReq_reqs_ne _ hr₁] at h₁
        rw [State.setReq_reqs_ne _ hr₂] at h₂
        exact hi.sole _ _ _ _ _ _ _ _ _ _ _ h₁ h₂
    · have hnot : (Handler.replying (.error .unicodeError)).NotCreating := by
        simp [Handler.NotCreating]
      exact hi.sole _ _ _ _ _ _ _ _ _ _ _ (creating_of_setReq hnot h₁).2
        (creating_of_setReq hnot h₂).2
  · intro c hc
    rcases hi.creator c hc with ⟨body, handler', hreq', hacc, hresp⟩
    have hr := hi.creation_req_ne hreq hnone hc
    exact ⟨body, handler', by rw [State.setReq_reqs_ne _ hr, hreq'], hacc, hresp⟩
  · intro k hk
    rcases hi.committer k hk with ⟨body, handler', c, response, hreq', hrest⟩
    have hr := hi.commit_req_ne hreq hnone hk
    exact ⟨body, handler', c, response, by rw [State.setReq_reqs_ne _ hr, hreq'], hrest⟩
  · intro r' req' h
    by_cases hr : r' = r
    · subst hr
      rw [State.setReq_reqs_self] at h
      obtain rfl := Option.some.inj h
      rcases hcases with rfl | ⟨_, rfl⟩
      · exact ⟨hbody, List.mem_cons_self⟩
      · rcases hbody with ⟨body, rfl, _⟩
        exact ⟨by simp, trivial⟩
    · rw [State.setReq_reqs_ne _ hr] at h
      exact (hi.handlers r' req' h).mono hids (fun _ => id) (fun _ => id)

/-- A create transaction is executed. -/
theorem create (hi : Inv env σ) {r : ℕ} {q : Request} {form : CreateForm} {v : Json}
    {sid createdAt : Str} (hreq : σ.reqs r = some ⟨q, .creating form v sid createdAt⟩)
    {result : Result} (hresult : result ≠ .error .keyError) :
    Inv env ((σ.apply
      { store := (SessionStore.create σ.store sid form v createdAt env.sessionTtlSeconds).1,
        created := some ⟨r, sid, form, v, createdAt, σ.store.now⟩ }).setReq r
      ⟨q, .replying result⟩) := by
  have habsent := hi.absent_of_creating hreq
  have hunused := hi.fresh _ _ _ _ _ _ hreq
  rcases hi.handlers r _ hreq with ⟨⟨body, rfl, hacc⟩, hnamed⟩
  have hnone : (Handler.creating form v sid createdAt).response? = none := rfl
  have hnot : (Handler.replying result).NotCreating := by simp [Handler.NotCreating]
  have hgrow : ∀ c ∈ σ.creations,
      c ∈ σ.creations ++ [⟨r, sid, form, v, createdAt, σ.store.now⟩] :=
    fun c hc => List.mem_append_left _ hc
  have hwinner : σ.winner sid = none := by
    refine winner_eq_none_iff.mpr ?_
    intro k hk hs
    rcases hi.committer k hk with ⟨_, _, c, _, _, _, hc, hcs, _⟩
    exact hunused c hc (hcs.trans hs)
  refine
    { named := ?_
      fresh := ?_
      sole := ?_
      created_once := ?_
      committed_once := by simpa using hi.committed_once
      stored := ?_
      live := ?_
      past := ?_
      creator := ?_
      committer := ?_
      handlers := ?_
      announced := by simpa using hi.announced }
  · intro c hc
    rcases List.mem_append.mp hc with hc | hc
    · exact hi.named c hc
    · obtain rfl := List.mem_singleton.mp hc
      exact hnamed
  · intro r' q' form' v' sid' at' h c hc
    rcases creating_of_setReq hnot h with ⟨hr, h⟩
    rcases List.mem_append.mp hc with hc | hc
    · exact hi.fresh _ _ _ _ _ _ h c hc
    · -- two prepared transactions do not share an id
      obtain rfl := List.mem_singleton.mp hc
      rintro rfl
      exact hr (hi.sole _ _ _ _ _ _ _ _ _ _ _ h hreq)
  · intro r₁ r₂ q₁ q₂ form₁ form₂ v₁ v₂ sid' at₁ at₂ h₁ h₂
    exact hi.sole _ _ _ _ _ _ _ _ _ _ _ (creating_of_setReq hnot h₁).2
      (creating_of_setReq hnot h₂).2
  · have hnew : sid ∉ σ.creations.map Creation.sid := by
      intro h
      rcases List.mem_map.mp h with ⟨c, hc, hs⟩
      exact hunused c hc hs
    simpa [List.nodup_append, hi.created_once] using fun c hc h => hunused c hc h
  · intro k e h
    simp only [State.setReq_store, State.apply_store, SessionStore.create_of_absent habsent] at h
    have hwin : ∀ s, ((σ.apply
        { store := (SessionStore.create σ.store sid form v createdAt env.sessionTtlSeconds).1,
          created := some ⟨r, sid, form, v, createdAt, σ.store.now⟩ }).setReq r
        ⟨.create body, .replying result⟩).winner s = σ.winner s := by
      intro s
      simp [State.winner]
    by_cases hk : k = key sid
    · subst hk
      rw [Server.put_db_self] at h
      obtain rfl := SessionStore.createdEntry_eq_some h
      refine ⟨⟨r, sid, form, v, createdAt, σ.store.now⟩, by simp, rfl, ?_⟩
      rw [hwin, hwinner]
      rfl
    · rw [Server.put_db_ne hk] at h
      rcases hi.stored k e h with ⟨c, hc, hk', he⟩
      exact ⟨c, hgrow c hc, hk', by rw [hwin, he]⟩
  · intro k e t h ht
    simp only [State.setReq_store, State.apply_store,
      SessionStore.create_of_absent habsent, Server.put_now] at h ⊢
    by_cases hk : k = key sid
    · subst hk
      rw [Server.put_db_self] at h
      exact SessionStore.live_of_createdEntry h ht
    · rw [Server.put_db_ne hk] at h
      exact hi.live k e t h ht
  · intro c hc
    simp only [State.setReq_store, State.apply_store,
      SessionStore.create_of_absent habsent, Server.put_now]
    rcases List.mem_append.mp hc with hc | hc
    · exact hi.past c hc
    · obtain rfl := List.mem_singleton.mp hc
      exact le_refl _
  · intro c hc
    rcases List.mem_append.mp hc with hc | hc
    · rcases hi.creator c hc with ⟨body', handler', hreq', hacc', hresp⟩
      have hr := hi.creation_req_ne hreq hnone hc
      exact ⟨body', handler', by rw [State.setReq_reqs_ne _ hr]; exact hreq', hacc', hresp⟩
    · obtain rfl := List.mem_singleton.mp hc
      exact ⟨body, .replying result, by simp, hacc, by simp [Handler.response?]⟩
  · intro k hk
    have hk : k ∈ σ.commits := by simpa using hk
    rcases hi.committer k hk with ⟨body', handler', c, response, hreq', hacc', hc, hrest⟩
    have hr := hi.commit_req_ne hreq hnone hk
    exact ⟨body', handler', c, response, by rw [State.setReq_reqs_ne _ hr]; exact hreq', hacc',
      hgrow c hc, hrest⟩
  · intro r' req' h
    by_cases hr : r' = r
    · subst hr
      rw [State.setReq_reqs_self] at h
      obtain rfl := Option.some.inj h
      exact ⟨hresult, trivial⟩
    · rw [State.setReq_reqs_ne _ hr] at h
      exact (hi.handlers r' req' h).mono (fun _ => id) hgrow
        (fun k hk => by simpa using hk)

/-- A finalize script wins. -/
theorem win (hi : Inv env σ) {r : ℕ} {q : Request} {form : VerifyForm} {session : Session}
    {bob : Json} {score : ℚ} {sid : Str} {e : Entry Field}
    (hreq : σ.reqs r = some ⟨q, .finalizing sid form session bob score⟩)
    (hdb : σ.store.db (key sid) = some e) (hphase : e.fields .phase = some waitingForBob)
    {result : Result}
    (hresult : result = verifyResponse env session score .won ∨ result = .error .redisError) :
    Inv env ((σ.apply
      { store := σ.store.put (key sid)
          (some { e with fields := e.fields.write (updates env form score) }),
        published := [⟨channel sid, (event env form score).dumps⟩],
        committed := some ⟨r, sid, form, score⟩ }).setReq r ⟨q, .replying result⟩) := by
  have hwinner : σ.winner sid = none := (hi.waiting_iff hdb).mp hphase
  rcases hi.entry_of_stored hdb with ⟨c, hc, hcs, he⟩
  rw [hwinner] at he
  rcases hi.handlers r _ hreq with ⟨⟨body, rfl, hacc⟩, ⟨c', hc', hcs', hsession⟩, _⟩
  obtain rfl := hi.creation_unique hc' hc (hcs'.trans hcs.symm)
  have hnone : (Handler.finalizing sid form session bob score).response? = none := rfl
  have hnot : (Handler.replying result).NotCreating := by simp [Handler.NotCreating]
  -- the phase is only WAITING_FOR_BOB while nobody has won
  have hfirst := winner_eq_none_iff.mp hwinner
  have hgrow : ∀ k ∈ σ.commits, k ∈ σ.commits ++ [⟨r, sid, form, score⟩] :=
    fun k hk => List.mem_append_left _ hk
  -- the answer to `r` is its outcome, or its reply was lost
  have hresponse : answerOf result = c'.response env ⟨r, sid, form, score⟩ ∨
      answerOf result = storeUnavailable := by
    rcases hresult with rfl | rfl
    · left
      have hwon := verifyResponse_won env c' ⟨r, sid, form, score⟩
      rw [hsession]
      exact congrArg answerOf hwon
    · exact Or.inr rfl
  -- the snapshot holds every member that is read
  have hnokey : result ≠ .error .keyError := by
    rcases hresult with rfl | rfl
    · have hwon := verifyResponse_won env c' ⟨r, sid, form, score⟩
      rw [hsession, hwon]
      simp
    · simp
  refine
    { named := by simpa using hi.named
      fresh := ?_
      sole := ?_
      created_once := by simpa using hi.created_once
      committed_once := ?_
      stored := ?_
      live := ?_
      past := by simpa using hi.past
      creator := ?_
      committer := ?_
      handlers := ?_
      announced := ?_ }
  · intro r' q' form' v' sid' at' h c hc
    exact hi.fresh _ _ _ _ _ _ (creating_of_setReq hnot h).2 c (by simpa using hc)
  · intro r₁ r₂ q₁ q₂ form₁ form₂ v₁ v₂ sid' at₁ at₂ h₁ h₂
    exact hi.sole _ _ _ _ _ _ _ _ _ _ _ (creating_of_setReq hnot h₁).2
      (creating_of_setReq hnot h₂).2
  -- nobody finalized this session before
  · simpa [List.nodup_append, hi.committed_once] using fun k hk h => hfirst k hk h
  · intro k e' h
    simp only [State.setReq_store, State.apply_store] at h
    by_cases hk : k = key sid
    · subst hk
      rw [Server.put_db_self] at h
      obtain rfl := Option.some.inj h
      refine ⟨c', by simpa using hc', by rw [hcs'], ?_⟩
      -- the new commit is the winner of this session
      have hwin : ((σ.apply
          { store := σ.store.put (key sid)
              (some { e with fields := e.fields.write (updates env form score) }),
            published := [⟨channel sid, (event env form score).dumps⟩],
            committed := some ⟨r, sid, form, score⟩ }).setReq r
          ⟨.verify sid body, .replying result⟩).winner c'.sid = some ⟨r, sid, form, score⟩ := by
        have hnot : σ.commits.find? (fun k => k.sid = sid) = none := hwinner
        simp [State.winner, List.find?_append, hcs', hnot]
      rw [hwin, he]
      rfl
    · rw [Server.put_db_ne hk] at h
      rcases hi.stored k e' h with ⟨c₁, hc₁, hk₁, he₁⟩
      -- of another session it is not
      have hne : sid ≠ c₁.sid := by
        rintro rfl
        exact hk hk₁
      refine ⟨c₁, by simpa using hc₁, hk₁, ?_⟩
      rw [he₁]
      simp [State.winner, List.find?_append, hne]
  · intro k e' t h ht
    simp only [State.setReq_store, State.apply_store, Server.put_now] at h ⊢
    by_cases hk : k = key sid
    · subst hk
      rw [Server.put_db_self] at h
      obtain rfl := Option.some.inj h
      exact hi.live _ e t hdb ht
    · rw [Server.put_db_ne hk] at h
      exact hi.live k e' t h ht
  · intro c₁ hc₁
    have hc₁ : c₁ ∈ σ.creations := by simpa using hc₁
    rcases hi.creator c₁ hc₁ with ⟨body', handler', hreq', hacc', hresp⟩
    have hr := hi.creation_req_ne hreq hnone hc₁
    exact ⟨body', handler', by rw [State.setReq_reqs_ne _ hr]; exact hreq', hacc', hresp⟩
  · intro k hk
    rcases List.mem_append.mp hk with hk | hk
    · rcases hi.committer k hk with ⟨body', handler', c₁, response, hreq', hacc', hc₁, hrest⟩
      have hr := hi.commit_req_ne hreq hnone hk
      exact ⟨body', handler', c₁, response, by rw [State.setReq_reqs_ne _ hr]; exact hreq', hacc',
        by simpa using hc₁, hrest⟩
    · obtain rfl := List.mem_singleton.mp hk
      exact ⟨body, .replying result, c', answerOf result, by simp, hacc, by simpa using hc', hcs',
        rfl, hresponse⟩
  · intro r' req' h
    by_cases hr : r' = r
    · subst hr
      rw [State.setReq_reqs_self] at h
      obtain rfl := Option.some.inj h
      refine ⟨hnokey, ?_⟩
      rcases hresponse with hresponse | hresponse
      · exact Or.inl ⟨⟨r', sid, form, score⟩, by simp, rfl, rfl, c', by simpa using hc', hcs',
          hresponse⟩
      · right
        rw [hresponse]
        decide
    · rw [State.setReq_reqs_ne _ hr] at h
      exact (hi.handlers r' req' h).mono (fun _ => id) (fun c hc => by simpa using hc) hgrow
  · simp [hi.announced, Commit.message]

/-- A command that neither creates nor finalizes a session is executed. -/
theorem quiet (hi : Inv env σ) {r : ℕ} {q : Request} {old handler : Handler} {store : Store}
    (hreq : σ.reqs r = some ⟨q, old⟩) (hnone : old.response? = none)
    (hok : HandlerOk env σ r q handler) (hnot : handler.NotCreating)
    (hstore : store = σ.store ∨ ∃ sid, store = SessionStore.delete σ.store sid) :
    Inv env ((σ.apply { store }).setReq r ⟨q, handler⟩) := by
  rw [State.apply_store_only]
  have hi' : Inv env { σ with store } := by
    rcases hstore with rfl | ⟨sid, rfl⟩
    · exact hi
    · have hsub : ∀ k e, (SessionStore.delete σ.store sid).db k = some e →
          σ.store.db k = some e := by
        intro k e h
        by_cases hk : k = key sid
        · subst hk
          simp [SessionStore.delete] at h
        · rwa [SessionStore.delete, Server.del_db_ne hk] at h
      exact hi.withStore (le_refl _) hsub fun k e t h ht => hi.live k e t (hsub k e h) ht
  refine hi'.setReq (hok.mono (fun _ => id) (fun _ => id) (fun _ => id)) hnot ?_
  intro old' h
  obtain rfl := Option.some.inj (hreq.symm.trans h)
  exact ⟨rfl, fun response hresp => by simp [hnone] at hresp⟩

/-- A stored session is answered in full. -/
theorem getResponse_ne_keyError (hi : Inv env σ) (sid : Str) :
    getResponse (SessionStore.get σ.store sid) ≠ .error .keyError := by
  cases hdb : σ.store.db (key sid) with
  | none => simp [SessionStore.get, Server.hgetall, hdb, getResponse]
  | some e =>
    rcases hi.entry_of_stored hdb with ⟨c, _, _, rfl⟩
    have hfull := fun f => Option.isSome_iff_exists.mp (c.fields_full env (σ.winner sid) f)
    rcases hfull .aliceName with ⟨name, hname⟩
    rcases hfull .memoryQuestion with ⟨question, hquestion⟩
    rcases hfull .phase with ⟨phase, hphase⟩
    simp [SessionStore.get, Server.hgetall, hdb, getResponse, Creation.entry, field, hname,
      hquestion, hphase, bind, Except.bind, pure, Except.pure]

/-- The snapshot of a verify request is the hash its session was created with. -/
theorem verifyLoaded_ok (hi : Inv env σ) {r : ℕ} {sid : Str} {body : Json} {form : VerifyForm}
    (hacc : AcceptsVerify body form) :
    HandlerOk env σ r (.verify sid body)
      (Handler.verifyLoaded sid form (SessionStore.get σ.store sid)) := by
  rcases verifyLoaded_cases sid form (SessionStore.get σ.store sid) with
    ⟨_, h⟩ | ⟨s, hs, hp, _⟩ | ⟨_, _, _, _, _, h⟩ | ⟨s, hs, hp, h⟩
  · rw [h]
    exact ⟨by simp, Or.inr (by decide)⟩
  · -- the phase is never missing
    exfalso
    rcases Option.map_eq_some_iff.mp hs with ⟨e, hdb, rfl⟩
    rcases hi.entry_of_stored hdb with ⟨c, _, _, rfl⟩
    have hfull := c.fields_full env (σ.winner sid) .phase
    have hp' : c.fields env (σ.winner sid) .phase = none := hp
    simp [hp'] at hfull
  · rw [h]
    exact ⟨by simp, Or.inr (by decide)⟩
  · rw [h]
    rcases Option.map_eq_some_iff.mp hs with ⟨e, hdb, rfl⟩
    rcases hi.entry_of_stored hdb with ⟨c, hc, hcs, he⟩
    rw [(hi.waiting_iff hdb).mp hp] at he
    exact ⟨⟨body, rfl, hacc⟩, c, hc, hcs, by rw [he]; rfl⟩

/-- A Redis command is executed, and its reply arrives or is lost. -/
theorem execute (hi : Inv env σ) {r : ℕ} {req : Req} {effect : Effect} {handler handler' : Handler}
    (hreq : σ.reqs r = some req) (hcmd : Command env r σ.store req.handler effect handler)
    (hnext : handler' = handler ∨ handler' = .replying (.error .redisError)) :
    Inv env ((σ.apply effect).setReq r { req with handler := handler' }) := by
  rcases req with ⟨q, old⟩
  have hold := hi.handlers r _ hreq
  -- a lost reply is answered with an error
  have hlost : ∀ {q'}, HandlerOk env σ r q' (.replying (.error .redisError)) := by
    intro q'
    refine ⟨by simp, ?_⟩
    cases q' with
    | verify sid body => exact Or.inr (by decide)
    | _ => trivial
  have hlost' : (Handler.replying (.error .redisError)).NotCreating := by simp [Handler.NotCreating]
  cases hcmd with
  | create form v sid createdAt =>
    rcases hnext with rfl | rfl
    · exact hi.create hreq (createStored_ne_keyError env σ.store sid form v createdAt _)
    · exact hi.create hreq (by simp)
  | get sid =>
    obtain rfl : q = .get sid := hold
    rcases hnext with rfl | rfl
    · exact hi.quiet hreq rfl ⟨hi.getResponse_ne_keyError sid, trivial⟩ (by simp [Handler.NotCreating])
        (Or.inl rfl)
    · exact hi.quiet hreq rfl hlost hlost' (Or.inl rfl)
  | load sid form =>
    rcases hold with ⟨body, rfl, hacc⟩
    rcases hnext with rfl | rfl
    · refine hi.quiet hreq rfl (hi.verifyLoaded_ok hacc) ?_ (Or.inl rfl)
      rcases verifyLoaded_cases sid form (SessionStore.get σ.store sid) with
        ⟨_, h⟩ | ⟨_, _, _, h⟩ | ⟨_, _, _, _, _, h⟩ | ⟨_, _, _, h⟩ <;>
        simp [h, Handler.NotCreating]
    · exact hi.quiet hreq rfl hlost hlost' (Or.inl rfl)
  | gone sid form session bob score hdb =>
    rcases hold with ⟨⟨body, rfl, hacc⟩, _⟩
    rcases hnext with rfl | rfl
    · exact hi.quiet hreq rfl ⟨by simp, Or.inr (by decide)⟩ (by simp [Handler.NotCreating])
        (Or.inl rfl)
    · exact hi.quiet hreq rfl hlost hlost' (Or.inl rfl)
  | completed sid form session bob score e hdb hphase =>
    rcases hold with ⟨⟨body, rfl, hacc⟩, _⟩
    rcases hnext with rfl | rfl
    · exact hi.quiet hreq rfl ⟨by simp, Or.inr (by decide)⟩ (by simp [Handler.NotCreating])
        (Or.inl rfl)
    · exact hi.quiet hreq rfl hlost hlost' (Or.inl rfl)
  | won sid form session bob score e hdb hphase =>
    rcases hnext with rfl | rfl
    · exact hi.win hreq hdb hphase (Or.inl rfl)
    · exact hi.win hreq hdb hphase (Or.inr rfl)
  | delete sid =>
    obtain rfl : q = .delete sid := hold
    rcases hnext with rfl | rfl
    · exact hi.quiet hreq rfl ⟨by simp, trivial⟩ (by simp [Handler.NotCreating])
        (Or.inr ⟨sid, rfl⟩)
    · exact hi.quiet hreq rfl hlost hlost' (Or.inr ⟨sid, rfl⟩)

/-- A request arrives. -/
theorem request (hi : Inv env σ) {r : ℕ} {q : Request} {limited : Bool} (hr : σ.reqs r = none) :
    Inv env (σ.setReq r ⟨q, if limited then .replying (.ok rateLimited) else .start q⟩) := by
  have hnew : ∀ {handler : Handler}, HandlerOk env σ r q handler → handler.NotCreating →
      Inv env (σ.setReq r ⟨q, handler⟩) := fun hok hnot =>
    hi.setReq hok hnot fun old h => by simp [hr] at h
  have hrefused : ∀ {result : Result}, Refusal result →
      HandlerOk env σ r q (.replying result) := by
    intro result href
    refine ⟨href.2, ?_⟩
    cases q with
    | verify sid body => exact Or.inr href.1
    | _ => trivial
  cases limited with
  | true => exact hnew (hrefused (refusal_of_response (by decide))) (by simp [Handler.NotCreating])
  | false =>
    simp only [Bool.false_eq_true, if_false]
    cases q with
    | create body =>
      rcases start_create body with ⟨result, h, href⟩ | ⟨form, hacc, h⟩
      · rw [h]
        exact hnew (hrefused href) (by simp [Handler.NotCreating])
      · rw [h]
        exact hnew ⟨body, rfl, hacc⟩ (by simp [Handler.NotCreating])
    | get sid => exact hnew rfl (by simp [Handler.start, Handler.NotCreating])
    | verify sid body =>
      rcases start_verify sid body with ⟨result, h, href⟩ | ⟨form, hacc, h⟩
      · rw [h]
        exact hnew (hrefused href) (by simp [Handler.NotCreating])
      · rw [h]
        exact hnew ⟨body, rfl, hacc⟩ (by simp [Handler.NotCreating])
    | delete sid => exact hnew rfl (by simp [Handler.start, Handler.NotCreating])

/-- An embedding call returns. -/
theorem embed (hi : Inv env σ) {r : ℕ} {req : Req} {result : Option Json} {handler : Handler}
    (hreq : σ.reqs r = some req) (hstep : req.handler.embed env result = some handler) :
    Inv env (σ.setReq r { req with handler }) := by
  rcases req with ⟨q, old⟩
  have hold := hi.handlers r _ hreq
  have hkeep : old.response? = none → ∀ old', σ.reqs r = some old' →
      q = old'.request ∧ ∀ response, old'.handler.response? = some response →
        handler.response? = some response := by
    intro hnone old' h
    obtain rfl := Option.some.inj (hreq.symm.trans h)
    exact ⟨rfl, fun response hresp => by simp [hnone] at hresp⟩
  cases embedded_of_embed hstep with
  | createFailed form =>
    rcases hold with ⟨body, rfl, hacc⟩
    exact hi.setReq ⟨by simp, trivial⟩ (by simp [Handler.NotCreating]) (hkeep rfl)
  | created form v => exact hi.setReq hold (by simp [Handler.NotCreating]) (hkeep rfl)
  | verifyFailed sid form session =>
    rcases hold with ⟨⟨body, rfl, hacc⟩, _⟩
    exact hi.setReq ⟨by simp, Or.inr (by decide)⟩ (by simp [Handler.NotCreating]) (hkeep rfl)
  | notScored sid form session v e hscore =>
    rcases hold with ⟨⟨body, rfl, hacc⟩, c, hc, hcs, rfl⟩
    have he : e ≠ .keyError := by
      rintro rfl
      exact scoreOf_session_ne_keyError env c v hscore
    exact hi.setReq ⟨by simpa using he, Or.inr (handleError_isError e)⟩
      (by simp [Handler.NotCreating]) (hkeep rfl)
  | notEncoded sid form session v score hscore hname =>
    rcases hold with ⟨⟨body, rfl, hacc⟩, _⟩
    exact hi.setReq ⟨by simp, Or.inr (by decide)⟩ (by simp [Handler.NotCreating]) (hkeep rfl)
  | scored sid form session v score hscore =>
    exact hi.setReq ⟨hold.1, hold.2, hscore⟩ (by simp [Handler.NotCreating]) (hkeep rfl)

/-- A response is sent. -/
theorem answer (hi : Inv env σ) {r : ℕ} {req : Req} {result : Result}
    (hreq : σ.reqs r = some req) (hrep : req.handler = .replying result) :
    Inv env (σ.setReq r { req with handler := .done (answerOf result) }) := by
  have hold := hi.handlers r _ hreq
  rw [hrep] at hold
  refine hi.setReq hold.2 (by simp [Handler.NotCreating]) ?_
  intro old h
  obtain rfl := Option.some.inj (hreq.symm.trans h)
  exact ⟨rfl, fun response hresp => by simpa [hrep, Handler.response?] using hresp⟩

/-- Every step of the server, faults included, keeps the invariant. -/
theorem of_step {l : Label} {σ' : State} (hi : Inv env σ) (h : Doppelganger.step env l σ = some σ') :
    Inv env σ' := by
  cases l with
  | request r q limited =>
    rcases step_request h with ⟨hr, rfl⟩
    exact hi.request hr
  | embed r result =>
    rcases step_embed h with ⟨req, handler, hreq, hstep, rfl⟩
    exact hi.embed hreq hstep
  | name r sid =>
    rcases step_name h with ⟨req, handler, hreq, hstep, hsid, rfl⟩
    exact hi.name hreq hstep hsid
  | redis r fault =>
    rcases step_redis h with ⟨req, effect, handler, hreq, hcmd, hcases⟩
    have hcmd := command_of_redis hcmd
    rcases hcases with ⟨_, rfl⟩ | ⟨_, rfl⟩ | ⟨_, rfl⟩
    · exact hi.execute hreq hcmd (Or.inl rfl)
    -- the command is lost on its way, and only the request moves on
    · have hnone := hcmd.response?_eq_none
      refine hi.setReq ⟨by simp, ?_⟩ (by simp [Handler.NotCreating]) ?_
      · cases req.request with
        | verify sid body => exact Or.inr (by decide)
        | _ => trivial
      · intro old h
        obtain rfl := Option.some.inj (hreq.symm.trans h)
        exact ⟨rfl, fun response hresp => by simp [hnone] at hresp⟩
    · exact hi.execute hreq hcmd (Or.inr rfl)
  | answer r =>
    rcases step_answer h with ⟨req, result, hreq, hrep, rfl⟩
    exact hi.answer hreq hrep
  | tick d =>
    obtain rfl := step_tick h
    refine hi.withStore (Nat.le_add_right _ _) ?_ ?_
    · exact fun k e h => (Server.tick_db_eq_some.mp h).1
    · exact fun k e t h ht => (Server.tick_db_eq_some.mp h).2 t ht
  | stream i sid w => exact hi.of_sameCore (sameCore_of_step rfl h)
  | read i fault => exact hi.of_sameCore (sameCore_of_step rfl h)
  | advance i => exact hi.of_sameCore (sameCore_of_step rfl h)
  | close i => exact hi.of_sameCore (sameCore_of_step rfl h)
  | listen w => exact hi.of_sameCore (sameCore_of_step rfl h)
  | disconnect w => exact hi.of_sameCore (sameCore_of_step rfl h)
  | deliver w => exact hi.of_sameCore (sameCore_of_step rfl h)
  | lose w n => exact hi.of_sameCore (sameCore_of_step rfl h)

/-- The invariant holds in every run. -/
theorem of_run {ok : Lts.Guard State Label} {ls : List Label}
    (h : (server env).Run ok (server env).init ls σ) : Inv env σ :=
  h.invariant Inv.init fun _ _ _ _ hs hi => hi.of_step hs

theorem of_reach {ok : Lts.Guard State Label} (h : (server env).Reach ok σ) : Inv env σ := by
  rcases h with ⟨ls, hrun⟩
  exact of_run hrun

end Inv

end Preservation

end Doppelganger
