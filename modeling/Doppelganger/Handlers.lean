import Doppelganger.Routes

/-!
# What a handler can do

The inversion lemmas of `Handler.start`, `Handler.embed`, `Handler.name` and
`Handler.redis`. `Embedded` and `Command` list every outcome with the state it
needs; proofs about runs go by cases on them.
-/

open Text Redis

namespace Doppelganger

/-! ## Answers -/

/-- An error answer. -/
def Response.isError (response : Response) : Prop := 400 ≤ response.status

instance (response : Response) : Decidable response.isError := Nat.decLe _ _

/-- An answer with Alice's key. -/
def Response.isPass (response : Response) : Prop :=
  response.status = 200 ∧ response.body.get? (lit "result") = some (.str (lit "PASS"))

def Response.isFail (response : Response) : Prop :=
  response.status = 200 ∧ response.body.get? (lit "result") = some (.str (lit "FAIL"))

instance (response : Response) : Decidable response.isPass := instDecidableAnd

instance (response : Response) : Decidable response.isFail := instDecidableAnd

theorem Response.isPass.not_isError {response : Response} (h : response.isPass) :
    ¬ response.isError := by
  simp [Response.isError, h.1]

theorem Response.isFail.not_isError {response : Response} (h : response.isFail) :
    ¬ response.isError := by
  simp [Response.isError, h.1]

theorem Response.isFail.not_isPass {response : Response} (h : response.isFail) :
    ¬ response.isPass := by
  have hne : lit "FAIL" ≠ lit "PASS" := by decide
  intro hpass
  have heq := h.2.symm.trans hpass.2
  simp [hne] at heq

theorem passResponse_isPass (score : ℚ) (jwk : Json) : (passResponse score jwk).isPass :=
  ⟨rfl, rfl⟩

theorem failResponse_isFail (score : ℚ) : (failResponse score).isFail :=
  ⟨rfl, rfl⟩

theorem handleError_isError (e : Exc) : (handleError e).isError := by
  cases e <;> decide

theorem errorResponse_isError {status : ℕ} (h : 400 ≤ status) (msg : Str) :
    (errorResponse status msg).isError := h

/-- The body of a create request passed its validator, and `form` is what the handler reads. -/
def AcceptsCreate (body : Json) (form : CreateForm) : Prop :=
  validateSessionCreate body = .ok none ∧ createForm body = some form

/-- The body of a verify request passed its validator, and `form` is what the handler reads. -/
def AcceptsVerify (body : Json) (form : VerifyForm) : Prop :=
  validateVerify body = .ok none ∧ verifyForm body = some form

theorem AcceptsVerify.valid {body : Json} {form : VerifyForm} (h : AcceptsVerify body form) :
    form.Valid := by
  rcases validateVerify_eq_none.mp h.1 with ⟨_, form', hform, hvalid⟩
  obtain rfl := Option.some.inj (h.2.symm.trans hform)
  exact hvalid

/-- The validators only raise what a string or dict method called on the wrong type raises. -/
theorem validate_ne_keyError {check : Except Exc Bool} {msg : Str}
    {rest : Except Exc (Option Str)} (hc : check ≠ .error .keyError)
    (hr : rest ≠ .error .keyError) :
    (do if ← check then return some msg
        rest) ≠ .error .keyError := by
  cases check with
  | error e => simpa [bind, Except.bind] using hc
  | ok b => cases b <;> simp [bind, Except.bind, pure, Except.pure, hr]

theorem isBlankMember_ne_keyError (data : Json) (name : Str) :
    isBlankMember data name ≠ .error .keyError := by
  unfold isBlankMember getOrEmpty
  split_ifs
  · cases (data.get? name).getD (.str []) <;>
      simp [stripped, bind, Except.bind, pure, Except.pure]
  · simp [bind, Except.bind]

theorem isLongMember_ne_keyError (data : Json) (name : Str) :
    isLongMember data name ≠ .error .keyError := by
  unfold isLongMember getOrEmpty
  split_ifs
  · cases (data.get? name).getD (.str []) <;>
      simp [lengthOf, bind, Except.bind, pure, Except.pure]
  · simp [bind, Except.bind]

theorem validateJwk_ne_keyError (data : Json) (name m₁ m₂ : Str) :
    validateJwk data name m₁ m₂ ≠ .error .keyError := by
  unfold validateJwk
  split <;> (try split_ifs) <;> simp

theorem validateSessionCreate_ne_keyError (data : Json) :
    validateSessionCreate data ≠ .error .keyError := by
  unfold validateSessionCreate
  split_ifs
  · simp [pure, Except.pure]
  · exact validate_ne_keyError (isBlankMember_ne_keyError _ _) <|
      validate_ne_keyError (isBlankMember_ne_keyError _ _) <|
      validate_ne_keyError (isLongMember_ne_keyError _ _) <|
      validate_ne_keyError (isBlankMember_ne_keyError _ _) <|
      validate_ne_keyError (isLongMember_ne_keyError _ _) (validateJwk_ne_keyError _ _ _ _)

theorem validateVerify_ne_keyError (data : Json) : validateVerify data ≠ .error .keyError := by
  unfold validateVerify
  split_ifs
  · simp [pure, Except.pure]
  · exact validate_ne_keyError (isBlankMember_ne_keyError _ _) <|
      validate_ne_keyError (isBlankMember_ne_keyError _ _) <|
      validate_ne_keyError (isLongMember_ne_keyError _ _) (validateJwk_ne_keyError _ _ _ _)

/-- A refusal: an error answer that does not stem from a missing member. -/
def Refusal (result : Result) : Prop :=
  (answerOf result).isError ∧ result ≠ .error .keyError

theorem refusal_of_response {response : Response} (h : response.isError) :
    Refusal (.ok response) :=
  ⟨h, by simp⟩

theorem refusal_of_exc {e : Exc} (h : e ≠ .keyError) : Refusal (.error e) :=
  ⟨handleError_isError e, by simpa using h⟩

theorem round6_ne_keyError (env : Env) (v : Json) : round6 env v ≠ .error .keyError := by
  cases v <;> simp [round6]

theorem mapM_round6_ne_keyError (env : Env) (xs : List Json) :
    xs.mapM (round6 env) ≠ .error .keyError := by
  induction xs with
  | nil => simp [pure, Except.pure]
  | cons x xs ih =>
    have hx := round6_ne_keyError env x
    rw [List.mapM_cons]
    cases hr : round6 env x with
    | error e => simpa [bind, Except.bind, hr] using hx
    | ok y =>
      cases hm : xs.mapM (round6 env) with
      | error e => simpa [bind, Except.bind, hm] using ih
      | ok ys => simp [bind, Except.bind, pure, Except.pure]

/-- `create_session` raises, and not because a member is missing, or answers with the id and with the
preview that was made of the vector. -/
theorem createResponse_cases (env : Env) (sid : Str) (v : Json) :
    (∃ e, createResponse env sid v = .error e ∧ e ≠ .keyError) ∨
      ∃ qr preview n, vectorPreview env v = .ok preview ∧
        createResponse env sid v = .ok ⟨201, .obj [(lit "session_id", .str sid),
          (lit "link", .str (linkOf env sid)), (lit "qr_code", .str qr),
          (lit "vector_preview", .arr preview), (lit "vector_dimensions", .int n)]⟩ := by
  have hpreview : vectorPreview env v ≠ .error .keyError := by
    cases v with
    | arr xs => exact mapM_round6_ne_keyError env _
    | str s => cases h : s.isEmpty <;> simp [vectorPreview, h]
    | _ => simp [vectorPreview]
  have hlength : lengthOf v ≠ .error .keyError := by cases v <;> simp [lengthOf]
  unfold createResponse
  cases env.generateQr (linkOf env sid) with
  | none => exact Or.inl ⟨_, rfl, by simp⟩
  | some qr =>
    cases hp : vectorPreview env v with
    | error e => exact Or.inl ⟨e, rfl, by simpa [hp] using hpreview⟩
    | ok preview =>
      cases hl : lengthOf v with
      | error e => exact Or.inl ⟨e, rfl, by simpa [hl] using hlength⟩
      | ok n => exact Or.inr ⟨qr, preview, n, rfl, rfl⟩

theorem createResponse_ne_keyError (env : Env) (sid : Str) (v : Json) :
    createResponse env sid v ≠ .error .keyError := by
  rcases createResponse_cases env sid v with ⟨e, herror, he⟩ | ⟨_, _, _, _, hanswer⟩
  · simpa [herror] using he
  · simp [hanswer]

/-- The answer of the transaction, if it raised, and else the response. -/
theorem createStored_eq (env : Env) (db : Store) (sid : Str) (form : CreateForm) (v : Json)
    (createdAt : Str) (ttl : ℤ) :
    createStored env sid v (SessionStore.create db sid form v createdAt ttl).2 =
      if Expirable db.now ttl then createResponse env sid v else .error .redisError := by
  simp only [SessionStore.create, Server.expire, Server.hset_now]
  split_ifs <;> rfl

theorem createStored_ne_keyError (env : Env) (db : Store) (sid : Str) (form : CreateForm) (v : Json)
    (createdAt : Str) (ttl : ℤ) :
    createStored env sid v (SessionStore.create db sid form v createdAt ttl).2 ≠
      .error .keyError := by
  rw [createStored_eq]
  split_ifs
  · exact createResponse_ne_keyError env sid v
  · simp

/-! ## Arrival -/

/-- A create request is refused at once or goes on with its form. -/
theorem start_create (body : Json) :
    (∃ result, Handler.start (.create body) = .replying result ∧ Refusal result) ∨
    (∃ form, AcceptsCreate body form ∧ Handler.start (.create body) = .embedding form) := by
  cases hv : validateSessionCreate body with
  | error e =>
    have he : e ≠ .keyError := fun he => validateSessionCreate_ne_keyError body (he ▸ hv)
    exact Or.inl ⟨_, by simp [Handler.start, hv], refusal_of_exc he⟩
  | ok msg =>
    cases msg with
    | some msg =>
      have herr : (errorResponse 400 msg).isError := errorResponse_isError (by decide) msg
      exact Or.inl ⟨_, by simp [Handler.start, hv], refusal_of_response herr⟩
    | none =>
      rcases validateSessionCreate_eq_none.mp hv with ⟨_, form, hform, _⟩
      exact Or.inr ⟨form, ⟨hv, hform⟩, by simp [Handler.start, hv, hform]⟩

/-- A verify request is refused at once or goes on with its form. -/
theorem start_verify (sid : Str) (body : Json) :
    (∃ result, Handler.start (.verify sid body) = .replying result ∧ Refusal result) ∨
    (∃ form, AcceptsVerify body form ∧
      Handler.start (.verify sid body) = .loading sid form) := by
  cases hv : validateVerify body with
  | error e =>
    have he : e ≠ .keyError := fun he => validateVerify_ne_keyError body (he ▸ hv)
    exact Or.inl ⟨_, by simp [Handler.start, hv], refusal_of_exc he⟩
  | ok msg =>
    cases msg with
    | some msg =>
      have herr : (errorResponse 400 msg).isError := errorResponse_isError (by decide) msg
      exact Or.inl ⟨_, by simp [Handler.start, hv], refusal_of_response herr⟩
    | none =>
      rcases validateVerify_eq_none.mp hv with ⟨_, form, hform, _⟩
      exact Or.inr ⟨form, ⟨hv, hform⟩, by simp [Handler.start, hv, hform]⟩

/-! ## Waiting points -/

/-- What the return of an embedding call can do to a handler. -/
inductive Embedded (env : Env) : Handler → Option Json → Handler → Prop
  | createFailed (form : CreateForm) :
      Embedded env (.embedding form) none (.replying (.ok embeddingUnavailable))
  | created (form : CreateForm) (v : Json) :
      Embedded env (.embedding form) (some v) (.naming form v)
  | verifyFailed (sid : Str) (form : VerifyForm) (session : Session) :
      Embedded env (.scoring sid form session) none (.replying (.ok embeddingBusy))
  | notScored (sid : Str) (form : VerifyForm) (session : Session) (v : Json) (e : Exc) :
      scoreOf env session v = .error e →
      Embedded env (.scoring sid form session) (some v) (.replying (.error e))
  | notEncoded (sid : Str) (form : VerifyForm) (session : Session) (v : Json) (score : ℚ) :
      scoreOf env session v = .ok score → wellFormed form.bobName = false →
      Embedded env (.scoring sid form session) (some v) (.replying (.error .unicodeError))
  | scored (sid : Str) (form : VerifyForm) (session : Session) (v : Json) (score : ℚ) :
      scoreOf env session v = .ok score →
      Embedded env (.scoring sid form session) (some v) (.finalizing sid form session v score)

theorem embedded_of_embed {env : Env} {hd hd' : Handler} {result : Option Json}
    (h : hd.embed env result = some hd') : Embedded env hd result hd' := by
  cases hd with
  | embedding form =>
    cases result with
    | none =>
      obtain rfl := Option.some.inj h
      exact .createFailed form
    | some v =>
      obtain rfl := Option.some.inj h
      exact .created form v
  | scoring sid form session =>
    cases result with
    | none =>
      obtain rfl := Option.some.inj h
      exact .verifyFailed sid form session
    | some v =>
      obtain rfl := Option.some.inj h
      unfold Handler.verifyScored
      cases hs : scoreOf env session v with
      | error e => exact .notScored sid form session v e hs
      | ok score =>
        by_cases hw : passed env score && !wellFormed form.bobName
        · simp only [hw, if_true]
          have hw' : wellFormed form.bobName = false := by
            simpa using (Bool.and_eq_true_iff.mp hw).2
          exact .notEncoded sid form session v score hs hw'
        · simp only [hw]
          exact .scored sid form session v score hs
  | _ => cases h

/-- What drawing a session id can do to a handler. -/
theorem name_cases {now : ℕ} {sid : Str} {hd hd' : Handler} (h : hd.name now sid = some hd') :
    ∃ form v, hd = .naming form v ∧
      (hd' = .creating form v sid (natText (now / 1000)) ∨
        (¬ (wellFormed form.aliceName ∧ wellFormed form.memoryQuestion) ∧
          hd' = .replying (.error .unicodeError))) := by
  cases hd with
  | naming form v =>
    refine ⟨form, v, rfl, ?_⟩
    by_cases hw : wellFormed form.aliceName && wellFormed form.memoryQuestion
    · exact Or.inl (by simpa [Handler.name, hw] using h.symm)
    · refine Or.inr ⟨by simpa using hw, by simpa [Handler.name, hw] using h.symm⟩
  | _ => cases h

/-- What a Redis command of request `r` does, and how its handler goes on. -/
inductive Command (env : Env) (r : ℕ) (db : Store) : Handler → Effect → Handler → Prop
  | create (form : CreateForm) (v : Json) (sid createdAt : Str) :
      Command env r db (.creating form v sid createdAt)
        { store := (SessionStore.create db sid form v createdAt env.sessionTtlSeconds).1,
          created := some ⟨r, sid, form, v, createdAt, db.now⟩ }
        (.replying (createStored env sid v
          (SessionStore.create db sid form v createdAt env.sessionTtlSeconds).2))
  | get (sid : Str) :
      Command env r db (.reading sid) { store := db }
        (.replying (getResponse (SessionStore.get db sid)))
  | load (sid : Str) (form : VerifyForm) :
      Command env r db (.loading sid form) { store := db }
        (Handler.verifyLoaded sid form (SessionStore.get db sid))
  | gone (sid : Str) (form : VerifyForm) (session : Session) (bob : Json) (score : ℚ) :
      db.db (key sid) = none →
      Command env r db (.finalizing sid form session bob score) { store := db }
        (.replying (.ok expiredWhileScoring))
  | completed (sid : Str) (form : VerifyForm) (session : Session) (bob : Json) (score : ℚ)
      (e : Entry Field) :
      db.db (key sid) = some e → e.fields .phase ≠ some waitingForBob →
      Command env r db (.finalizing sid form session bob score) { store := db }
        (.replying (.ok alreadyCompleted))
  | won (sid : Str) (form : VerifyForm) (session : Session) (bob : Json) (score : ℚ)
      (e : Entry Field) :
      db.db (key sid) = some e → e.fields .phase = some waitingForBob →
      Command env r db (.finalizing sid form session bob score)
        { store := db.put (key sid)
            (some { e with fields := e.fields.write (updates env form score) }),
          published := [⟨channel sid, (event env form score).dumps⟩],
          committed := some ⟨r, sid, form, score⟩ }
        (.replying (verifyResponse env session score .won))
  | delete (sid : Str) :
      Command env r db (.deleting sid) { store := SessionStore.delete db sid }
        (.replying (.ok deleteResponse))

theorem command_of_redis {env : Env} {r : ℕ} {db : Store} {hd hd' : Handler} {effect : Effect}
    (h : hd.redis env r db = some (effect, hd')) : Command env r db hd effect hd' := by
  cases hd with
  | creating form v sid createdAt =>
    rcases Prod.mk.inj (Option.some.inj h) with ⟨rfl, rfl⟩
    exact .create form v sid createdAt
  | reading sid =>
    rcases Prod.mk.inj (Option.some.inj h) with ⟨rfl, rfl⟩
    exact .get sid
  | loading sid form =>
    rcases Prod.mk.inj (Option.some.inj h) with ⟨rfl, rfl⟩
    exact .load sid form
  | finalizing sid form session bob score =>
    simp only [Handler.redis] at h
    cases hdb : db.db (key sid) with
    | none =>
      rw [SessionStore.finalize_of_none hdb] at h
      rcases Prod.mk.inj (Option.some.inj h) with ⟨rfl, rfl⟩
      exact .gone sid form session bob score hdb
    | some e =>
      by_cases hp : e.fields .phase = some waitingForBob
      · rw [SessionStore.finalize_of_waiting hdb hp] at h
        rcases Prod.mk.inj (Option.some.inj h) with ⟨rfl, rfl⟩
        exact .won sid form session bob score e hdb hp
      · rw [SessionStore.finalize_of_completed hdb hp] at h
        rcases Prod.mk.inj (Option.some.inj h) with ⟨rfl, rfl⟩
        exact .completed sid form session bob score e hdb hp
  | deleting sid =>
    rcases Prod.mk.inj (Option.some.inj h) with ⟨rfl, rfl⟩
    exact .delete sid
  | _ => cases h

/-- The snapshot a verify request goes on with. -/
theorem verifyLoaded_cases (sid : Str) (form : VerifyForm) (session : Option Session) :
    (session = none ∧ Handler.verifyLoaded sid form session = .replying (.ok notFound)) ∨
    (∃ s, session = some s ∧ s .phase = none ∧
      Handler.verifyLoaded sid form session = .replying (.error .keyError)) ∨
    (∃ s phase, session = some s ∧ s .phase = some phase ∧ phase ≠ waitingForBob ∧
      Handler.verifyLoaded sid form session = .replying (.ok alreadyCompleted)) ∨
    (∃ s, session = some s ∧ s .phase = some waitingForBob ∧
      Handler.verifyLoaded sid form session = .scoring sid form s) := by
  cases session with
  | none => exact Or.inl ⟨rfl, rfl⟩
  | some s =>
    right
    cases hp : s .phase with
    | none => exact Or.inl ⟨s, rfl, hp, by simp [Handler.verifyLoaded, field, hp]⟩
    | some phase =>
      right
      by_cases hw : phase = waitingForBob
      · subst hw
        exact Or.inr ⟨s, rfl, hp, by simp [Handler.verifyLoaded, field, hp]⟩
      · exact Or.inl ⟨s, phase, rfl, hp, hw, by simp [Handler.verifyLoaded, field, hp, hw]⟩

end Doppelganger
