import Doppelganger.Lib.Atomic
import Doppelganger.History

/-!
# Atomic requests

`Atomic.request` is a request that acts on the store in one step, with everything
the outside decides for it at hand: what a server would do that handled one
request after the other. `Atomic.object` is the store and the published messages
as an object with these operations.
-/

open Text Redis

namespace Doppelganger

/-- What the outside decides for a request: the rate limiter's verdict, the embedding service's
answer, the session id drawn and the clock read when the transaction was prepared. -/
structure Choice where
  limited : Bool
  embedding : Option Json
  sid : Str
  createdAt : Str

namespace Atomic

variable (env : Env)

/-- The answer to the request that finalizes a session, from the hash it finds. -/
def outcome (fields : Session) (score : ℚ) : Response :=
  if passed env score then
    match (fields .alicePubkeyJwk).bind Json.loads with
    | some jwk => passResponse score jwk
    | none => serverError
  else failResponse score

/-- A verify request in one step. -/
def verify (db : Store) (sid : Str) (form : VerifyForm) (bob : Option Json) :
    (Store × List Message) × Response :=
  match db.db (key sid) with
  | none => ((db, []), notFound)
  | some e =>
    if e.fields .phase ≠ some waitingForBob then ((db, []), alreadyCompleted)
    else
      match bob with
      | none => ((db, []), embeddingBusy)
      | some v =>
        match scoreOf env e.fields v with
        | .error exc => ((db, []), handleError exc)
        | .ok score =>
          ((db.put (key sid) (some { e with fields := e.fields.write (updates env form score) }),
              [⟨channel sid, (event env form score).dumps⟩]),
            outcome env e.fields score)

/-- A request in one step. -/
def request (q : Request) (c : Choice) (db : Store) : (Store × List Message) × Response :=
  if c.limited then ((db, []), rateLimited)
  else
    match q with
    | .create body =>
      match validateSessionCreate body with
      | .error e => ((db, []), handleError e)
      | .ok (some msg) => ((db, []), errorResponse 400 msg)
      | .ok none =>
        match createForm body, c.embedding with
        | some form, some v =>
          let run := SessionStore.create db c.sid form v c.createdAt env.sessionTtlSeconds
          ((run.1, []), answerOf (createStored env c.sid v run.2))
        | some _, none => ((db, []), embeddingUnavailable)
        | none, _ => ((db, []), serverError)
    | .get sid => ((db, []), answerOf (getResponse (SessionStore.get db sid)))
    | .verify sid body =>
      match validateVerify body with
      | .error e => ((db, []), handleError e)
      | .ok (some msg) => ((db, []), errorResponse 400 msg)
      | .ok none =>
        match verifyForm body with
        | some form => verify env db sid form c.embedding
        | none => ((db, []), serverError)
    | .delete sid => ((SessionStore.delete db sid, []), deleteResponse)

inductive Op where
  | act (r : ℕ) (q : Request) (c : Choice)
  | tick (d : ℕ)

/-- The store and what has been published, as an object with atomic requests. -/
def object : AtomicObject (Store × List Message) Op (Option Response) where
  apply
    | .act _ q c, (db, published) =>
      ((((request env q c db).1).1, published ++ ((request env q c db).1).2),
        some (request env q c db).2)
    | .tick d, (db, published) => ((db.tick d, published), none)

def start : Store × List Message := (Server.init, [])

@[simp] theorem object_act (r : ℕ) (q : Request) (c : Choice) (s : Store × List Message) :
    (object env).apply (.act r q c) s =
      (((request env q c s.1).1.1, s.2 ++ (request env q c s.1).1.2),
        some (request env q c s.1).2) := rfl

@[simp] theorem object_tick (d : ℕ) (s : Store × List Message) :
    (object env).apply (.tick d) s = ((s.1.tick d, s.2), none) := rfl

end Atomic

/-- Equal up to the wording of an error message. -/
def Response.Same (response response' : Response) : Prop :=
  response.status = response'.status ∧ (response.status < 400 → response = response')

@[simp] theorem Response.Same.refl (response : Response) : response.Same response :=
  ⟨rfl, fun _ => rfl⟩

/-- Two wordings of one error. -/
theorem errorResponse_same {status : ℕ} (h : 400 ≤ status) (msg msg' : Str) :
    (errorResponse status msg).Same (errorResponse status msg') :=
  ⟨rfl, fun hlt => absurd h (Nat.not_le.mpr hlt)⟩

/-! ## The atomic requests, case by case -/

section Cases

variable {env : Env} {c : Choice} {db : Store}

/-- A request that is refused on arrival. -/
theorem request_of_start {q : Request} {result : Result} (h : Handler.start q = .replying result)
    (hc : c.limited = false) : Atomic.request env q c db = ((db, []), answerOf result) := by
  cases q with
  | create body =>
    cases hv : validateSessionCreate body with
    | error e =>
      obtain rfl : result = .error e := by simpa [Handler.start, hv] using h.symm
      simp [Atomic.request, hc, hv, answerOf]
    | ok msg =>
      cases msg with
      | some msg =>
        obtain rfl : result = .ok (errorResponse 400 msg) := by
          simpa [Handler.start, hv] using h.symm
        simp [Atomic.request, hc, hv, answerOf]
      | none =>
        rcases validateSessionCreate_eq_none.mp hv with ⟨_, form, hform, _⟩
        simp [Handler.start, hv, hform] at h
  | verify sid body =>
    cases hv : validateVerify body with
    | error e =>
      obtain rfl : result = .error e := by simpa [Handler.start, hv] using h.symm
      simp [Atomic.request, hc, hv, answerOf]
    | ok msg =>
      cases msg with
      | some msg =>
        obtain rfl : result = .ok (errorResponse 400 msg) := by
          simpa [Handler.start, hv] using h.symm
        simp [Atomic.request, hc, hv, answerOf]
      | none =>
        rcases validateVerify_eq_none.mp hv with ⟨_, form, hform, _⟩
        simp [Handler.start, hv, hform] at h
  | _ => cases h

theorem request_create {body : Json} {form : CreateForm} (h : AcceptsCreate body form)
    (hc : c.limited = false) : Atomic.request env (.create body) c db =
      match c.embedding with
      | some v =>
        (((SessionStore.create db c.sid form v c.createdAt env.sessionTtlSeconds).1, []),
          answerOf (createStored env c.sid v
            (SessionStore.create db c.sid form v c.createdAt env.sessionTtlSeconds).2))
      | none => ((db, []), embeddingUnavailable) := by
  cases hv : c.embedding <;> simp [Atomic.request, hc, h.1, h.2, hv]

theorem request_verify {sid : Str} {body : Json} {form : VerifyForm} (h : AcceptsVerify body form)
    (hc : c.limited = false) :
    Atomic.request env (.verify sid body) c db = Atomic.verify env db sid form c.embedding := by
  simp [Atomic.request, hc, h.1, h.2]

variable {sid : Str} {form : VerifyForm} {bob : Option Json}

theorem verify_of_none (h : db.db (key sid) = none) :
    Atomic.verify env db sid form bob = ((db, []), notFound) := by
  simp [Atomic.verify, h]

theorem verify_of_completed {e : Entry Field} (h : db.db (key sid) = some e)
    (hp : e.fields .phase ≠ some waitingForBob) :
    Atomic.verify env db sid form bob = ((db, []), alreadyCompleted) := by
  simp [Atomic.verify, h, hp]

variable {session : Session} {deadline : Option ℕ} (h : db.db (key sid) = some ⟨session, deadline⟩)
  (hp : session .phase = some waitingForBob)
include h hp

theorem verify_of_not_embedded :
    Atomic.verify env db sid form none = ((db, []), embeddingBusy) := by
  simp [Atomic.verify, h, hp]

theorem verify_of_not_scored {v : Json} {exc : Exc} (hs : scoreOf env session v = .error exc) :
    Atomic.verify env db sid form (some v) = ((db, []), handleError exc) := by
  simp [Atomic.verify, h, hp, hs]

theorem verify_of_scored {v : Json} {score : ℚ} (hs : scoreOf env session v = .ok score) :
    Atomic.verify env db sid form (some v) =
      ((db.put (key sid) (some ⟨session.write (updates env form score), deadline⟩),
          [⟨channel sid, (event env form score).dumps⟩]), Atomic.outcome env session score) := by
  simp [Atomic.verify, h, hp, hs]

end Cases

/-- What a created session grants is what the handler answers. -/
theorem Creation.outcome_eq (env : Env) (c : Creation) (score : ℚ) :
    verifyResponse env c.session score .won = .ok (Atomic.outcome env c.session score) := by
  by_cases hp : passed env score = true
  · simp [verifyResponse, Atomic.outcome, hp, field, bind, Except.bind]
  · simp [verifyResponse, Atomic.outcome, hp]

end Doppelganger
