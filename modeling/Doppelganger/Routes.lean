import Doppelganger.SessionStore

/-!
# The request handlers

`create_session`, `get_session`, `verify` and `delete_session`, cut at the points
where they wait: for the embedding service, for a session id, and for a Redis
command. Between two such points a handler only computes, so a request is one of
the states of `Handler`, and one Redis command is one `Handler.redis` step.

What lies outside the repository is a field of `Env`: numpy's cosine similarity
(`none` where it raises or gives no finite number, which makes the following
`round` raise), the QR encoder, the rounding of a float to six decimals. The
answers of the embedding service are inputs of the run.
-/

open Text Redis

namespace Doppelganger

/-- The configuration, and what the handlers call outside the repository. -/
structure Env where
  sessionTtlSeconds : ℤ
  similarityThreshold : ℚ
  baseUrl : Str
  cosineSimilarity : Json → Json → Option ℚ
  roundFloat : PyFloat → PyFloat
  generateQr : Str → Option Str

/-! ## Responses -/

structure Response where
  status : ℕ
  body : Json
deriving DecidableEq

def errorResponse (status : ℕ) (msg : Str) : Response := ⟨status, .obj [(lit "error", .str msg)]⟩

/-- The 429 handler. -/
def rateLimited : Response :=
  errorResponse 429 (lit "Lots of people on your network are using the demo. Wait a few seconds and try again.")

/-- The `RedisError` handler. -/
def storeUnavailable : Response :=
  errorResponse 503 (lit "Session store is busy. Please try again in a moment.")

/-- The 500 handler. -/
def serverError : Response := errorResponse 500 (lit "Internal server error. Please try again.")

/-- What an exception that leaves a handler is answered with. -/
def handleError : Exc → Response
  | .redisError => storeUnavailable
  | _ => serverError

/-- What a handler produced: a response, or an exception for the error handlers. -/
abbrev Result := Except Exc Response

def answerOf : Result → Response
  | .ok response => response
  | .error e => handleError e

/-! ## create_session -/

/-- `round(v, 6)`. -/
def round6 (env : Env) : Json → Except Exc Json
  | .int n => .ok (.int n)
  | .bool b => .ok (.int (if b then 1 else 0))
  | .float x => .ok (.float (env.roundFloat x))
  | _ => .error .typeError

/-- `[round(v, 6) for v in embedding[:40]]`. -/
def vectorPreview (env : Env) : Json → Except Exc (List Json)
  | .arr xs => (xs.take 40).mapM (round6 env)
  | .str s => if s.isEmpty then .ok [] else .error .typeError
  | _ => .error .typeError

def linkOf (env : Env) (sid : Str) : Str := env.baseUrl ++ (lit "/verify/s/" ++ sid)

/-- The rest of `create_session` once the session is stored. -/
def createResponse (env : Env) (sid : Str) (embedding : Json) : Result := do
  -- the session is in Redis by now, and stays there whatever raises from here on
  let qrCode ← match env.generateQr (linkOf env sid) with
    | some qr => .ok qr
    | none => .error .valueError
  let preview ← vectorPreview env embedding
  let dimensions ← lengthOf embedding
  return ⟨201, .obj [(lit "session_id", .str sid), (lit "link", .str (linkOf env sid)),
    (lit "qr_code", .str qrCode), (lit "vector_preview", .arr preview),
    (lit "vector_dimensions", .int dimensions)]⟩

/-- `create_session` from the answer of its transaction on. -/
def createStored (env : Env) (sid : Str) (embedding : Json) (stored : Except Exc Unit) : Result := do
  stored
  createResponse env sid embedding

/-! ## get_session and delete_session -/

/-- `session[name]`. -/
def field (session : Session) (f : Field) : Except Exc Str :=
  match session f with
  | some s => .ok s
  | none => .error .keyError

def notFound : Response := errorResponse 404 (lit "Session not found or expired")

def getResponse (session : Option Session) : Result :=
  match session with
  | none => .ok notFound
  | some session => do
    -- neither key nor embedding is read
    let aliceName ← field session .aliceName
    let memoryQuestion ← field session .memoryQuestion
    let phase ← field session .phase
    return ⟨200, .obj [(lit "alice_name", .str aliceName),
      (lit "memory_question", .str memoryQuestion), (lit "phase", .str phase)]⟩

def deleteResponse : Response := ⟨200, .obj [(lit "deleted", .bool true)]⟩

/-! ## verify -/

def alreadyCompleted : Response := errorResponse 409 (lit "Session already completed")

def expiredWhileScoring : Response := errorResponse 404 (lit "Session expired while scoring")

def embeddingBusy : Response :=
  errorResponse 503 (lit "Embedding service busy — please try again")

def embeddingUnavailable : Response := errorResponse 503 (lit "Embedding service unavailable")

/-- The score of Bob's embedding against the one in the snapshot. -/
def scoreOf (env : Env) (session : Session) (bob : Json) : Except Exc ℚ := do
  let text ← field session .answerEmbedding
  match Json.loads text with
  | none => .error .valueError
  | some alice =>
    match env.cosineSimilarity alice bob with
    | none => .error .valueError
    | some score => .ok score

def passed (env : Env) (score : ℚ) : Bool := env.similarityThreshold ≤ score

/-- The fields a finalizing call writes. -/
def updates (env : Env) (form : VerifyForm) (score : ℚ) : List (Field × Str) :=
  if passed env score then
    [(.phase, verified), (.bobName, form.bobName), (.bobPubkeyJwk, form.bobPubkeyJwk.dumps),
      (.similarityScore, scoreText score)]
  else [(.phase, failed), (.similarityScore, scoreText score)]

/-- The event a finalizing call publishes. -/
def event (env : Env) (form : VerifyForm) (score : ℚ) : Json :=
  if passed env score then
    SessionStore.verifiedEvent (.str form.bobName) form.bobPubkeyJwk (pct score)
  else SessionStore.failedEvent (pct score)

def passResponse (score : ℚ) (alicePubkeyJwk : Json) : Response :=
  ⟨200, .obj [(lit "result", .str (lit "PASS")), (lit "score", .int (pct score)),
    (lit "alice_pubkey_jwk", alicePubkeyJwk)]⟩

def failResponse (score : ℚ) : Response :=
  ⟨200, .obj [(lit "result", .str (lit "FAIL")), (lit "score", .int (pct score))]⟩

/-- The rest of `verify` once the script has answered. -/
def verifyResponse (env : Env) (session : Session) (score : ℚ) : SessionStore.Outcome → Result
  | .gone => .ok expiredWhileScoring
  | .completed => .ok alreadyCompleted
  | .won =>
    -- the creator's key comes from the snapshot, and leaves the server only here
    if passed env score then do
      let text ← field session .alicePubkeyJwk
      match Json.loads text with
      | none => .error .valueError
      | some jwk => .ok (passResponse score jwk)
    else .ok (failResponse score)

/-! ## Handlers as state machines -/

inductive Request where
  | create (body : Json)
  | get (sid : Str)
  | verify (sid : Str) (body : Json)
  | delete (sid : Str)
deriving DecidableEq

/-- Where a request stands. -/
inductive Handler where
  /-- `create_session` waits for `EmbeddingClient.embed(memory_answer)`. -/
  | embedding (form : CreateForm)
  /-- `create_session` is about to draw a session id. -/
  | naming (form : CreateForm) (embedding : Json)
  /-- `create_session` waits for its transaction. -/
  | creating (form : CreateForm) (embedding : Json) (sid createdAt : Str)
  /-- `get_session` waits for HGETALL. -/
  | reading (sid : Str)
  /-- `verify` waits for HGETALL. -/
  | loading (sid : Str) (form : VerifyForm)
  /-- `verify` waits for `EmbeddingClient.embed(answer)`. -/
  | scoring (sid : Str) (form : VerifyForm) (session : Session)
  /-- `verify` waits for the script. -/
  | finalizing (sid : Str) (form : VerifyForm) (session : Session) (bob : Json) (score : ℚ)
  /-- `delete_session` waits for DEL. -/
  | deleting (sid : Str)
  /-- The handler has returned or raised. -/
  | replying (result : Result)
  /-- The response has been sent. -/
  | done (response : Response)

namespace Handler

/-- Up to the first point where the handler waits. -/
def start : Request → Handler
  | .create body =>
    match validateSessionCreate body with
    | .error e => .replying (.error e)
    | .ok (some msg) => .replying (.ok (errorResponse 400 msg))
    | .ok none =>
      match createForm body with
      | some form => .embedding form
      -- the validator has made sure of the members
      | none => .replying (.error .keyError)
  | .get sid => .reading sid
  | .verify sid body =>
    match validateVerify body with
    | .error e => .replying (.error e)
    | .ok (some msg) => .replying (.ok (errorResponse 400 msg))
    | .ok none =>
      match verifyForm body with
      | some form => .loading sid form
      | none => .replying (.error .keyError)
  | .delete sid => .deleting sid

/-- `verify` with Bob's embedding in hand, up to the script. Redis encodes the arguments as UTF-8
before it sends anything. -/
def verifyScored (env : Env) (sid : Str) (form : VerifyForm) (session : Session) (bob : Json) :
    Handler :=
  match scoreOf env session bob with
  | .error e => .replying (.error e)
  | .ok score =>
    if passed env score && !wellFormed form.bobName then .replying (.error .unicodeError)
    else .finalizing sid form session bob score

/-- `EmbeddingClient.embed` returns. -/
def embed (env : Env) : Handler → Option Json → Option Handler
  | .embedding _, none => some (.replying (.ok embeddingUnavailable))
  | .embedding form, some v => some (.naming form v)
  | .scoring _ _ _, none => some (.replying (.ok embeddingBusy))
  | .scoring sid form session, some v => some (verifyScored env sid form session v)
  | _, _ => none

/-- `generate_session_id` returns; the transaction is prepared at time `now`. -/
def name (now : ℕ) (sid : Str) : Handler → Option Handler
  | .naming form v =>
    if wellFormed form.aliceName && wellFormed form.memoryQuestion then
      some (.creating form v sid (natText (now / 1000)))
    else some (.replying (.error .unicodeError))
  | _ => none

/-- `verify` with the snapshot in hand. -/
def verifyLoaded (sid : Str) (form : VerifyForm) (session : Option Session) : Handler :=
  match session with
  | none => .replying (.ok notFound)
  | some session =>
    match field session .phase with
    | .error e => .replying (.error e)
    | .ok phase =>
      -- a cheap early rejection; the script asks again
      if phase ≠ waitingForBob then .replying (.ok alreadyCompleted)
      else .scoring sid form session

end Handler

/-- A transaction of `create_session` that the server executed. -/
structure Creation where
  req : ℕ
  sid : Str
  form : CreateForm
  embedding : Json
  createdAt : Str
  instant : ℕ

/-- A finalize script of `verify` that returned 1. -/
structure Commit where
  req : ℕ
  sid : Str
  form : VerifyForm
  score : ℚ
deriving DecidableEq

/-- What a Redis command of a handler does. -/
structure Effect where
  store : Store
  published : List Message := []
  created : Option Creation := none
  committed : Option Commit := none

/-- The Redis command that request `r` waits for is executed, and the handler goes on with its
reply. -/
def Handler.redis (env : Env) (r : ℕ) (db : Store) : Handler → Option (Effect × Handler)
  | .creating form v sid createdAt =>
    -- the hash is there, also when its time to live is refused
    let run := SessionStore.create db sid form v createdAt env.sessionTtlSeconds
    some ({ store := run.1, created := some ⟨r, sid, form, v, createdAt, db.now⟩ },
          .replying (createStored env sid v run.2))
  | .reading sid => some ({ store := db }, .replying (getResponse (SessionStore.get db sid)))
  | .loading sid form =>
    some ({ store := db }, verifyLoaded sid form (SessionStore.get db sid))
  | .finalizing sid form session _ score =>
    -- the script reads the hash again; of the snapshot only the key is used from here on
    let run := SessionStore.finalize db sid (updates env form score) (event env form score)
    some ({ store := run.1, published := run.2.1,
            committed := if run.2.2 = .won then some ⟨r, sid, form, score⟩ else none },
          .replying (verifyResponse env session score run.2.2))
  | .deleting sid =>
    some ({ store := SessionStore.delete db sid }, .replying (.ok deleteResponse))
  | _ => none

end Doppelganger
