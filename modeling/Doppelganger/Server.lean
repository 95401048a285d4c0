import Doppelganger.Lib.Lts
import Doppelganger.Routes
import Doppelganger.Stream

/-!
# The server as a machine

Any number of requests and streams, any number of worker processes, one Redis.
A step is one Redis command of a request or a stream, one local step, one
delivery in a worker, or the clock moving on; the label names it together with
every choice the outside makes (request bodies, the embedding service's answers,
the session id drawn, lost replies, lost messages).

`ids`, `published`, `creations` and `commits` are histories: nothing reads them
but the freshness of a drawn session id.
-/

open Text Redis

namespace Doppelganger

/-- What happened to the reply of a Redis command. -/
inductive Fault where
  | none
  /-- A `RedisError` before the server executed the command. -/
  | before
  /-- The server executed the command and its reply was lost. -/
  | after
deriving DecidableEq

inductive Label where
  /-- Request `r` arrives; `limited` when the rate limiter turns it away. -/
  | request (r : ℕ) (q : Request) (limited : Bool)
  /-- The embedding call of request `r` returns. -/
  | embed (r : ℕ) (result : Option Json)
  /-- Request `r` draws the session id `sid`. -/
  | name (r : ℕ) (sid : Str)
  /-- The Redis command of request `r`. -/
  | redis (r : ℕ) (fault : Fault)
  /-- The response of request `r` is sent. -/
  | answer (r : ℕ)
  /-- Stream `i` on session `sid` is requested from worker `w`. -/
  | stream (i : ℕ) (sid : Str) (w : ℕ)
  /-- The Redis read of stream `i`. -/
  | read (i : ℕ) (fault : Fault)
  /-- A local step of stream `i`. -/
  | advance (i : ℕ)
  /-- The client of stream `i` goes away. -/
  | close (i : ℕ)
  /-- The listener of worker `w` is subscribed. -/
  | listen (w : ℕ)
  /-- The listener of worker `w` loses its connection. -/
  | disconnect (w : ℕ)
  /-- The listener of worker `w` takes the next message. -/
  | deliver (w : ℕ)
  /-- The `n`-th message on its way to worker `w` is lost. -/
  | lose (w n : ℕ)
  /-- The clock moves on by `d` milliseconds. -/
  | tick (d : ℕ)
deriving DecidableEq

@[ext] structure Req where
  request : Request
  handler : Handler

/-- The response, once it has been sent. -/
def Handler.sent? : Handler → Option Response
  | .done response => some response
  | _ => none

structure Worker where
  hub : Hub
  listening : Bool
  inflight : List Message

structure State where
  store : Store
  reqs : ℕ → Option Req
  streams : ℕ → Option Stream
  workers : ℕ → Worker
  ids : List Str
  published : List Message
  creations : List Creation
  commits : List Commit

namespace State

def init : State where
  store := Server.init
  reqs := fun _ => none
  streams := fun _ => none
  workers := fun _ => ⟨EventHub.empty, false, []⟩
  ids := []
  published := []
  creations := []
  commits := []

def setReq (σ : State) (r : ℕ) (req : Req) : State :=
  { σ with reqs := Function.update σ.reqs r (some req) }

def setStream (σ : State) (i : ℕ) (st : Stream) : State :=
  { σ with streams := Function.update σ.streams i (some st) }

def setWorker (σ : State) (w : ℕ) (worker : Worker) : State :=
  { σ with workers := Function.update σ.workers w worker }

/-- The effect of a Redis command: published messages are on their way to every worker whose
listener is subscribed. -/
def apply (σ : State) (e : Effect) : State :=
  { σ with
    store := e.store
    workers := fun w =>
      { σ.workers w with
        inflight := if (σ.workers w).listening then (σ.workers w).inflight ++ e.published
          else (σ.workers w).inflight }
    published := σ.published ++ e.published
    creations := σ.creations ++ e.created.toList
    commits := σ.commits ++ e.committed.toList }

/-- Offer a message to the queues the hub of worker `w` has registered for its session. -/
def deliverTo (σ : State) (w : ℕ) (m : Message) : State :=
  { σ with
    streams := fun i => (σ.streams i).map fun st =>
      if i ∈ EventHub.targets (σ.workers w).hub (EventHub.sessionOfChannel m.channel) then
        { st with queue := EventHub.putNowait st.queue m.data }
      else st }

/-- The request `r` is. -/
def request? (σ : State) (r : ℕ) : Option Request := (σ.reqs r).map Req.request

/-- The response request `r` was sent. -/
def answer? (σ : State) (r : ℕ) : Option Response := (σ.reqs r).bind fun req => req.handler.sent?

end State

variable (env : Env)

/-- One step of the server. -/
def step : Label → State → Option State
  | .request r q limited, σ =>
    match σ.reqs r with
    | some _ => none
    | none => some (σ.setReq r ⟨q, if limited then .replying (.ok rateLimited) else .start q⟩)
  | .embed r result, σ => do
    let req ← σ.reqs r
    let handler ← req.handler.embed env result
    return σ.setReq r { req with handler }
  | .name r sid, σ => do
    let req ← σ.reqs r
    let handler ← req.handler.name σ.store.now sid
    if sid ∈ σ.ids then none
    else return { σ.setReq r { req with handler } with ids := sid :: σ.ids }
  | .redis r fault, σ => do
    let req ← σ.reqs r
    let (effect, handler) ← req.handler.redis env r σ.store
    match fault with
    | .none => return (σ.apply effect).setReq r { req with handler }
    | .before => return σ.setReq r { req with handler := .replying (.error .redisError) }
    | .after =>
      return (σ.apply effect).setReq r { req with handler := .replying (.error .redisError) }
  | .answer r, σ => do
    let req ← σ.reqs r
    match req.handler with
    | .replying result => return σ.setReq r { req with handler := .done (answerOf result) }
    | _ => none
  | .stream i sid w, σ =>
    match σ.streams i with
    | some _ => none
    | none => some (σ.setStream i (Stream.new sid w))
  | .read i fault, σ => do
    let st ← σ.streams i
    let st ← match fault with
      | .none => st.redis σ.store
      | _ => st.fail
    return σ.setStream i st
  | .advance i, σ => do
    let st ← σ.streams i
    let st' ← st.advance σ.store.now
    let worker := σ.workers st.worker
    return (σ.setWorker st.worker { worker with hub := st.hubStep i worker.hub }).setStream i st'
  | .close i, σ => do
    let st ← σ.streams i
    let st ← st.close
    return σ.setStream i st
  | .listen w, σ => some (σ.setWorker w { σ.workers w with listening := true })
  | .disconnect w, σ => some (σ.setWorker w { σ.workers w with listening := false })
  | .deliver w, σ =>
    match (σ.workers w).inflight with
    | [] => none
    | m :: rest => some ((σ.deliverTo w m).setWorker w { σ.workers w with inflight := rest })
  | .lose w n, σ =>
    some (σ.setWorker w
      { σ.workers w with inflight := (σ.workers w).inflight.eraseIdx n })
  | .tick d, σ => some { σ with store := σ.store.tick d }

/-- The server. -/
def server : Lts State Label := ⟨State.init, step env⟩

/-! ## A sample run

Used where a theorem is shown to apply: vectors that are equal have similarity one, others are
orthogonal. -/

namespace Sample

def config : Env where
  sessionTtlSeconds := 600
  similarityThreshold := 3 / 4
  baseUrl := lit "https://doppelgangerprotocol.app"
  cosineSimilarity := fun a b => some (if a = b then 1 else 0)
  roundFloat := id
  generateQr := some

def jwk (x : Str) : Json :=
  .obj [(lit "kty", .str (lit "EC")), (lit "crv", .str (lit "P-256")), (lit "x", .str x)]

def createBody (pubkey : Json) : Json :=
  .obj [(lit "alice_name", .str (lit "Alice")), (lit "memory_question", .str (lit "Where?")),
    (lit "memory_answer", .str (lit "Porto")), (lit "alice_pubkey_jwk", pubkey)]

def verifyBody (name : Str) : Json :=
  .obj [(lit "bob_name", .str name), (lit "answer", .str (lit "porto")),
    (lit "bob_pubkey_jwk", jwk name)]

def sid : Str := lit "s1"

def vector : Json := .arr [.int 1, .int 0]

def otherVector : Json := .arr [.int 0, .int 1]

/-- Request 0 creates the session. -/
def create : List Label :=
  [.request 0 (.create (createBody (jwk (lit "alice")))) false, .embed 0 (some vector),
    .name 0 sid, .redis 0 .none, .answer 0]

/-- Request `r` answers the challenge with an answer whose embedding is `v`, up to the script. -/
def score (r : ℕ) (name : Str) (v : Json) : List Label :=
  [.request r (.verify sid (verifyBody name)) false, .redis r .none, .embed r (some v)]

/-- Stream `i` on worker `w`, up to its first `terminal_event`. -/
def openStream (i w : ℕ) : List Label :=
  [.stream i sid w, .read i .none, .advance i, .advance i, .advance i]

/-- From a first `terminal_event` that finds nothing to the first wait. -/
def startWaiting (i : ℕ) : List Label := [.read i .none, .advance i, .advance i]

/-- The challenge is answered by request 1, which wins. -/
def won : List Label := create ++ score 1 (lit "bob") vector ++ [.redis 1 .none]

/-- The session runs out of time while Alice waits and nobody has answered; the answer of request 1
could not be embedded. The stream is about to make its heartbeat check. -/
def timedOut : List Label :=
  create ++ openStream 0 0 ++ startWaiting 0 ++
    [.request 1 (.verify sid (verifyBody (lit "bob"))) false, .redis 1 .none, .embed 1 none,
      .answer 1, .tick 600000, .advance 0]

/-- Request 1 wins while the stream is about to make its first check; before it does, the session
runs out of time. -/
def wonAndGone : List Label :=
  create ++ [.listen 0, .tick 599000] ++ openStream 0 0 ++ score 1 (lit "bob") vector ++
    [.redis 1 .none, .answer 1, .deliver 0, .tick 1000]

/-- Alice's stream is subscribed and about to make its first check. -/
def subscribed : List Label := create ++ [.listen 0] ++ openStream 0 0

/-- Alice waits while the challenge is answered, and hears about it. -/
def delivered : List Label :=
  subscribed ++ startWaiting 0 ++ score 1 (lit "bob") vector ++
    [.redis 1 .none, .answer 1, .deliver 0, .advance 0]

end Sample

end Doppelganger
