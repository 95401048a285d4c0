import Doppelganger.EventHub

/-!
# Alice's event stream

`event_stream` checks that the session exists and returns a generator. The
generator runs from one `yield` to the next; between them it waits for Redis
(`terminal_event`) or for its queue. `StreamPc` names the points where it can be
stopped, `Stream.redis` is one Redis read, `Stream.advance` the local step to the
next point, `Stream.close` the client going away at a `yield`.

Subscribing is part of the step that leaves `created`, unsubscribing (the
`finally` block) of the step that leaves `leaving`.
-/

open Text Redis

namespace Doppelganger

/-- `HEARTBEAT_SECONDS`, in milliseconds. -/
def heartbeat : ℕ := 15 * 1000

/-- `MAX_STREAM_SECONDS`, in milliseconds. -/
def maxStream : ℕ := 15 * 60 * 1000

def terminalEvents : List Str := [verified, failed, expired]

/-- What a stream yields. -/
inductive Chunk where
  | retry
  | message (data : Str)
  | keepalive
deriving DecidableEq

/-- The text of a chunk; a message is what `_sse` makes of its data. -/
def Chunk.text : Chunk → Str
  | .retry => lit "retry: 5000\n\n"
  | .message data => lit "data: " ++ data ++ lit "\n\n"
  | .keepalive => lit ": keepalive\n\n"

def connectedEvent (phase : Str) : Json :=
  .obj [(lit "event", .str (lit "CONNECTED")), (lit "phase", .str phase)]

/-- Where a stream stands. -/
inductive StreamPc where
  /-- The route waits for `get_phase`. -/
  | checkingPhase
  /-- Answered without a stream. -/
  | refused (status : ℕ)
  /-- The generator exists and has not started. -/
  | created (phase : Str)
  /-- At the `yield` of the retry line. -/
  | atRetry (phase : Str)
  /-- At the `yield` of CONNECTED. -/
  | atConnected
  /-- Waiting for the first `terminal_event`. -/
  | checking
  /-- The first `terminal_event` found nothing; the deadline is not set yet. -/
  | armed
  /-- At the head of the loop. -/
  | looping (deadline : ℕ)
  /-- In `q.get(timeout=HEARTBEAT_SECONDS)` since `since`. -/
  | waiting (deadline since : ℕ)
  /-- The queue was empty; waiting for `terminal_event`. -/
  | polling (deadline : ℕ)
  /-- At the `yield` of a message taken from the queue. -/
  | atMessage (deadline : ℕ) (data : Str)
  /-- At the `yield` of a keepalive comment. -/
  | atKeepalive (deadline : ℕ)
  /-- At the `yield` of a final event the stream made itself. -/
  | atLast
  /-- About to run `finally`. -/
  | leaving
  | closed
deriving DecidableEq

structure Stream where
  sid : Str
  worker : ℕ
  pc : StreamPc
  queue : List Str
  out : List Chunk
deriving DecidableEq

/-- `json.loads(data).get("event") in TERMINAL_EVENTS`; `none` where it raises. -/
def isTerminal (data : Str) : Option Bool :=
  match Json.loads data with
  | some (.obj ms) =>
    match Json.lookup (lit "event") ms with
    | some (.str e) => some (e ∈ terminalEvents)
    | _ => some false
  | _ => none

theorem isTerminal_dumps {ms : List (Str × Json)} {e : Str}
    (h : Json.lookup (lit "event") ms = some (.str e)) (he : e ∈ terminalEvents) :
    isTerminal (Json.obj ms).dumps = some true := by
  simp [isTerminal, Json.loads_dumps, h, he]

namespace Stream

def new (sid : Str) (worker : ℕ) : Stream := ⟨sid, worker, .checkingPhase, [], []⟩

/-- Yield a chunk and stop there. -/
def yield (st : Stream) (chunk : Chunk) (pc : StreamPc) : Stream :=
  { st with out := st.out ++ [chunk], pc := pc }

/-- What follows a `terminal_event` call: yield what it rebuilt, or go on. -/
def checked (st : Stream) (final : Except Exc (Option Json)) (goOn : Stream) : Stream :=
  match final with
  | .error _ => { st with pc := .leaving }
  | .ok (some e) => st.yield (.message e.dumps) .atLast
  | .ok none => goOn

/-- The Redis read the stream waits for, and the code up to the next point. -/
def redis (db : Store) (st : Stream) : Option Stream :=
  match st.pc with
  | .checkingPhase =>
    match SessionStore.getPhase db st.sid with
    | none => some { st with pc := .refused 404 }
    | some phase => some { st with pc := .created phase }
  | .checking =>
    some (st.checked (SessionStore.terminalEvent db st.sid) { st with pc := .armed })
  | .polling deadline =>
    some (st.checked (SessionStore.terminalEvent db st.sid)
      (st.yield .keepalive (.atKeepalive deadline)))
  | _ => none

/-- The read raised a `RedisError`. -/
def fail (st : Stream) : Option Stream :=
  match st.pc with
  | .checkingPhase => some { st with pc := .refused 503 }
  | .checking => some { st with pc := .leaving }
  | .polling _ => some { st with pc := .leaving }
  | _ => none

/-- One local step at time `now`; `none` where the stream is blocked or over. -/
def advance (now : ℕ) (st : Stream) : Option Stream :=
  match st.pc with
  | .created phase => some (st.yield .retry (.atRetry phase))
  | .atRetry phase => some (st.yield (.message (connectedEvent phase).dumps) .atConnected)
  | .atConnected => some { st with pc := .checking }
  | .armed => some { st with pc := .looping (now + maxStream) }
  | .looping deadline =>
    if now < deadline then some { st with pc := .waiting deadline now }
    else some (st.yield (.message SessionStore.expiredEvent.dumps) .atLast)
  | .waiting deadline since =>
    match st.queue with
    | data :: queue => some ({ st with queue := queue }.yield (.message data) (.atMessage deadline data))
    | [] => if since + heartbeat ≤ now then some { st with pc := .polling deadline } else none
  | .atMessage deadline data =>
    match isTerminal data with
    | some false => some { st with pc := .looping deadline }
    | _ => some { st with pc := .leaving }
  | .atKeepalive deadline => some { st with pc := .looping deadline }
  | .atLast => some { st with pc := .leaving }
  | .leaving => some { st with pc := .closed }
  | _ => none

/-- The client closes the response while the generator is stopped at a `yield`, or before it
started. -/
def close (st : Stream) : Option Stream :=
  match st.pc with
  | .created _ => some { st with pc := .closed }
  | .atRetry _ => some { st with pc := .leaving }
  | .atConnected => some { st with pc := .leaving }
  | .atMessage _ _ => some { st with pc := .leaving }
  | .atKeepalive _ => some { st with pc := .leaving }
  | .atLast => some { st with pc := .leaving }
  | _ => none

/-- What the step that leaves this point does to the hub. -/
def hubStep (st : Stream) (q : ℕ) (hub : Hub) : Hub :=
  match st.pc with
  | .created _ => EventHub.subscribe hub st.sid q
  | .leaving => EventHub.unsubscribe hub st.sid q
  | _ => hub

end Stream

end Doppelganger
