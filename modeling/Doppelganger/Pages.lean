import Doppelganger.Browser

/-!
# Alice's page and Bob's page

`session.js` as the browser runs it. An `await` ends a step: what the function goes on with is
a *task*, and the tasks of a page settle in any order. Between two awaits a function runs on
its own, so one step is one click, one settled promise or one event of an `EventSource`.

Nothing in the definitions keeps two tasks from being pending at once. That this cannot
happen is proved about them.

Only what decides the flow of keys is kept of the DOM: the screen that is shown and whether
`create-btn` and `submit-btn` are disabled. `posted`, `ended` and `passed` are histories.
-/

open Text

namespace Doppelganger

/-! ## Alice -/

inductive AliceScreen where
  | landing
  | create
  | waiting
  | alicePass
  | aliceFail
deriving DecidableEq

/-- What Alice's page waits for. -/
inductive AliceTask (W : Crypto) where
  /-- `generateKeyPair()`, in `initAlice` or `reset`. -/
  | generating
  /-- `exportPublicKey` of the new pair `p`, in `initAlice` or `reset`. -/
  | exporting (p : ℕ)
  /-- `exportPublicKey` of pair `p`, in `create`. -/
  | creating (aliceName memoryQuestion memoryAnswer : Str) (p : ℕ)
  /-- `fetch("/api/session")`, as request `r`. -/
  | posting (r : ℕ)
  /-- `resp.json()` of the answer, whatever its status. -/
  | reading (response : Response)
  /-- `importPublicKey` of the key in a VERIFIED of session `sid`. -/
  | importing (sid : Str) (jwk : Json)
  /-- `deriveSharedKey` of the private half of pair `p` and the imported key. -/
  | derivingKey (sid : Str) (p : ℕ) (key : W.PublicKey)

structure AlicePage (W : Crypto) where
  screen : AliceScreen
  aliceKeyPair : Option ℕ
  createDisabled : Bool
  tasks : List (AliceTask W)
  sources : List EventSource
  /-- The create requests that were sent, with the pair whose public half they carry. -/
  posted : List (ℕ × ℕ)
  /-- The sessions whose stream has delivered a terminal event. -/
  ended : List Str
  /-- The sessions that `step-alice-pass` was shown for, with the derived key. -/
  passed : List (Str × W.SharedKey)

namespace AlicePage

variable {W : Crypto}

/-- `initAlice`, up to its first await. -/
def init : AlicePage W where
  screen := .landing
  aliceKeyPair := none
  createDisabled := true
  tasks := [.generating]
  sources := []
  posted := []
  ended := []
  passed := []

/-- The `n`-th task goes on to its next await. -/
def goOn (page : AlicePage W) (n : ℕ) (task : AliceTask W) : AlicePage W :=
  { page with tasks := page.tasks.set n task }

/-- The `n`-th task is over. -/
def finish (page : AlicePage W) (n : ℕ) : AlicePage W :=
  { page with tasks := page.tasks.eraseIdx n }

/-- `reset`. -/
def reset (page : AlicePage W) : AlicePage W :=
  { page with createDisabled := true, tasks := page.tasks ++ [.generating] }

/-! ### Clicks -/

/-- "Start Verification". -/
def start (page : AlicePage W) : Option (AlicePage W) :=
  if page.screen = .landing then some { page with screen := .create } else none

/-- "Generate Challenge Link": `create`, up to its first await. -/
def create (aliceName memoryQuestion memoryAnswer : Str) (page : AlicePage W) :
    Option (AlicePage W) :=
  if page.screen = .create ∧ page.createDisabled = false then
    if trim aliceName = [] ∨ trim memoryQuestion = [] ∨ trim memoryAnswer = [] then some page
    else
      match page.aliceKeyPair with
      | none => some page
      | some p => some
        { page with
          createDisabled := true
          tasks := page.tasks ++
            [.creating (trim aliceName) (trim memoryQuestion) (trim memoryAnswer) p] }
  else none

/-- "Start New Verification" or "Try Again". -/
def again (page : AlicePage W) : Option (AlicePage W) :=
  if page.screen = .alicePass ∨ page.screen = .aliceFail then
    some { page.reset with screen := .create }
  else none

/-! ### Promises -/

/-- A pair is generated: `p` is the new one. -/
def generated (p n : ℕ) (page : AlicePage W) : Option (AlicePage W) :=
  match page.tasks[n]? with
  | some .generating => some { page.goOn n (.exporting p) with aliceKeyPair := some p }
  | _ => none

/-- The public half of a new pair is exported. -/
def exported (n : ℕ) (page : AlicePage W) : Option (AlicePage W) :=
  match page.tasks[n]? with
  | some (.exporting p) =>
    if ProtocolLog.keyGenerated (W.jwk p) then some { page.finish n with createDisabled := false }
    else some (page.finish n)
  | _ => none

/-- The body `create` posts. -/
def body (aliceName memoryQuestion memoryAnswer : Str) (jwk : Json) : Json :=
  .obj [(lit "alice_name", .str aliceName), (lit "memory_question", .str memoryQuestion),
    (lit "memory_answer", .str memoryAnswer), (lit "alice_pubkey_jwk", jwk)]

/-- The public half is exported for `create`, which sends request `r`. -/
def post (n r : ℕ) (page : AlicePage W) : Option (AlicePage W × Request) :=
  match page.tasks[n]? with
  | some (.creating aliceName memoryQuestion memoryAnswer p) =>
    if Json.sliceable ((W.jwk p).get? (lit "x")) then
      some ({ page.goOn n (.posting r) with posted := (r, p) :: page.posted },
        .create (body aliceName memoryQuestion memoryAnswer (W.jwk p)))
    else none
  | _ => none

/-- The answer to a create request is here. -/
def answered (answer : ℕ → Option Response) (n : ℕ) (page : AlicePage W) : Option (AlicePage W) :=
  match page.tasks[n]? with
  | some (.posting r) => (answer r).map fun response => page.goOn n (.reading response)
  | _ => none

/-- `createBtn.disabled = false`, after an error answer or in the `catch` of `create`. -/
def enable (page : AlicePage W) : AlicePage W := { page with createDisabled := false }

/-- `connectAliceSSE`. -/
def connectAliceSSE (sid : Str) (page : AlicePage W) : AlicePage W :=
  { page with sources := page.sources ++ [⟨sid, none⟩] }

/-- `create` from the parsed answer on. -/
def created (response : Response) (page : AlicePage W) : AlicePage W :=
  if !response.ok then page.enable
  else
    match response.json with
    | none => page.enable
    | some data =>
      match data.get? (lit "session_id") with
      | some (.str sid) =>
        -- the screen has changed when the preview is logged; what it throws is caught
        if ProtocolLog.embeddingReceived data then
          connectAliceSSE sid { page with screen := .waiting }
        else enable { page with screen := .waiting }
      | _ => page.enable

def read (n : ℕ) (page : AlicePage W) : Option (AlicePage W) :=
  match page.tasks[n]? with
  | some (.reading response) => some ((page.finish n).created response)
  | _ => none

/-- Bob's key is imported; only now `aliceKeyPair` is read. -/
def imported (n : ℕ) (page : AlicePage W) : Option (AlicePage W) :=
  match page.tasks[n]? with
  | some (.importing sid jwk) =>
    match W.importPublicKey jwk with
    | none => none
    | some key =>
      match page.aliceKeyPair with
      | none => some (page.finish n)
      | some p => some (page.goOn n (.derivingKey sid p key))
  | _ => none

def derived (n : ℕ) (page : AlicePage W) : Option (AlicePage W) :=
  match page.tasks[n]? with
  | some (.derivingKey sid p key) =>
    some { page.finish n with
      screen := .alicePass
      passed := (sid, W.derived p key) :: page.passed }
  | _ => none

/-- What a task waits for is rejected. `create` catches it; elsewhere the function is over. -/
def rejected (n : ℕ) (page : AlicePage W) : Option (AlicePage W) :=
  match page.tasks[n]? with
  | some (.creating _ _ _ _) => some (page.finish n).enable
  | some (.posting _) => some (page.finish n).enable
  | some (.reading _) => some (page.finish n).enable
  | some _ => some (page.finish n)
  | none => none

/-! ### The event stream -/

/-- Event source `n` is connected to stream `i`; returns the session it asks for. -/
def connected (n i : ℕ) (page : AlicePage W) : Option (AlicePage W × Str) :=
  match page.sources[n]? with
  | some ⟨sid, none⟩ => some ({ page with sources := page.sources.set n ⟨sid, some (i, 0)⟩ }, sid)
  | _ => none

/-- Event source `n` loses its connection, or the stream ends; it will reconnect. -/
def dropped (n : ℕ) (page : AlicePage W) : Option (AlicePage W) :=
  match page.sources[n]? with
  | some ⟨sid, some _⟩ => some { page with sources := page.sources.set n ⟨sid, none⟩ }
  | _ => none

/-- `es.close()`. -/
def close (page : AlicePage W) (n : ℕ) : AlicePage W :=
  { page with sources := page.sources.eraseIdx n }

/-- Event source `n` is answered with a status other than 200: it is closed for good, and `es.onerror`
only logs that. -/
def refused (streams : ℕ → Option Stream) (n : ℕ) (page : AlicePage W) : Option (AlicePage W) :=
  match page.sources[n]? with
  | some ⟨_, some (i, _)⟩ =>
    match (streams i).map Stream.pc with
    | some (.refused _) => some (page.close n)
    | _ => none
  | _ => none

/-- `es.onmessage` with a parsed event, from `ProtocolLog.sseEvent` on. -/
def onevent (n : ℕ) (sid : Str) (event : Json) (page : AlicePage W) : AlicePage W :=
  if !ProtocolLog.sseEvent event then page
  else if event.get? (lit "event") = some (.str verified) then
    match event.get? (lit "bob_pubkey_jwk") with
    | some jwk =>
      if Json.sliceable (jwk.get? (lit "x")) then
        { page.close n with tasks := page.tasks ++ [.importing sid jwk] }
      else page.close n
    | none => page.close n
  else if event.get? (lit "event") = some (.str failed) then
    { page.close n with screen := .aliceFail }
  else if event.get? (lit "event") = some (.str expired) then
    { (page.close n).reset with screen := .create }
  else page

/-- `es.onmessage`. -/
def onmessage (n : ℕ) (sid data : Str) (page : AlicePage W) : AlicePage W :=
  let page := if isTerminal data = some true then { page with ended := sid :: page.ended } else page
  match Json.parse data with
  | none => page
  | some event => page.onevent n sid event

/-- Event source `n` reads the next chunk of its stream. -/
def received (streams : ℕ → Option Stream) (n : ℕ) (page : AlicePage W) : Option (AlicePage W) :=
  match page.sources[n]? with
  | some ⟨sid, some (i, k)⟩ =>
    match (streams i).bind fun st => st.out[k]? with
    | none => none
    | some chunk =>
      let page := { page with sources := page.sources.set n ⟨sid, some (i, k + 1)⟩ }
      match chunk with
      | .message data => some (page.onmessage n sid data)
      | _ => some page
  | _ => none

end AlicePage

/-! ## Bob -/

inductive BobScreen where
  | loading
  | bobChallenge
  | scoring
  | bobPass
  | bobFail
  | expired
deriving DecidableEq

/-- What Bob's page waits for. -/
inductive BobTask (W : Crypto) where
  /-- `generateKeyPair()`, in `initBob`. -/
  | generating
  /-- `exportPublicKey` of the new pair, in `initBob`. -/
  | exporting (p : ℕ)
  /-- `fetch("/api/session/sid")`, as request `r`. -/
  | fetching (r : ℕ)
  /-- `resp.json()` of the session. -/
  | loading (response : Response)
  /-- `exportPublicKey` of pair `p`, in `submitAnswer`. -/
  | submitting (bobName answer : Str) (p : ℕ)
  /-- `fetch("/api/session/sid/verify")`, as request `r`. -/
  | posting (r : ℕ)
  /-- `resp.json()` of the result. -/
  | reading (response : Response)
  /-- `importPublicKey` of the key in a PASS. -/
  | importing (jwk : Json)
  /-- `deriveSharedKey` of the private half of pair `p` and the imported key. -/
  | derivingKey (p : ℕ) (key : W.PublicKey)

structure BobPage (W : Crypto) where
  /-- `SESSION_ID`. -/
  sid : Str
  screen : BobScreen
  bobKeyPair : Option ℕ
  submitDisabled : Bool
  tasks : List (BobTask W)
  /-- The verify requests that were sent, with the pair whose public half they carry. -/
  posted : List (ℕ × ℕ)
  /-- The keys derived when `step-bob-pass` was shown. -/
  passed : List W.SharedKey

namespace BobPage

variable {W : Crypto}

/-- `initBob`, up to its first await. -/
def init (sid : Str) : BobPage W where
  sid := sid
  screen := .loading
  bobKeyPair := none
  submitDisabled := true
  tasks := [.generating]
  posted := []
  passed := []

def goOn (page : BobPage W) (n : ℕ) (task : BobTask W) : BobPage W :=
  { page with tasks := page.tasks.set n task }

def finish (page : BobPage W) (n : ℕ) : BobPage W :=
  { page with tasks := page.tasks.eraseIdx n }

/-- "Submit Answer": `submitAnswer`, up to its first await. -/
def submit (bobName answer : Str) (page : BobPage W) : Option (BobPage W) :=
  if page.screen = .bobChallenge ∧ page.submitDisabled = false then
    if trim bobName = [] ∨ trim answer = [] then some page
    else
      match page.bobKeyPair with
      | none => some page
      | some p => some
        { page with
          submitDisabled := true
          screen := .scoring
          tasks := page.tasks ++ [.submitting (trim bobName) (trim answer) p] }
  else none

/-! ### Loading the challenge -/

/-- The pair is generated. -/
def generated (p n : ℕ) (page : BobPage W) : Option (BobPage W) :=
  match page.tasks[n]? with
  | some .generating => some { page.goOn n (.exporting p) with bobKeyPair := some p }
  | _ => none

/-- The public half is exported, and `initBob` asks for the session with request `r`. -/
def fetch (n r : ℕ) (page : BobPage W) : Option (BobPage W × Request) :=
  match page.tasks[n]? with
  | some (.exporting p) =>
    let page := page.goOn n (.fetching r)
    if ProtocolLog.keyGenerated (W.jwk p) then
      some ({ page with submitDisabled := false }, .get page.sid)
    else some (page, .get page.sid)
  | _ => none

/-- There will be no pair, or its public half is not exported; `initBob` asks for the session with
request `r` all the same. -/
def keyless (n r : ℕ) (page : BobPage W) : Option (BobPage W × Request) :=
  match page.tasks[n]? with
  | some .generating => some (page.goOn n (.fetching r), .get page.sid)
  | some (.exporting _) => some (page.goOn n (.fetching r), .get page.sid)
  | _ => none

/-- The end of `initBob`. -/
def loaded (response : Response) (page : BobPage W) : BobPage W :=
  match response.json with
  | none => { page with screen := .expired }
  | some data =>
    if data.get? (lit "phase") = some (.str waitingForBob) then
      { page with screen := .bobChallenge }
    else { page with screen := .expired }

/-! ### Answering it -/

/-- The body `submitAnswer` posts. -/
def body (bobName answer : Str) (jwk : Json) : Json :=
  .obj [(lit "bob_name", .str bobName), (lit "answer", .str answer), (lit "bob_pubkey_jwk", jwk)]

/-- The public half is exported for `submitAnswer`, which sends request `r`. -/
def post (n r : ℕ) (page : BobPage W) : Option (BobPage W × Request) :=
  match page.tasks[n]? with
  | some (.submitting bobName answer p) =>
    some ({ page.goOn n (.posting r) with posted := (r, p) :: page.posted },
      .verify page.sid (body bobName answer (W.jwk p)))
  | _ => none

/-- The `catch` of `submitAnswer`. -/
def retry (page : BobPage W) : BobPage W :=
  { page with screen := .bobChallenge, submitDisabled := false }

/-- `submitAnswer` from `data` on, with task `n`. -/
def verified (n : ℕ) (response : Response) (data : Json) (page : BobPage W) : BobPage W :=
  if response.status = 404 ∨ response.status = 409 then { page.finish n with screen := .expired }
  else if !response.ok then (page.finish n).retry
  else if data.get? (lit "result") = some (.str (lit "PASS")) then
    match data.get? (lit "alice_pubkey_jwk") with
    | some jwk =>
      if Json.sliceable (jwk.get? (lit "x")) then page.goOn n (.importing jwk)
      else (page.finish n).retry
    | none => (page.finish n).retry
  else { page.finish n with screen := .bobFail }

/-- The answer to a request is here. -/
def answered (answer : ℕ → Option Response) (n : ℕ) (page : BobPage W) : Option (BobPage W) :=
  match page.tasks[n]? with
  | some (.fetching r) => (answer r).map fun response =>
    if response.status = 404 then { page.finish n with screen := .expired }
    else page.goOn n (.loading response)
  | some (.posting r) => (answer r).map fun response => page.goOn n (.reading response)
  | _ => none

/-- `resp.json()` is settled; `submitAnswer` goes on with an empty object where it is rejected. -/
def read (n : ℕ) (page : BobPage W) : Option (BobPage W) :=
  match page.tasks[n]? with
  | some (.loading response) => some ((page.finish n).loaded response)
  | some (.reading response) => some (page.verified n response (response.json.getD (.obj [])))
  | _ => none

/-- Alice's key is imported. -/
def imported (n : ℕ) (page : BobPage W) : Option (BobPage W) :=
  match page.tasks[n]? with
  | some (.importing jwk) =>
    match W.importPublicKey jwk with
    | none => none
    | some key =>
      match page.bobKeyPair with
      | none => some (page.finish n).retry
      | some p => some (page.goOn n (.derivingKey p key))
  | _ => none

def derived (n : ℕ) (page : BobPage W) : Option (BobPage W) :=
  match page.tasks[n]? with
  | some (.derivingKey p key) =>
    some { page.finish n with screen := .bobPass, passed := W.derived p key :: page.passed }
  | _ => none

/-- What a task waits for is rejected, or the body of an answer is cut off. -/
def rejected (n : ℕ) (page : BobPage W) : Option (BobPage W) :=
  match page.tasks[n]? with
  | some (.fetching _) => some { page.finish n with screen := .expired }
  | some (.loading _) => some { page.finish n with screen := .expired }
  | some (.submitting _ _ _) => some (page.finish n).retry
  | some (.posting _) => some (page.finish n).retry
  | some (.reading response) => some (page.verified n response (.obj []))
  | some (.importing _) => some (page.finish n).retry
  | some (.derivingKey _ _) => some (page.finish n).retry
  | _ => none

end BobPage

/-! ## Everyone together

One page of Alice's, any number of Bob's, and the server. The server's own labels are all
allowed, so requests and streams of anyone else take part. -/

structure World (W : Crypto) where
  server : State
  alice : AlicePage W
  bobs : ℕ → Option (BobPage W)
  /-- How many key pairs have been generated. -/
  pairs : ℕ

/-- What happens in Alice's page. `n` is a task or an event source. -/
inductive AliceAct where
  | start
  | create (aliceName memoryQuestion memoryAnswer : Str)
  | again
  | generated (n : ℕ)
  | exported (n : ℕ)
  /-- Task `n` sends request `r`. -/
  | post (n r : ℕ) (limited : Bool)
  | answered (n : ℕ)
  | read (n : ℕ)
  | imported (n : ℕ)
  | derived (n : ℕ)
  | rejected (n : ℕ)
  /-- Event source `n` is connected to stream `i`, served by worker `w`. -/
  | connected (n i w : ℕ)
  | received (n : ℕ)
  | dropped (n : ℕ)
  | refused (n : ℕ)
deriving DecidableEq

/-- What happens in a page of Bob's. -/
inductive BobAct where
  /-- The page is opened. -/
  | init (sid : Str)
  | submit (bobName answer : Str)
  | generated (n : ℕ)
  | fetch (n r : ℕ) (limited : Bool)
  | keyless (n r : ℕ) (limited : Bool)
  | post (n r : ℕ) (limited : Bool)
  | answered (n : ℕ)
  | read (n : ℕ)
  | imported (n : ℕ)
  | derived (n : ℕ)
  | rejected (n : ℕ)
deriving DecidableEq

inductive Event where
  | server (l : Label)
  | alice (act : AliceAct)
  | bob (b : ℕ) (act : BobAct)
deriving DecidableEq

namespace World

variable {W : Crypto}

def init : World W where
  server := State.init
  alice := AlicePage.init
  bobs := fun _ => none
  pairs := 0

def setAlice (w : World W) (page : AlicePage W) : World W := { w with alice := page }

@[simp] theorem setAlice_alice (w : World W) (page : AlicePage W) :
    (w.setAlice page).alice = page := rfl

def setBob (w : World W) (b : ℕ) (page : BobPage W) : World W :=
  { w with bobs := Function.update w.bobs b (some page) }

variable (env : Env)

/-- A step of Alice's page. -/
def aliceStep (w : World W) : AliceAct → Option (World W)
  | .start => w.alice.start.map w.setAlice
  | .create aliceName memoryQuestion memoryAnswer =>
    (w.alice.create aliceName memoryQuestion memoryAnswer).map w.setAlice
  | .again => w.alice.again.map w.setAlice
  | .generated n => do
    let page ← w.alice.generated w.pairs n
    return { w.setAlice page with pairs := w.pairs + 1 }
  | .exported n => (w.alice.exported n).map w.setAlice
  | .post n r limited => do
    let (page, q) ← w.alice.post n r
    let server ← step env (.request r q limited) w.server
    return { w.setAlice page with server }
  | .answered n => (w.alice.answered w.server.answer? n).map w.setAlice
  | .read n => (w.alice.read n).map w.setAlice
  | .imported n => (w.alice.imported n).map w.setAlice
  | .derived n => (w.alice.derived n).map w.setAlice
  | .rejected n => (w.alice.rejected n).map w.setAlice
  | .connected n i k => do
    let (page, sid) ← w.alice.connected n i
    let server ← step env (.stream i sid k) w.server
    return { w.setAlice page with server }
  | .received n => (w.alice.received w.server.streams n).map w.setAlice
  | .dropped n => (w.alice.dropped n).map w.setAlice
  | .refused n => (w.alice.refused w.server.streams n).map w.setAlice

/-- Page `b` of Bob's, after `f`. -/
def ofBob (w : World W) (b : ℕ) (f : BobPage W → Option (BobPage W)) : Option (World W) :=
  ((w.bobs b).bind f).map (w.setBob b)

/-- Page `b` of Bob's after `f`, which sends request `r`. -/
def ofBobSending (w : World W) (b r : ℕ) (limited : Bool)
    (f : BobPage W → Option (BobPage W × Request)) : Option (World W) := do
  let page ← w.bobs b
  let (page, q) ← f page
  let server ← step env (.request r q limited) w.server
  return { w.setBob b page with server }

/-- A step of page `b` of Bob's. -/
def bobStep (w : World W) (b : ℕ) : BobAct → Option (World W)
  | .init sid =>
    match w.bobs b with
    | some _ => none
    | none => some (w.setBob b (BobPage.init sid))
  | .submit bobName answer => w.ofBob b (BobPage.submit bobName answer)
  | .generated n =>
    (w.ofBob b (BobPage.generated w.pairs n)).map fun w' => { w' with pairs := w.pairs + 1 }
  | .fetch n r limited => w.ofBobSending env b r limited (BobPage.fetch n r)
  | .keyless n r limited => w.ofBobSending env b r limited (BobPage.keyless n r)
  | .post n r limited => w.ofBobSending env b r limited (BobPage.post n r)
  | .answered n => w.ofBob b (BobPage.answered w.server.answer? n)
  | .read n => w.ofBob b (BobPage.read n)
  | .imported n => w.ofBob b (BobPage.imported n)
  | .derived n => w.ofBob b (BobPage.derived n)
  | .rejected n => w.ofBob b (BobPage.rejected n)

def next : Event → World W → Option (World W)
  | .server l, w => (step env l w.server).map fun server => { w with server }
  | .alice act, w => w.aliceStep env act
  | .bob b act, w => w.bobStep env b act

end World

/-- The pages and the server. -/
def world (env : Env) (W : Crypto) : Lts (World W) Event := ⟨World.init, World.next env⟩

end Doppelganger
