import Doppelganger.Embedding
import Doppelganger.Lib.BoundedSemaphore

/-!
# Concurrent embedding calls

Any number of calls of `EmbeddingClient.embed` share the bounded semaphore `_slots`. What
a call does between two points where others can run is one step: to get a slot or to be
refused, to end a request, to wake up from `time.sleep`, to give the slot back in `finally`.
An exception that `except Exception` does not catch may come at any point of the `try`.

An attempt of the loop is one call of `_http.post`, and that is not one POST: `requests` follows
redirects, and a 307 or 308 makes it send the POST again. Nor does what `_http.post` raises tell
how the request ended: the body is read before `_http.post` returns, and a read timeout there is a
`ConnectionError`, whatever the status line said. `Exchange` is how a request ends on the wire, and
`Requests` what `_http.post` makes of it.

The account of the slots is that of `BoundedSemaphore`, in every run; a call that returns, returns
what `EmbeddingClient.embed` does with its replies (`returns_embed`). The retries are as the module
promises in the runs where every step is `plain`, and not after any other step
(`slots_and_retries`).
-/

open Text

namespace Doppelganger

namespace Slots

open EmbeddingClient (Reply turn loop embed vectorOf)

/-! ## Requests on the wire -/

/-- How the body of a response ends. -/
inductive Body where
  /-- `json` is `none` where `resp.json()` raises. -/
  | complete (json : Option Json)
  /-- Nothing more comes for `READ_TIMEOUT`. -/
  | stalled
  /-- A TLS error comes in between. -/
  | tlsError
  /-- It is cut off, or cannot be decoded. -/
  | broken

/-- How a request ends. -/
inductive Exchange where
  /-- There is no connection, or it is lost before the status line. -/
  | unreachable
  /-- No status line comes for `READ_TIMEOUT`. -/
  | silent
  /-- Any other exception. -/
  | failed
  | answered (status : ℕ) (body : Body)

namespace Exchange

def status? : Exchange → Option ℕ
  | .answered status _ => some status
  | _ => none

/-- A read timeout. -/
def TimedOut (x : Exchange) : Prop := x = .silent ∨ ∃ status, x = .answered status .stalled

/-- A read timeout or a 503 that reaches `embed` as a `ConnectionError`. -/
def Masked (x : Exchange) : Prop :=
  (∃ status, x = .answered status .stalled) ∨ x = .answered 503 .tlsError

/-- A 200 with a truthy `success`, and with the truthy vector `v`. -/
def Yields (x : Exchange) (v : Json) : Prop :=
  ∃ data success, x = .answered 200 (.complete (some data)) ∧
    data.get? (lit "success") = some success ∧ success.truthy = true ∧
    data.get? (lit "vector") = some v ∧ v.truthy = true

end Exchange

/-- What `_http.post` does where its last request has ended. -/
structure Requests where
  post : Exchange → Reply

/-- `requests` does as it documents, and as its `iter_content` does while the body is read. -/
structure Requests.Documented (requests : Requests) : Prop where
  unreachable : requests.post .unreachable = .connectionError
  silent : requests.post .silent = .timeout
  failed : requests.post .failed = .raised
  complete : ∀ status json,
    requests.post (.answered status (.complete json)) = .response status json
  stalled : ∀ status, requests.post (.answered status .stalled) = .connectionError
  tlsError : ∀ status, requests.post (.answered status .tlsError) = .connectionError
  broken : ∀ status, requests.post (.answered status .broken) = .raised

/-! ## The machine -/

/-- What a request is. -/
inductive Method where
  | post
  /-- What a 301, 302 or 303 makes of a POST. -/
  | get

/-- How a call ends. -/
inductive Outcome where
  | returned (result : Option Json)
  | raised

/-- Where a call stands. -/
inductive Pc where
  /-- In `_slots.acquire`. -/
  | waiting
  /-- In `_http.post`, with a request out; `rest` are the attempts after it. -/
  | posting (attempt : ℕ) (rest : List ℕ) (method : Method)
  /-- In `time.sleep` before the next attempt. -/
  | sleeping (attempt : ℕ) (rest : List ℕ)
  /-- At `_slots.release`. -/
  | releasing (outcome : Outcome)
  | ended (outcome : Outcome)

structure Call where
  pc : Pc
  /-- How often it has called `_http.post`. -/
  attempts : ℕ
  /-- What came of it, as far as it is over. -/
  replies : List Reply
  /-- The number of POSTs sent. -/
  posts : ℕ
  /-- How those that have ended did. -/
  exchanges : List Exchange

/-- A call that comes in. -/
def Call.start : Call := ⟨.waiting, 0, [], 0, []⟩

def Call.holds (c : Call) : Bool :=
  match c.pc with
  | .posting _ _ _ => true
  | .sleeping _ _ => true
  | .releasing _ => true
  | _ => false

def Call.outstanding (c : Call) : Bool :=
  match c.pc with
  | .posting _ _ _ => true
  | _ => false

/-- The calls of a worker. -/
structure State where
  /-- `_slots._value` -/
  value : ℕ
  calls : List Call

inductive Label where
  | call
  /-- `_slots.acquire` answers true. -/
  | acquire (i : ℕ)
  /-- It answers false after `SLOT_WAIT`. -/
  | refuse (i : ℕ)
  /-- The request of call `i` is answered with a redirect, which is followed. -/
  | redirect (i : ℕ) (status : ℕ)
  /-- The request of call `i` ends. -/
  | reply (i : ℕ) (x : Exchange)
  | wake (i : ℕ)
  /-- An exception within the `try` that is no `Exception`. -/
  | interrupt (i : ℕ)
  | release (i : ℕ)

namespace State

def setCall (σ : State) (i : ℕ) (c : Call) : State := { σ with calls := σ.calls.set i c }

/-- The next attempt is made, if there is one. -/
def next (c : Call) : List ℕ → Call
  | [] => { c with pc := .releasing (.returned none) }
  | attempt :: rest => { c with pc := .sleeping attempt rest }

/-- `_http.post` is over. -/
def ended (c : Call) (attempt : ℕ) (rest : List ℕ) (r : Reply) : Call :=
  match turn attempt r with
  | none => next { c with replies := c.replies ++ [r] } rest
  | some result =>
    { c with pc := .releasing (.returned result), replies := c.replies ++ [r] }

/-- A request of a call has ended in `x`. -/
def record (c : Call) (method : Method) (x : Exchange) : Call :=
  match method with
  | .post => { c with exchanges := c.exchanges ++ [x] }
  | .get => c

/-- A redirect is followed: with a POST after a 307 or 308, with a GET after the others. A GET is
followed by a GET. -/
def follow (c : Call) (attempt : ℕ) (rest : List ℕ) (method : Method) (status : ℕ) : Option Call :=
  let c := record c method (.answered status (.complete none))
  if status = 307 ∨ status = 308 then
    match method with
    | .post => some { c with posts := c.posts + 1 }
    | .get => some c
  else if status = 301 ∨ status = 302 ∨ status = 303 then
    some { c with pc := .posting attempt rest .get }
  else none

/-- `_http.post` is called. -/
def post (c : Call) (attempt : ℕ) (rest : List ℕ) : Call :=
  { c with
    pc := .posting attempt rest .post
    attempts := c.attempts + 1
    posts := c.posts + 1 }

/-- One step, where `_slots` is `BoundedSemaphore(maxInFlight)`. -/
def step (requests : Requests) (maxInFlight : ℕ) : Label → State → Option State
  | .call, σ => some { σ with calls := σ.calls ++ [Call.start] }
  | .acquire i, σ => do
    let c ← σ.calls[i]?
    match c.pc with
    | .waiting =>
      if 0 < σ.value then
        return { σ.setCall i (post c 1 [2]) with value := σ.value - 1 }
      else none
    | _ => none
  | .refuse i, σ => do
    let c ← σ.calls[i]?
    match c.pc with
    | .waiting =>
      if σ.value = 0 then return σ.setCall i { c with pc := .ended (.returned none) } else none
    | _ => none
  | .redirect i status, σ => do
    let c ← σ.calls[i]?
    match c.pc with
    | .posting attempt rest method => (follow c attempt rest method status).map (σ.setCall i)
    | _ => none
  | .reply i x, σ => do
    let c ← σ.calls[i]?
    match c.pc with
    | .posting attempt rest method =>
      return σ.setCall i (ended (record c method x) attempt rest (requests.post x))
    | _ => none
  | .wake i, σ => do
    let c ← σ.calls[i]?
    match c.pc with
    | .sleeping attempt rest => return σ.setCall i (post c attempt rest)
    | _ => none
  | .interrupt i, σ => do
    let c ← σ.calls[i]?
    match c.pc with
    | .posting _ _ _ => return σ.setCall i { c with pc := .releasing .raised }
    | .sleeping _ _ => return σ.setCall i { c with pc := .releasing .raised }
    | _ => none
  | .release i, σ => do
    let c ← σ.calls[i]?
    match c.pc with
    | .releasing outcome =>
      -- a release beyond the bound raises `ValueError` and changes nothing
      if σ.value < maxInFlight then
        return { σ.setCall i { c with pc := .ended outcome } with value := σ.value + 1 }
      else return σ.setCall i { c with pc := .ended .raised }
    | _ => none

end State

/-- A worker whose semaphore is `BoundedSemaphore(maxInFlight)`. -/
def machine (requests : Requests) (maxInFlight : ℕ) : Lts State Label :=
  ⟨⟨maxInFlight, []⟩, State.step requests maxInFlight⟩

/-! ## What a step can do -/

/-- The steps, by label. -/
inductive Moved (requests : Requests) (maxInFlight : ℕ) (σ : State) : Label → State → Prop
  | call : Moved requests maxInFlight σ .call { σ with calls := σ.calls ++ [Call.start] }
  | acquire (i : ℕ) (c : Call) : σ.calls[i]? = some c → c.pc = .waiting → 0 < σ.value →
      Moved requests maxInFlight σ (.acquire i)
        { σ.setCall i (State.post c 1 [2]) with value := σ.value - 1 }
  | refuse (i : ℕ) (c : Call) : σ.calls[i]? = some c → c.pc = .waiting →
      Moved requests maxInFlight σ (.refuse i)
        (σ.setCall i { c with pc := .ended (.returned none) })
  | redirect (i status : ℕ) (c d : Call) (attempt : ℕ) (rest : List ℕ) (method : Method) :
      σ.calls[i]? = some c → c.pc = .posting attempt rest method →
      State.follow c attempt rest method status = some d →
      Moved requests maxInFlight σ (.redirect i status) (σ.setCall i d)
  | reply (i : ℕ) (x : Exchange) (c : Call) (attempt : ℕ) (rest : List ℕ) (method : Method) :
      σ.calls[i]? = some c → c.pc = .posting attempt rest method →
      Moved requests maxInFlight σ (.reply i x)
        (σ.setCall i (State.ended (State.record c method x) attempt rest (requests.post x)))
  | wake (i : ℕ) (c : Call) (attempt : ℕ) (rest : List ℕ) :
      σ.calls[i]? = some c → c.pc = .sleeping attempt rest →
      Moved requests maxInFlight σ (.wake i) (σ.setCall i (State.post c attempt rest))
  | interrupt (i : ℕ) (c : Call) (attempt : ℕ) (rest : List ℕ) : σ.calls[i]? = some c →
      ((∃ method, c.pc = .posting attempt rest method) ∨ c.pc = .sleeping attempt rest) →
      Moved requests maxInFlight σ (.interrupt i) (σ.setCall i { c with pc := .releasing .raised })
  | release (i : ℕ) (c : Call) (outcome : Outcome) : σ.calls[i]? = some c →
      c.pc = .releasing outcome → σ.value < maxInFlight →
      Moved requests maxInFlight σ (.release i)
        { σ.setCall i { c with pc := .ended outcome } with value := σ.value + 1 }
  | exceed (i : ℕ) (c : Call) (outcome : Outcome) : σ.calls[i]? = some c →
      c.pc = .releasing outcome → maxInFlight ≤ σ.value →
      Moved requests maxInFlight σ (.release i) (σ.setCall i { c with pc := .ended .raised })

theorem moved_of_step {requests : Requests} {maxInFlight : ℕ} {l : Label} {σ σ' : State}
    (h : State.step requests maxInFlight l σ = some σ') : Moved requests maxInFlight σ l σ' := by
  cases l with
  | call =>
    obtain rfl := Option.some.inj h
    exact .call
  | acquire i =>
    rcases Option.bind_eq_some_iff.mp h with ⟨c, hc, hstep⟩
    cases hpc : c.pc with
    | waiting =>
      by_cases hvalue : 0 < σ.value
      · obtain rfl : { σ.setCall i (State.post c 1 [2]) with value := σ.value - 1 } = σ' := by
          simpa [hpc, hvalue] using hstep
        exact .acquire i c hc hpc hvalue
      · simp [hpc, hvalue] at hstep
    | _ => simp [hpc] at hstep
  | refuse i =>
    rcases Option.bind_eq_some_iff.mp h with ⟨c, hc, hstep⟩
    cases hpc : c.pc with
    | waiting =>
      by_cases hvalue : σ.value = 0
      · obtain rfl : σ.setCall i { c with pc := .ended (.returned none) } = σ' := by
          simpa [hpc, hvalue] using hstep
        exact .refuse i c hc hpc
      · simp [hpc, hvalue] at hstep
    | _ => simp [hpc] at hstep
  | redirect i status =>
    rcases Option.bind_eq_some_iff.mp h with ⟨c, hc, hstep⟩
    cases hpc : c.pc with
    | posting attempt rest method =>
      rcases Option.map_eq_some_iff.mp (by simpa [hpc] using hstep) with ⟨d, hd, rfl⟩
      exact .redirect i status c d attempt rest method hc hpc hd
    | _ => simp [hpc] at hstep
  | reply i x =>
    rcases Option.bind_eq_some_iff.mp h with ⟨c, hc, hstep⟩
    cases hpc : c.pc with
    | posting attempt rest method =>
      obtain rfl : σ.setCall i (State.ended (State.record c method x) attempt rest
          (requests.post x)) = σ' := by simpa [hpc] using hstep
      exact .reply i x c attempt rest method hc hpc
    | _ => simp [hpc] at hstep
  | wake i =>
    rcases Option.bind_eq_some_iff.mp h with ⟨c, hc, hstep⟩
    cases hpc : c.pc with
    | sleeping attempt rest =>
      obtain rfl : σ.setCall i (State.post c attempt rest) = σ' := by simpa [hpc] using hstep
      exact .wake i c attempt rest hc hpc
    | _ => simp [hpc] at hstep
  | interrupt i =>
    rcases Option.bind_eq_some_iff.mp h with ⟨c, hc, hstep⟩
    cases hpc : c.pc with
    | posting attempt rest method =>
      obtain rfl : σ.setCall i { c with pc := .releasing .raised } = σ' := by
        simpa [hpc] using hstep
      exact .interrupt i c attempt rest hc (Or.inl ⟨method, hpc⟩)
    | sleeping attempt rest =>
      obtain rfl : σ.setCall i { c with pc := .releasing .raised } = σ' := by
        simpa [hpc] using hstep
      exact .interrupt i c attempt rest hc (Or.inr hpc)
    | _ => simp [hpc] at hstep
  | release i =>
    rcases Option.bind_eq_some_iff.mp h with ⟨c, hc, hstep⟩
    cases hpc : c.pc with
    | releasing outcome =>
      by_cases hvalue : σ.value < maxInFlight
      · obtain rfl : { σ.setCall i { c with pc := .ended outcome } with value := σ.value + 1 } =
            σ' := by simpa [hpc, hvalue] using hstep
        exact .release i c outcome hc hpc hvalue
      · obtain rfl : σ.setCall i { c with pc := .ended .raised } = σ' := by
          simpa [hpc, hvalue] using hstep
        exact .exceed i c outcome hc hpc (not_lt.mp hvalue)
    | _ => simp [hpc] at hstep

/-! ## The loop of a call -/

/-- What makes a first attempt be followed by a second. -/
def Retryable (r : Reply) : Prop :=
  r = .connectionError ∨ ∃ json, r = .response 502 json ∨ r = .response 504 json

/-- A 200 with a truthy `success`, and with the truthy vector `v`. -/
def Yields (r : Reply) (v : Json) : Prop :=
  ∃ data success, r = .response 200 (some data) ∧ data.get? (lit "success") = some success ∧
    success.truthy = true ∧ data.get? (lit "vector") = some v ∧ v.truthy = true

theorem turn_one_eq_none {r : Reply} : turn 1 r = none ↔ Retryable r := by
  cases r with
  | connectionError => simp [turn, Retryable]
  | timeout => simp [turn, Retryable]
  | raised => simp [turn, Retryable]
  | response status json =>
    simp only [turn, and_true, Retryable, reduceCtorEq, Reply.response.injEq, false_or]
    constructor
    · intro h
      split_ifs at h with hstatus
      rcases hstatus with rfl | rfl
      · exact ⟨json, Or.inl ⟨rfl, rfl⟩⟩
      · exact ⟨json, Or.inr ⟨rfl, rfl⟩⟩
    · rintro ⟨_, ⟨rfl, rfl⟩ | ⟨rfl, rfl⟩⟩ <;> simp

theorem turn_two_ne_none (r : Reply) : turn 2 r ≠ none := by
  cases r with
  | response status json =>
    simp only [turn]
    split_ifs with h₁ h₂
    · omega
    · simp
    · simp
  | _ => simp [turn]

theorem vectorOf_eq_some {data v : Json} : vectorOf data = some v ↔
    ∃ success, data.get? (lit "success") = some success ∧ success.truthy = true ∧
      data.get? (lit "vector") = some v ∧ v.truthy = true := by
  unfold vectorOf
  cases hs : data.get? (lit "success") with
  | none => simp
  | some success =>
    cases hv : data.get? (lit "vector") with
    | none => simp
    | some vector =>
      by_cases htruthy : success.truthy = true ∧ vector.truthy = true
      · simp only [htruthy.1, htruthy.2, Bool.and_self, if_true, Option.some.injEq]
        constructor
        · rintro rfl
          exact ⟨success, rfl, htruthy.1, rfl, htruthy.2⟩
        · rintro ⟨_, _, _, rfl, _⟩
          rfl
      · rw [← Bool.and_eq_true_iff] at htruthy
        simp only [htruthy, Bool.false_eq_true, if_false, reduceCtorEq, false_iff]
        rintro ⟨_, hsuccess, hs', hvector, hv'⟩
        obtain rfl := Option.some.inj hsuccess
        obtain rfl := Option.some.inj hvector
        exact htruthy (Bool.and_eq_true_iff.mpr ⟨hs', hv'⟩)

/-- A value comes of a 200 with success and vector, at either attempt. -/
theorem turn_eq_value {attempt : ℕ} {r : Reply} {v : Json} :
    turn attempt r = some (some v) ↔ Yields r v := by
  cases r with
  | connectionError =>
    simp only [turn, Yields, reduceCtorEq, false_and, exists_const, iff_false]
    split_ifs <;> simp
  | timeout => simp [turn, Yields]
  | raised => simp [turn, Yields]
  | response status json =>
    by_cases hstatus : status = 200
    · subst hstatus
      have hturn : turn attempt (.response 200 json) = some (json.bind vectorOf) := by simp [turn]
      rw [hturn, Option.some.injEq, Option.bind_eq_some_iff]
      constructor
      · rintro ⟨data, rfl, hdata⟩
        rcases vectorOf_eq_some.mp hdata with ⟨success, h⟩
        exact ⟨data, success, rfl, h⟩
      · rintro ⟨data, success, hjson, h⟩
        rcases Reply.response.inj hjson with ⟨_, rfl⟩
        exact ⟨data, rfl, vectorOf_eq_some.mpr ⟨success, h⟩⟩
    · refine iff_of_false ?_ ?_
      · simp only [turn]
        split_ifs <;> simp
      · rintro ⟨_, _, heq, _⟩
        exact hstatus (Reply.response.inj heq).1

/-- The attempts and replies of a call that has left the `try`. -/
inductive Left : Outcome → ℕ → List Reply → Prop
  | refused : Left (.returned none) 0 []
  | once (r : Reply) (result : Option Json) : turn 1 r = some result →
      Left (.returned result) 1 [r]
  | twice (r r' : Reply) (result : Option Json) : turn 1 r = none → turn 2 r' = some result →
      Left (.returned result) 2 [r, r']
  | inFirst : Left .raised 1 []
  | inSleep (r : Reply) : turn 1 r = none → Left .raised 1 [r]
  | inSecond (r : Reply) : turn 1 r = none → Left .raised 2 [r]

/-- The attempts and replies of a call, by where it stands. -/
inductive Going : Pc → ℕ → List Reply → Prop
  | waiting : Going .waiting 0 []
  | first (method : Method) : Going (.posting 1 [2] method) 1 []
  | sleeping (r : Reply) : turn 1 r = none → Going (.sleeping 2 []) 1 [r]
  | second (r : Reply) (method : Method) : turn 1 r = none → Going (.posting 2 [] method) 2 [r]
  | releasing {outcome : Outcome} {attempts : ℕ} {replies : List Reply} :
      Left outcome attempts replies → Going (.releasing outcome) attempts replies
  | ended {outcome : Outcome} {attempts : ℕ} {replies : List Reply} :
      Left outcome attempts replies → Going (.ended outcome) attempts replies

/-- The call has gone as it should. -/
def Call.Fine (c : Call) : Prop := Going c.pc c.attempts c.replies

section

variable {requests : Requests} {maxInFlight i : ℕ} {σ σ' : State} {l : Label} {c d : Call}
variable {attempt : ℕ} {rest : List ℕ} {method : Method}

@[simp] theorem record_pc (c : Call) (method : Method) (x : Exchange) :
    (State.record c method x).pc = c.pc := by cases method <;> rfl

@[simp] theorem record_attempts (c : Call) (method : Method) (x : Exchange) :
    (State.record c method x).attempts = c.attempts := by cases method <;> rfl

@[simp] theorem record_replies (c : Call) (method : Method) (x : Exchange) :
    (State.record c method x).replies = c.replies := by cases method <;> rfl

@[simp] theorem record_posts (c : Call) (method : Method) (x : Exchange) :
    (State.record c method x).posts = c.posts := by cases method <;> rfl

/-- The call goes on with a request of the same attempt. -/
theorem follow_eq_some {status : ℕ} (h : State.follow c attempt rest method status = some d)
    (hpc : c.pc = .posting attempt rest method) :
    (∃ method', d.pc = .posting attempt rest method') ∧ d.attempts = c.attempts ∧
      d.replies = c.replies := by
  unfold State.follow at h
  cases method with
  | post =>
    simp only at h
    split_ifs at h
    · obtain rfl := Option.some.inj h
      exact ⟨⟨.post, by simpa using hpc⟩, by simp, by simp⟩
    · obtain rfl := Option.some.inj h
      exact ⟨⟨.get, rfl⟩, by simp, by simp⟩
  | get =>
    simp only at h
    split_ifs at h
    · obtain rfl := Option.some.inj h
      exact ⟨⟨.get, by simpa using hpc⟩, by simp, by simp⟩
    · obtain rfl := Option.some.inj h
      exact ⟨⟨.get, rfl⟩, by simp, by simp⟩

/-- A call in `_http.post` is in its first attempt or in its second. -/
theorem Call.Fine.posting (h : c.Fine) (hpc : c.pc = .posting attempt rest method) :
    (attempt = 1 ∧ rest = [2] ∧ c.attempts = 1 ∧ c.replies = []) ∨
      attempt = 2 ∧ rest = [] ∧ c.attempts = 2 ∧ ∃ r, turn 1 r = none ∧ c.replies = [r] := by
  unfold Call.Fine at h
  rw [hpc] at h
  generalize c.attempts = attempts at h ⊢
  generalize c.replies = replies at h ⊢
  cases h with
  | first => exact Or.inl ⟨rfl, rfl, rfl, rfl⟩
  | second r _ hr => exact Or.inr ⟨rfl, rfl, rfl, r, hr, rfl⟩

/-- Following a redirect stays in the attempt. -/
theorem Call.Fine.follow (h : c.Fine) (hpc : c.pc = .posting attempt rest method) {status : ℕ}
    (hd : State.follow c attempt rest method status = some d) : d.Fine := by
  rcases follow_eq_some hd hpc with ⟨⟨method', hpc'⟩, hattempts, hreplies⟩
  unfold Call.Fine
  rw [hpc', hattempts, hreplies]
  rcases h.posting hpc with ⟨rfl, rfl, ha, hr⟩ | ⟨rfl, rfl, ha, r, hturn, hr⟩
  · rw [ha, hr]
    exact Going.first method'
  · rw [ha, hr]
    exact Going.second r method' hturn

/-- What `_http.post` did leads on. -/
theorem Call.Fine.ended (h : c.Fine) (hpc : c.pc = .posting attempt rest method) (r : Reply) :
    (State.ended c attempt rest r).Fine := by
  rcases c with ⟨pc, attempts, replies, posts, exchanges⟩
  obtain rfl : pc = .posting attempt rest method := hpc
  unfold Call.Fine at *
  cases h with
  | first =>
    cases hturn : turn 1 r with
    | none => simpa [State.ended, State.next, hturn] using Going.sleeping r hturn
    | some result => simpa [State.ended, hturn] using Going.releasing (Left.once r result hturn)
  | second r₁ _ hr₁ =>
    cases hturn : turn 2 r with
    | none => exact absurd hturn (turn_two_ne_none r)
    | some result =>
      simpa [State.ended, hturn] using Going.releasing (Left.twice r₁ r result hr₁ hturn)

theorem Call.Fine.record (h : c.Fine) (method : Method) (x : Exchange) :
    (State.record c method x).Fine := by
  unfold Call.Fine at *
  simpa using h

/-- What is left to hold of the call that a step has moved. -/
theorem forall_setCall {P : Call → Prop} (hall : ∀ c ∈ σ.calls, P c) (hd : P d) :
    ∀ c ∈ (σ.setCall i d).calls, P c := by
  intro c hc
  rcases List.mem_or_eq_of_mem_set hc with hc | rfl
  · exact hall c hc
  · exact hd

/-- The account of the slots. -/
def State.Account (maxInFlight : ℕ) (σ : State) : Prop :=
  BoundedSemaphore.Inv Call.holds maxInFlight σ.value σ.calls

theorem holds_ended (c : Call) (attempt : ℕ) (rest : List ℕ) (r : Reply) :
    (State.ended c attempt rest r).holds = true := by
  unfold State.ended
  cases turn attempt r with
  | none => cases rest <;> rfl
  | some result => rfl

theorem account_of_moved (ha : σ.Account maxInFlight) (h : Moved requests maxInFlight σ l σ') :
    σ'.Account maxInFlight := by
  cases h with
  | call => exact BoundedSemaphore.Inv.enter ha rfl
  | acquire i c hc hpc hvalue =>
    exact BoundedSemaphore.Inv.acquire ha hc (by rw [Call.holds, hpc]) rfl hvalue
  | refuse i c hc hpc => exact BoundedSemaphore.Inv.keep ha hc (by rw [Call.holds, Call.holds, hpc])
  | redirect i status c d attempt rest method hc hpc hd =>
    refine BoundedSemaphore.Inv.keep ha hc ?_
    rcases (follow_eq_some hd hpc).1 with ⟨method', hpc'⟩
    rw [Call.holds, Call.holds, hpc, hpc']
  | reply i x c attempt rest method hc hpc =>
    refine BoundedSemaphore.Inv.keep ha hc ?_
    rw [holds_ended, Call.holds, hpc]
  | wake i c attempt rest hc hpc =>
    refine BoundedSemaphore.Inv.keep ha hc ?_
    rw [show (State.post c attempt rest).holds = true from rfl, Call.holds, hpc]
  | interrupt i c attempt rest hc hpc =>
    refine BoundedSemaphore.Inv.keep ha hc ?_
    rcases hpc with ⟨method, hpc⟩ | hpc <;> rw [Call.holds, Call.holds, hpc]
  | release i c outcome hc hpc _ =>
    exact BoundedSemaphore.Inv.release ha hc (by rw [Call.holds, hpc]) rfl
  | exceed i c outcome hc hpc hvalue =>
    -- the call holds a slot, so not all are free
    have hlt := BoundedSemaphore.Inv.lt_of_holds ha hc (by rw [Call.holds, hpc])
    omega

theorem fine_of_moved (ha : σ.Account maxInFlight) (hall : ∀ c ∈ σ.calls, c.Fine)
    (h : Moved requests maxInFlight σ l σ') : ∀ c ∈ σ'.calls, c.Fine := by
  cases h with
  | call =>
    intro c hc
    rcases List.mem_append.mp hc with hc | hc
    · exact hall c hc
    · obtain rfl := List.mem_singleton.mp hc
      exact Going.waiting
  | acquire i c hc hpc _ =>
    refine forall_setCall hall ?_
    have hfine := hall c (List.mem_of_getElem? hc)
    rcases c with ⟨pc, attempts, replies, posts, exchanges⟩
    obtain rfl : pc = .waiting := hpc
    cases hfine
    exact Going.first .post
  | refuse i c hc hpc =>
    refine forall_setCall hall ?_
    have hfine := hall c (List.mem_of_getElem? hc)
    rcases c with ⟨pc, attempts, replies, posts, exchanges⟩
    obtain rfl : pc = .waiting := hpc
    cases hfine
    exact Going.ended Left.refused
  | redirect i status c d attempt rest method hc hpc hd =>
    exact forall_setCall hall ((hall c (List.mem_of_getElem? hc)).follow hpc hd)
  | reply i x c attempt rest method hc hpc =>
    have hfine := (hall c (List.mem_of_getElem? hc)).record method x
    exact forall_setCall hall (hfine.ended (by simpa using hpc) (requests.post x))
  | wake i c attempt rest hc hpc =>
    refine forall_setCall hall ?_
    have hfine := hall c (List.mem_of_getElem? hc)
    rcases c with ⟨pc, attempts, replies, posts, exchanges⟩
    obtain rfl : pc = .sleeping attempt rest := hpc
    cases hfine with
    | sleeping r hr => exact Going.second r .post hr
  | interrupt i c attempt rest hc hpc =>
    refine forall_setCall hall ?_
    have hfine := hall c (List.mem_of_getElem? hc)
    rcases c with ⟨pc, attempts, replies, posts, exchanges⟩
    rcases hpc with ⟨method, rfl⟩ | rfl
    · cases hfine with
      | first => exact Going.releasing Left.inFirst
      | second r _ hr => exact Going.releasing (Left.inSecond r hr)
    · cases hfine with
      | sleeping r hr => exact Going.releasing (Left.inSleep r hr)
  | release i c outcome hc hpc _ =>
    refine forall_setCall hall ?_
    have hfine := hall c (List.mem_of_getElem? hc)
    rcases c with ⟨pc, attempts, replies, posts, exchanges⟩
    obtain rfl : pc = .releasing outcome := hpc
    cases hfine with
    | releasing hleft => exact Going.ended hleft
  | exceed i c outcome hc hpc hvalue =>
    have hlt := BoundedSemaphore.Inv.lt_of_holds ha hc (by rw [Call.holds, hpc])
    omega

/-- What holds in every reachable state. -/
structure Inv (maxInFlight : ℕ) (σ : State) : Prop where
  account : σ.Account maxInFlight
  fine : ∀ c ∈ σ.calls, c.Fine

theorem Inv.init (requests : Requests) (maxInFlight : ℕ) :
    Inv maxInFlight (machine requests maxInFlight).init where
  account := BoundedSemaphore.Inv.init Call.holds maxInFlight
  fine := fun _ hc => absurd hc List.not_mem_nil

theorem Inv.of_reach {ok : Lts.Guard State Label} (h : (machine requests maxInFlight).Reach ok σ) :
    Inv maxInFlight σ := by
  refine h.invariant (Inv.init requests maxInFlight) ?_
  intro l σ σ' _ hs hi
  have hmoved := moved_of_step hs
  exact ⟨account_of_moved hi.account hmoved, fine_of_moved hi.account hi.fine hmoved⟩

theorem Call.Fine.attempts_le (h : c.Fine) : c.attempts ≤ 2 := by
  rcases c with ⟨pc, attempts, replies, posts, exchanges⟩
  unfold Call.Fine at h
  cases h with
  | releasing hleft => cases hleft <;> simp
  | ended hleft => cases hleft <;> simp
  | _ => simp

/-- A second attempt follows a first that failed in one of three ways. -/
theorem Call.Fine.second_attempt (h : c.Fine) (hattempts : c.attempts = 2) :
    ∃ r, c.replies.head? = some r ∧ Retryable r := by
  rcases c with ⟨pc, attempts, replies, posts, exchanges⟩
  obtain rfl : attempts = 2 := hattempts
  have hleft : ∀ outcome, Left outcome 2 replies → ∃ r, replies.head? = some r ∧ Retryable r := by
    intro outcome hleft
    cases hleft with
    | twice r r' result hr _ => exact ⟨r, rfl, turn_one_eq_none.mp hr⟩
    | inSecond r hr => exact ⟨r, rfl, turn_one_eq_none.mp hr⟩
  unfold Call.Fine at h
  cases h with
  | second r _ hr => exact ⟨r, rfl, turn_one_eq_none.mp hr⟩
  | releasing h => exact hleft _ h
  | ended h => exact hleft _ h

theorem not_yields_of_retried {r : Reply} {v : Json} (hr : turn 1 r = none) : ¬ Yields r v := by
  intro hyields
  rw [turn_eq_value.mpr hyields] at hr
  cases hr

/-- What came of the last attempt, if it is over. -/
def Call.lastReply (c : Call) : Option Reply :=
  if c.replies.length = c.attempts then c.replies.getLast? else none

/-- A call that has ended has returned `v` exactly if its last attempt has yielded it. -/
theorem Call.Fine.returned_iff (h : c.Fine) {outcome : Outcome} (hpc : c.pc = .ended outcome)
    (v : Json) : outcome = .returned (some v) ↔ ∃ r, c.lastReply = some r ∧ Yields r v := by
  rcases c with ⟨pc, attempts, replies, posts, exchanges⟩
  obtain rfl : pc = .ended outcome := hpc
  unfold Call.Fine at h
  cases h with
  | ended hleft =>
    cases hleft with
    | refused => simp [Call.lastReply]
    | once r result hr => simp [Call.lastReply, ← @turn_eq_value 1, hr]
    | twice r r' result _ hr' => simp [Call.lastReply, ← @turn_eq_value 2, hr']
    | inFirst => simp [Call.lastReply]
    | inSleep r hr => simp [Call.lastReply, not_yields_of_retried hr]
    | inSecond r hr => simp [Call.lastReply]

/-- What a call returns is what `embed` makes of its replies. -/
theorem returns_embed (h : (machine requests maxInFlight).Reach Lts.anyStep σ) (hc : c ∈ σ.calls)
    {result : Option Json} (hpc : c.pc = .ended (.returned result)) :
    result = embed (decide (0 < c.attempts)) fun n => c.replies.getD (n - 1) .raised := by
  have hfine := (Inv.of_reach h).fine c hc
  rcases c with ⟨pc, attempts, replies, posts, exchanges⟩
  obtain rfl : pc = .ended (.returned result) := hpc
  unfold Call.Fine at hfine
  cases hfine with
  | ended hleft =>
    cases hleft with
    | refused => rfl
    | once r result hr => simp [embed, loop, hr]
    | twice r r' result hr hr' => simp [embed, loop, hr, hr']

/-! ## The POSTs of a call -/

/-- How the last POST of a call has ended, if it has. -/
def Call.lastExchange (c : Call) : Option Exchange :=
  if c.exchanges.length = c.posts then c.exchanges.getLast? else none

/-- The POSTs of a call are as the module promises: no more than two, the second after a first that
ended in a `ConnectionError`, a 502 or a 504, but in no read timeout and no 503; and it returns what
the last one has yielded. -/
structure Call.Kept (requests : Requests) (c : Call) : Prop where
  posts_le : c.posts ≤ 2
  second : c.posts = 2 → ∃ x, c.exchanges.head? = some x ∧ Retryable (requests.post x) ∧
    ¬ x.TimedOut ∧ x.status? ≠ some 503
  returned : ∀ outcome, c.pc = .ended outcome →
    ∀ v, outcome = .returned (some v) ↔ ∃ x, c.lastExchange = some x ∧ x.Yields v

/-- No request is redirected, and the first POST of a call ends in no read timeout and in no 503
that reaches `embed` as a `ConnectionError`. -/
def plain : Lts.Guard State Label := fun l σ =>
  match l with
  | .redirect _ _ => False
  | .reply i x => ∀ c, σ.calls[i]? = some c → c.exchanges = [] → ¬ x.Masked
  | _ => True

/-- A call of a run with plain steps only. -/
structure Call.Plain (requests : Requests) (c : Call) : Prop where
  posts_eq : c.posts = c.attempts
  replies_eq : c.replies = c.exchanges.map requests.post
  method : ∀ attempt rest method, c.pc = .posting attempt rest method → method = .post
  first : ∀ x, c.exchanges.head? = some x → ¬ x.Masked

theorem Call.Plain.start (requests : Requests) : Call.start.Plain requests where
  posts_eq := rfl
  replies_eq := rfl
  method := by
    intro _ _ _ h
    cases h
  first := by
    intro _ h
    cases h

/-- A call that only goes to another place, with no request out. -/
theorem Call.Plain.goto (h : c.Plain requests) {pc : Pc}
    (hpc : ∀ attempt rest method, pc ≠ .posting attempt rest method) :
    Call.Plain requests { c with pc } :=
  ⟨h.posts_eq, h.replies_eq, fun _ _ _ heq => absurd heq (hpc _ _ _), h.first⟩

theorem Call.Plain.post (h : c.Plain requests) (attempt : ℕ) (rest : List ℕ) :
    (State.post c attempt rest).Plain requests where
  posts_eq := congrArg (· + 1) h.posts_eq
  replies_eq := h.replies_eq
  method := by
    intro _ _ _ heq
    exact (Pc.posting.inj heq).2.2.symm
  first := h.first

theorem Call.Plain.ended (h : c.Plain requests) {x : Exchange} (hx : c.exchanges = [] → ¬ x.Masked)
    (attempt : ℕ) (rest : List ℕ) :
    (State.ended (State.record c .post x) attempt rest (requests.post x)).Plain requests := by
  -- it is over for the attempt and for the POST at once
  have hover : ∀ pc : Pc, (∀ attempt rest method, pc ≠ .posting attempt rest method) →
      Call.Plain requests ⟨pc, c.attempts, c.replies ++ [requests.post x], c.posts,
        c.exchanges ++ [x]⟩ := by
    intro pc hpc
    refine ⟨h.posts_eq, by simp [h.replies_eq], fun _ _ _ heq => absurd heq (hpc _ _ _), ?_⟩
    intro y hy
    cases hxs : c.exchanges with
    | nil =>
      obtain rfl : x = y := by simpa [hxs] using hy
      exact hx hxs
    | cons z zs =>
      obtain rfl : z = y := by simpa [hxs] using hy
      exact h.first z (by rw [hxs]; rfl)
  unfold State.ended State.record
  cases turn attempt (requests.post x) with
  | some result => exact hover _ (by simp)
  | none => cases rest <;> exact hover _ (by simp)

theorem plain_of_moved (hall : ∀ c ∈ σ.calls, c.Plain requests) (hl : plain l σ)
    (h : Moved requests maxInFlight σ l σ') : ∀ c ∈ σ'.calls, c.Plain requests := by
  cases h with
  | call =>
    intro c hc
    rcases List.mem_append.mp hc with hc | hc
    · exact hall c hc
    · obtain rfl := List.mem_singleton.mp hc
      exact Call.Plain.start requests
  | acquire i c hc _ _ => exact forall_setCall hall ((hall c (List.mem_of_getElem? hc)).post 1 [2])
  | refuse i c hc _ =>
    exact forall_setCall hall ((hall c (List.mem_of_getElem? hc)).goto (by simp))
  | redirect => exact absurd hl id
  | reply i x c attempt rest method hc hpc =>
    have hplain := hall c (List.mem_of_getElem? hc)
    obtain rfl := hplain.method _ _ _ hpc
    exact forall_setCall hall (hplain.ended (hl c hc) attempt rest)
  | wake i c attempt rest hc _ =>
    exact forall_setCall hall ((hall c (List.mem_of_getElem? hc)).post attempt rest)
  | interrupt i c attempt rest hc _ =>
    exact forall_setCall hall ((hall c (List.mem_of_getElem? hc)).goto (by simp))
  | release i c outcome hc _ _ =>
    exact forall_setCall hall ((hall c (List.mem_of_getElem? hc)).goto (by simp))
  | exceed i c outcome hc _ _ =>
    exact forall_setCall hall ((hall c (List.mem_of_getElem? hc)).goto (by simp))

theorem plain_of_reach (h : (machine requests maxInFlight).Reach plain σ) :
    ∀ c ∈ σ.calls, c.Plain requests :=
  h.invariant (P := fun σ => ∀ c ∈ σ.calls, c.Plain requests)
    (fun _ hc => absurd hc List.not_mem_nil)
    fun _ _ _ hl hs hall => plain_of_moved hall hl (moved_of_step hs)

end

section

variable {requests : Requests} (hdoc : requests.Documented)

include hdoc

/-- A retry comes after no read timeout and no 503, unless that is masked. -/
theorem unmasked_of_retryable {x : Exchange} (hr : Retryable (requests.post x)) (hx : ¬ x.Masked) :
    ¬ x.TimedOut ∧ x.status? ≠ some 503 := by
  cases x with
  | unreachable => simp [Exchange.TimedOut, Exchange.status?]
  | silent => simp [Retryable, hdoc.silent] at hr
  | failed => simp [Retryable, hdoc.failed] at hr
  | answered status body =>
    cases body with
    | complete json =>
      have hstatus : status = 502 ∨ status = 504 := by
        rcases hr with hr | ⟨_, hr | hr⟩ <;> rw [hdoc.complete] at hr
        · cases hr
        · exact Or.inl (Reply.response.inj hr).1
        · exact Or.inr (Reply.response.inj hr).1
      rcases hstatus with rfl | rfl <;> simp [Exchange.TimedOut, Exchange.status?]
    | stalled => exact absurd (Or.inl ⟨status, rfl⟩) hx
    | tlsError =>
      refine ⟨by simp [Exchange.TimedOut], ?_⟩
      intro hstatus
      obtain rfl : status = 503 := Option.some.inj hstatus
      exact hx (Or.inr rfl)
    | broken => simp [Retryable, hdoc.broken] at hr

/-- Only a 200 whose body has come yields a value. -/
theorem yields_post_iff {x : Exchange} {v : Json} : Yields (requests.post x) v ↔ x.Yields v := by
  have hno : ∀ x : Exchange, (∀ status json, x ≠ .answered status (.complete json)) →
      (∀ status json, requests.post x ≠ .response status json) →
      (Yields (requests.post x) v ↔ x.Yields v) := by
    intro x hx hpost
    refine iff_of_false ?_ ?_
    · rintro ⟨_, _, heq, _⟩
      exact hpost _ _ heq
    · rintro ⟨_, _, heq, _⟩
      exact hx _ _ heq
  cases x with
  | unreachable => exact hno _ (by simp) (by simp [hdoc.unreachable])
  | silent => exact hno _ (by simp) (by simp [hdoc.silent])
  | failed => exact hno _ (by simp) (by simp [hdoc.failed])
  | answered status body =>
    cases body with
    | complete json =>
      rw [hdoc.complete]
      simp [Yields, Exchange.Yields]
    | stalled => exact hno _ (by simp) (by simp [hdoc.stalled])
    | tlsError => exact hno _ (by simp) (by simp [hdoc.tlsError])
    | broken => exact hno _ (by simp) (by simp [hdoc.broken])

theorem Call.Plain.kept {c : Call} (h : c.Plain requests) (hfine : c.Fine) : c.Kept requests where
  posts_le := h.posts_eq ▸ hfine.attempts_le
  second := by
    intro hposts
    rcases hfine.second_attempt (h.posts_eq ▸ hposts) with ⟨r, hr, hretry⟩
    rw [h.replies_eq, List.head?_map] at hr
    rcases Option.map_eq_some_iff.mp hr with ⟨x, hx, rfl⟩
    exact ⟨x, hx, hretry, unmasked_of_retryable hdoc hretry (h.first x hx)⟩
  returned := by
    intro outcome hpc v
    have hlast : c.lastReply = c.lastExchange.map requests.post := by
      unfold Call.lastReply Call.lastExchange
      rw [h.replies_eq, h.posts_eq, List.length_map, List.getLast?_map]
      split_ifs <;> rfl
    rw [hfine.returned_iff hpc, hlast]
    constructor
    · rintro ⟨r, hr, hyields⟩
      rcases Option.map_eq_some_iff.mp hr with ⟨x, hx, rfl⟩
      exact ⟨x, hx, (yields_post_iff hdoc).mp hyields⟩
    · rintro ⟨x, hx, hyields⟩
      exact ⟨_, by rw [hx]; rfl, (yields_post_iff hdoc).mpr hyields⟩

end

/-! ### Where the promise breaks -/

/-- The POSTs of some call are not as promised. -/
def Broken (requests : Requests) (σ : State) : Prop := ∃ c ∈ σ.calls, ¬ c.Kept requests

section

variable {requests : Requests} {maxInFlight i : ℕ} {σ σ' : State} {l : Label} {c d : Call}
variable {attempt : ℕ} {rest : List ℕ} {method : Method}

theorem getElem?_setCall (hc : σ.calls[i]? = some c) (d : Call) :
    (σ.setCall i d).calls[i]? = some d := by
  rcases List.getElem?_eq_some_iff.mp hc with ⟨hi, _⟩
  exact List.getElem?_set_self hi

theorem mem_setCall (hc : σ.calls[i]? = some c) (d : Call) : d ∈ (σ.setCall i d).calls :=
  List.mem_of_getElem? (getElem?_setCall hc d)

theorem wake_step (hc : σ.calls[i]? = some c) (hpc : c.pc = .sleeping attempt rest) :
    (machine requests maxInFlight).step (.wake i) σ =
      some (σ.setCall i (State.post c attempt rest)) := by
  simp [machine, State.step, hc, hpc]

theorem reply_step (hc : σ.calls[i]? = some c) (hpc : c.pc = .posting attempt rest method)
    (x : Exchange) : (machine requests maxInFlight).step (.reply i x) σ =
      some (σ.setCall i (State.ended (State.record c method x) attempt rest (requests.post x))) := by
  simp [machine, State.step, hc, hpc]

theorem release_step (hc : σ.calls[i]? = some c) {outcome : Outcome}
    (hpc : c.pc = .releasing outcome) (hvalue : σ.value < maxInFlight) :
    (machine requests maxInFlight).step (.release i) σ =
      some { σ.setCall i { c with pc := .ended outcome } with value := σ.value + 1 } := by
  simp [machine, State.step, hc, hpc, hvalue]

/-- A value that a 200 can have. -/
def someVector : Json := .arr [.int 1]

/-- A 200 with it. -/
def someAnswer : Exchange :=
  .answered 200 (.complete (some (.obj [(lit "success", .bool true), (lit "vector", someVector)])))

theorem someAnswer_yields : someAnswer.Yields someVector := by
  refine ⟨_, .bool true, rfl, ?_⟩
  decide +kernel

/-- After a read timeout or 503 that is masked, the POST is made again. -/
theorem broken_of_masked (hdoc : requests.Documented) (hc : σ.calls[i]? = some c)
    (hfine : c.Fine) (hplain : c.Plain requests) (hpc : c.pc = .posting attempt rest method)
    (hnil : c.exchanges = []) {x : Exchange} (hx : x.Masked) :
    (machine requests maxInFlight).Can plain (Broken requests)
      (σ.setCall i (State.ended (State.record c method x) attempt rest (requests.post x))) := by
  obtain rfl := hplain.method _ _ _ hpc
  have hreplies : c.replies = [] := by rw [hplain.replies_eq, hnil]; rfl
  obtain ⟨rfl, rfl, hattempts⟩ : attempt = 1 ∧ rest = [2] ∧ c.attempts = 1 := by
    rcases hfine.posting hpc with ⟨rfl, rfl, ha, _⟩ | ⟨_, _, _, r, _, hr⟩
    · exact ⟨rfl, rfl, ha⟩
    · rw [hr] at hreplies
      cases hreplies
  have hpost : requests.post x = .connectionError := by
    rcases hx with ⟨status, rfl⟩ | rfl
    · exact hdoc.stalled status
    · exact hdoc.tlsError 503
  have hended : State.ended (State.record c .post x) 1 [2] (requests.post x) =
      ⟨.sleeping 2 [], c.attempts, c.replies ++ [requests.post x], c.posts, c.exchanges ++ [x]⟩ := by
    rw [hpost]
    rfl
  rw [hended]
  have hsleeping := getElem?_setCall hc ⟨.sleeping 2 [], c.attempts, c.replies ++ [requests.post x],
    c.posts, c.exchanges ++ [x]⟩
  have hwake : (machine requests maxInFlight).step (.wake i) _ = _ := wake_step hsleeping rfl
  have hplain' : ∀ σ, plain (.wake i) σ := fun _ => trivial
  refine .step (hplain' _) hwake (.now ⟨_, mem_setCall hsleeping _, ?_⟩)
  intro hkept
  have hposts : c.posts + 1 = 2 := by rw [hplain.posts_eq, hattempts]
  rcases hkept.second hposts with ⟨y, hy, _, htimeout, hstatus⟩
  obtain rfl : x = y := by simpa [State.post, hnil] using hy
  rcases hx with ⟨status, rfl⟩ | rfl
  · exact htimeout (Or.inr ⟨status, rfl⟩)
  · exact hstatus rfl

/-- A POST that is made again on a redirect is one too many, or a second after no failure. -/
theorem not_kept_of_reposted (hdoc : requests.Documented) (hfine : c.Fine)
    (hplain : c.Plain requests) (hpc : c.pc = .posting attempt rest method) {status : ℕ}
    (hstatus : status = 307 ∨ status = 308) :
    ¬ Call.Kept requests { c with
      posts := c.posts + 1
      exchanges := c.exchanges ++ [.answered status (.complete none)] } := by
  intro hkept
  rcases hfine.posting hpc with ⟨_, _, ha, hr⟩ | ⟨_, _, ha, _⟩
  · have hnil : c.exchanges = [] := by simpa [hplain.replies_eq] using hr
    rcases hkept.second (by rw [hplain.posts_eq, ha]) with ⟨y, hy, hretry, _⟩
    obtain rfl : Exchange.answered status (.complete none) = y := by simpa [hnil] using hy
    rw [hdoc.complete] at hretry
    rcases hretry with hretry | ⟨_, hretry | hretry⟩ <;> cases hretry <;> omega
  · have hle : c.posts + 1 ≤ 2 := hkept.posts_le
    rw [hplain.posts_eq, ha] at hle
    omega

/-- The GET that a redirect has made of a POST can bring a value. -/
theorem broken_of_get (hdoc : requests.Documented)
    (hreach : (machine requests maxInFlight).Reach Lts.anyStep σ) (hc : σ.calls[i]? = some c)
    (hpc : c.pc = .posting attempt rest .get) {x : Exchange} (hlast : c.exchanges.getLast? = some x)
    (hx : ∀ v, ¬ x.Yields v) : (machine requests maxInFlight).Can plain (Broken requests) σ := by
  have hturn : turn attempt (requests.post someAnswer) = some (some someVector) :=
    turn_eq_value.mpr ((yields_post_iff hdoc).mpr someAnswer_yields)
  have hended : State.ended (State.record c .get someAnswer) attempt rest (requests.post someAnswer) =
      { c with
        pc := .releasing (.returned (some someVector))
        replies := c.replies ++ [requests.post someAnswer] } := by
    simp only [State.ended, hturn, State.record]
  have hreply : (machine requests maxInFlight).step (.reply i someAnswer) σ = _ :=
    reply_step hc hpc someAnswer
  rw [hended] at hreply
  have hplain : plain (.reply i someAnswer) σ := by
    intro _ _ _ hmasked
    rcases hmasked with ⟨_, heq⟩ | heq <;> cases heq
  -- it holds its slot, so it can give it back
  have hreach' := hreach.step trivial hreply
  have hc' := getElem?_setCall hc { c with
    pc := .releasing (.returned (some someVector))
    replies := c.replies ++ [requests.post someAnswer] }
  have hvalue := BoundedSemaphore.Inv.lt_of_holds (Inv.of_reach hreach').account hc' rfl
  have hrelease : (machine requests maxInFlight).step (.release i) _ = _ :=
    release_step hc' rfl hvalue
  have hplain' : ∀ σ, plain (.release i) σ := fun _ => trivial
  refine .step hplain hreply (.step (hplain' _) hrelease (.now ⟨_, mem_setCall hc' _, ?_⟩))
  intro hkept
  rcases (hkept.returned _ rfl someVector).mp rfl with ⟨y, hy, hyields⟩
  unfold Call.lastExchange at hy
  split_ifs at hy
  obtain rfl : x = y := Option.some.inj (hlast.symm.trans hy)
  exact hx _ hyields

theorem broken_of_redirect (hdoc : requests.Documented)
    (hreach : (machine requests maxInFlight).Reach Lts.anyStep (σ.setCall i d))
    (hc : σ.calls[i]? = some c) (hfine : c.Fine) (hplain : c.Plain requests)
    (hpc : c.pc = .posting attempt rest method) {status : ℕ}
    (hd : State.follow c attempt rest method status = some d) :
    (machine requests maxInFlight).Can plain (Broken requests) (σ.setCall i d) := by
  obtain rfl := hplain.method _ _ _ hpc
  simp only [State.follow, State.record] at hd
  split_ifs at hd with hagain hget
  · obtain rfl := Option.some.inj hd
    exact .now ⟨_, mem_setCall hc _, not_kept_of_reposted hdoc hfine hplain hpc hagain⟩
  · obtain rfl := Option.some.inj hd
    refine broken_of_get hdoc hreach (getElem?_setCall hc _) rfl List.getLast?_concat ?_
    rintro v ⟨_, _, heq, _⟩
    cases heq

theorem broken_of_step (hdoc : requests.Documented)
    (hreach : (machine requests maxInFlight).Reach plain σ)
    (hs : State.step requests maxInFlight l σ = some σ') (hl : ¬ plain l σ) :
    (machine requests maxInFlight).Can plain (Broken requests) σ' := by
  have hinv := Inv.of_reach hreach
  have hreach' : (machine requests maxInFlight).Reach Lts.anyStep σ' := by
    rcases hreach with ⟨ls, hrun⟩
    exact Lts.Reach.step ⟨ls, hrun.mono fun _ _ _ => trivial⟩ trivial hs
  cases moved_of_step hs with
  | redirect i status c d attempt rest method hc hpc hd =>
    have hmem := List.mem_of_getElem? hc
    exact broken_of_redirect hdoc hreach' hc (hinv.fine c hmem) (plain_of_reach hreach c hmem) hpc hd
  | reply i x c attempt rest method hc hpc =>
    simp only [plain, hc, Option.some.injEq, not_forall, not_not, exists_prop, exists_eq_left'] at hl
    have hmem := List.mem_of_getElem? hc
    exact broken_of_masked hdoc hc (hinv.fine c hmem) (plain_of_reach hreach c hmem) hpc hl.1 hl.2
  | _ => exact absurd trivial hl

end

/-- However the calls interleave and their requests end: no more requests are out than there are
slots; the free slots and those held make up the bound, no release exceeds it, and all are free when
no call runs. In a run with plain steps, every call makes at most two POSTs, the second after a
first that could be retried, and returns what its last POST has yielded; after any step that is not
plain, the run can go on with plain ones to where that fails for a call. -/
theorem slots_and_retries {requests : Requests} (hdoc : requests.Documented) {maxInFlight : ℕ} :
    (∀ σ, (machine requests maxInFlight).Reach Lts.anyStep σ →
      σ.calls.countP Call.outstanding ≤ maxInFlight ∧
      σ.value + σ.calls.countP Call.holds = maxInFlight ∧
      (∀ (i : ℕ) (c : Call) outcome, σ.calls[i]? = some c → c.pc = .releasing outcome →
        σ.value < maxInFlight) ∧
      ((∀ c ∈ σ.calls, ∃ outcome, c.pc = .ended outcome) → σ.value = maxInFlight)) ∧
    (∀ σ, (machine requests maxInFlight).Reach plain σ → ∀ c ∈ σ.calls, c.Kept requests) ∧
    ∀ σ l σ', (machine requests maxInFlight).Reach plain σ →
      State.step requests maxInFlight l σ = some σ' → ¬ plain l σ →
      (machine requests maxInFlight).Can plain (Broken requests) σ' := by
  refine ⟨?_, ?_, fun σ l σ' hreach hs hl => broken_of_step hdoc hreach hs hl⟩
  · intro σ h
    have hi := Inv.of_reach h
    refine ⟨?_, hi.account, ?_, ?_⟩
    · refine BoundedSemaphore.Inv.countP_le hi.account ?_
      intro c hc
      cases hpc : c.pc <;> simp [Call.outstanding, Call.holds, hpc] at hc ⊢
    · intro i c outcome hc hpc
      exact BoundedSemaphore.Inv.lt_of_holds hi.account hc (by rw [Call.holds, hpc])
    · intro hended
      refine BoundedSemaphore.Inv.all_free hi.account ?_
      intro c hc
      rcases hended c hc with ⟨outcome, hpc⟩
      rw [Call.holds, hpc]
  · intro σ h c hc
    exact (plain_of_reach h c hc).kept hdoc ((Inv.of_reach h).fine c hc)

namespace Sample

def requests : Requests where
  post x := match x with
    | .unreachable => .connectionError
    | .silent => .timeout
    | .failed => .raised
    | .answered status (.complete json) => .response status json
    | .answered _ .stalled => .connectionError
    | .answered _ .tlsError => .connectionError
    | .answered _ .broken => .raised

theorem requests_documented : requests.Documented :=
  ⟨rfl, rfl, rfl, fun _ _ => rfl, fun _ => rfl, fun _ => rfl, fun _ => rfl⟩

/-- Two calls and one slot: the first is retried after a 502 and gets its vector, then the second
gets the slot and a 503; a third is refused meanwhile. -/
def oneSlot : List Label :=
  [.call, .call, .acquire 0, .call, .refuse 2, .reply 0 (.answered 502 (.complete none)), .wake 0,
    .reply 0 someAnswer, .release 0, .acquire 1, .reply 1 (.answered 503 (.complete none)),
    .release 1]

theorem oneSlot_plain : (machine requests 1).Run plain (machine requests 1).init oneSlot
    ((machine requests 1).after oneSlot) := by
  have hrun := (machine requests 1).run_after oneSlot rfl
  refine (hrun.of_labels (p := fun l => ∀ i status, l ≠ .redirect i status ∧
    ∀ x, l = .reply i x → ¬ x.Masked) ?_).mono ?_
  · simp [oneSlot, someAnswer, Exchange.Masked]
  · rintro l σ ⟨_, hl⟩
    cases l with
    | redirect i status => exact (hl i status).1 rfl
    | reply i x => exact fun _ _ _ => (hl i 0).2 x rfl
    | _ => trivial

/-- A 503 whose body does not come. -/
def overloaded : List Label := [.call, .acquire 0, .reply 0 (.answered 503 .stalled), .wake 0]

end Sample

/-- It applies to calls that return a value and to calls that do not. -/
theorem slots_and_retries_sample :
    ((machine Sample.requests 1).after Sample.oneSlot).value = 1 ∧
      ∀ c ∈ ((machine Sample.requests 1).after Sample.oneSlot).calls, c.Kept Sample.requests := by
  exact ⟨by rfl, (slots_and_retries Sample.requests_documented).2.1 _ ⟨_, Sample.oneSlot_plain⟩⟩

/-- The service answers 503, and its body stalls: `embed` makes its POST again. -/
theorem overloaded_is_retried :
    ∃ c ∈ ((machine Sample.requests 1).after Sample.overloaded).calls, c.posts = 2 ∧
      c.exchanges = [.answered 503 .stalled] ∧ ¬ c.Kept Sample.requests := by
  refine ⟨_, List.mem_singleton_self _, rfl, rfl, ?_⟩
  intro hkept
  rcases hkept.second rfl with ⟨x, hx, _, _, hstatus⟩
  obtain rfl := Option.some.inj hx
  exact hstatus rfl

end Slots

end Doppelganger
