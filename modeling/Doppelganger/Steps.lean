import Doppelganger.Handlers
import Doppelganger.Server

/-!
# What a step can do

One inversion lemma per label, so that no later proof unfolds `step`: it cuts the
label apart, reads off the successor state, and works with the frame lemmas of
`setReq`, `setStream`, `setWorker`, `apply` and `deliverTo`.
-/

open Text Redis

namespace Doppelganger

/-! ## Frame lemmas -/

namespace State

variable (σ : State)

@[simp] theorem setReq_store (r : ℕ) (req : Req) : (σ.setReq r req).store = σ.store := rfl
@[simp] theorem setReq_streams (r : ℕ) (req : Req) : (σ.setReq r req).streams = σ.streams := rfl
@[simp] theorem setReq_workers (r : ℕ) (req : Req) : (σ.setReq r req).workers = σ.workers := rfl
@[simp] theorem setReq_ids (r : ℕ) (req : Req) : (σ.setReq r req).ids = σ.ids := rfl
@[simp] theorem setReq_published (r : ℕ) (req : Req) :
    (σ.setReq r req).published = σ.published := rfl
@[simp] theorem setReq_creations (r : ℕ) (req : Req) :
    (σ.setReq r req).creations = σ.creations := rfl
@[simp] theorem setReq_commits (r : ℕ) (req : Req) : (σ.setReq r req).commits = σ.commits := rfl

@[simp] theorem setReq_reqs_self (r : ℕ) (req : Req) : (σ.setReq r req).reqs r = some req := by
  simp [setReq]

theorem setReq_reqs_ne {r r' : ℕ} (h : r' ≠ r) (req : Req) :
    (σ.setReq r req).reqs r' = σ.reqs r' := by
  simp [setReq, h]

@[simp] theorem setStream_store (i : ℕ) (st : Stream) : (σ.setStream i st).store = σ.store := rfl
@[simp] theorem setStream_reqs (i : ℕ) (st : Stream) : (σ.setStream i st).reqs = σ.reqs := rfl
@[simp] theorem setStream_workers (i : ℕ) (st : Stream) :
    (σ.setStream i st).workers = σ.workers := rfl
@[simp] theorem setStream_published (i : ℕ) (st : Stream) :
    (σ.setStream i st).published = σ.published := rfl
@[simp] theorem setStream_commits (i : ℕ) (st : Stream) :
    (σ.setStream i st).commits = σ.commits := rfl

@[simp] theorem setStream_streams_self (i : ℕ) (st : Stream) :
    (σ.setStream i st).streams i = some st := by
  simp [setStream]

theorem setStream_streams_ne {i j : ℕ} (h : j ≠ i) (st : Stream) :
    (σ.setStream i st).streams j = σ.streams j := by
  simp [setStream, h]

@[simp] theorem setWorker_store (w : ℕ) (k : Worker) : (σ.setWorker w k).store = σ.store := rfl
@[simp] theorem setWorker_reqs (w : ℕ) (k : Worker) : (σ.setWorker w k).reqs = σ.reqs := rfl
@[simp] theorem setWorker_streams (w : ℕ) (k : Worker) :
    (σ.setWorker w k).streams = σ.streams := rfl
@[simp] theorem setWorker_published (w : ℕ) (k : Worker) :
    (σ.setWorker w k).published = σ.published := rfl
@[simp] theorem setWorker_commits (w : ℕ) (k : Worker) :
    (σ.setWorker w k).commits = σ.commits := rfl

@[simp] theorem setWorker_workers_self (w : ℕ) (k : Worker) :
    (σ.setWorker w k).workers w = k := by
  simp [setWorker]

theorem setWorker_workers_ne {w w' : ℕ} (h : w' ≠ w) (k : Worker) :
    (σ.setWorker w k).workers w' = σ.workers w' := by
  simp [setWorker, h]

@[simp] theorem apply_store (e : Effect) : (σ.apply e).store = e.store := rfl
@[simp] theorem apply_reqs (e : Effect) : (σ.apply e).reqs = σ.reqs := rfl
@[simp] theorem apply_streams (e : Effect) : (σ.apply e).streams = σ.streams := rfl
@[simp] theorem apply_ids (e : Effect) : (σ.apply e).ids = σ.ids := rfl
@[simp] theorem apply_published (e : Effect) :
    (σ.apply e).published = σ.published ++ e.published := rfl
@[simp] theorem apply_creations (e : Effect) :
    (σ.apply e).creations = σ.creations ++ e.created.toList := rfl
@[simp] theorem apply_commits (e : Effect) :
    (σ.apply e).commits = σ.commits ++ e.committed.toList := rfl
@[simp] theorem apply_hub (e : Effect) (w : ℕ) :
    ((σ.apply e).workers w).hub = (σ.workers w).hub := rfl
@[simp] theorem apply_listening (e : Effect) (w : ℕ) :
    ((σ.apply e).workers w).listening = (σ.workers w).listening := rfl

theorem apply_inflight (e : Effect) (w : ℕ) :
    ((σ.apply e).workers w).inflight =
      if (σ.workers w).listening then (σ.workers w).inflight ++ e.published
      else (σ.workers w).inflight := rfl

/-- A command that only writes the store. -/
theorem apply_store_only (store : Store) : σ.apply { store } = { σ with store } := by
  simp [apply]

@[simp] theorem deliverTo_store (w : ℕ) (m : Message) : (σ.deliverTo w m).store = σ.store := rfl
@[simp] theorem deliverTo_reqs (w : ℕ) (m : Message) : (σ.deliverTo w m).reqs = σ.reqs := rfl
@[simp] theorem deliverTo_workers (w : ℕ) (m : Message) :
    (σ.deliverTo w m).workers = σ.workers := rfl
@[simp] theorem deliverTo_published (w : ℕ) (m : Message) :
    (σ.deliverTo w m).published = σ.published := rfl
@[simp] theorem deliverTo_commits (w : ℕ) (m : Message) :
    (σ.deliverTo w m).commits = σ.commits := rfl

/-- A queue that a message reaches. -/
theorem deliverTo_of_mem {w i : ℕ} {m : Message} {st : Stream} (h : σ.streams i = some st)
    (hi : i ∈ EventHub.targets (σ.workers w).hub (EventHub.sessionOfChannel m.channel)) :
    (σ.deliverTo w m).streams i =
      some { st with queue := EventHub.putNowait st.queue m.data } := by
  simp [deliverTo, h, hi]

/-- A queue that a message does not reach. -/
theorem deliverTo_of_notMem {w i : ℕ} {m : Message}
    (hi : i ∉ EventHub.targets (σ.workers w).hub (EventHub.sessionOfChannel m.channel)) :
    (σ.deliverTo w m).streams i = σ.streams i := by
  cases h : σ.streams i <;> simp [deliverTo, h, hi]

/-- Streams are neither added nor removed by a delivery. -/
theorem deliverTo_eq_some {w i : ℕ} {m : Message} {st' : Stream}
    (h : (σ.deliverTo w m).streams i = some st') :
    ∃ st, σ.streams i = some st ∧
      ((i ∈ EventHub.targets (σ.workers w).hub (EventHub.sessionOfChannel m.channel) ∧
          st' = { st with queue := EventHub.putNowait st.queue m.data }) ∨
        (i ∉ EventHub.targets (σ.workers w).hub (EventHub.sessionOfChannel m.channel) ∧
          st' = st)) := by
  cases hst : σ.streams i with
  | none => simp [deliverTo, hst] at h
  | some st =>
    by_cases hi : i ∈ EventHub.targets (σ.workers w).hub (EventHub.sessionOfChannel m.channel)
    · rw [σ.deliverTo_of_mem hst hi] at h
      exact ⟨st, rfl, Or.inl ⟨hi, (Option.some.inj h).symm⟩⟩
    · rw [σ.deliverTo_of_notMem hi, hst] at h
      exact ⟨st, rfl, Or.inr ⟨hi, (Option.some.inj h).symm⟩⟩

theorem answer?_eq_some {r : ℕ} {response : Response} :
    σ.answer? r = some response ↔ ∃ q, σ.reqs r = some ⟨q, .done response⟩ := by
  constructor
  · intro h
    rcases Option.bind_eq_some_iff.mp h with ⟨⟨q, handler⟩, hreq, hsent⟩
    cases handler with
    | done response' =>
      obtain rfl := Option.some.inj hsent
      exact ⟨q, hreq⟩
    | _ => cases hsent
  · rintro ⟨q, hreq⟩
    simp [answer?, hreq, Handler.sent?]

theorem request?_eq_some {r : ℕ} {q : Request} :
    σ.request? r = some q ↔ ∃ handler, σ.reqs r = some ⟨q, handler⟩ := by
  constructor
  · intro h
    rcases Option.map_eq_some_iff.mp h with ⟨req, hreq, rfl⟩
    exact ⟨req.handler, hreq⟩
  · rintro ⟨handler, hreq⟩
    simp [request?, hreq]

end State

/-! ## One lemma per label -/

section Inversion

attribute [local simp] step

variable {env : Env} {σ σ' : State}

theorem step_request {r : ℕ} {q : Request} {limited : Bool}
    (h : step env (.request r q limited) σ = some σ') :
    σ.reqs r = none ∧
      σ' = σ.setReq r ⟨q, if limited then .replying (.ok rateLimited) else .start q⟩ := by
  cases hr : σ.reqs r with
  | none => exact ⟨rfl, by simpa [step, hr] using h.symm⟩
  | some req => simp [step, hr] at h

theorem step_embed {r : ℕ} {result : Option Json} (h : step env (.embed r result) σ = some σ') :
    ∃ req handler, σ.reqs r = some req ∧ req.handler.embed env result = some handler ∧
      σ' = σ.setReq r { req with handler } := by
  simp only [step, Option.bind_eq_bind, Option.bind_eq_some_iff, Option.pure_def,
    Option.some.injEq] at h
  rcases h with ⟨req, hr, handler, hh, rfl⟩
  exact ⟨req, handler, hr, hh, rfl⟩

theorem step_name {r : ℕ} {sid : Str} (h : step env (.name r sid) σ = some σ') :
    ∃ req handler, σ.reqs r = some req ∧ req.handler.name σ.store.now sid = some handler ∧
      sid ∉ σ.ids ∧ σ' = { σ.setReq r { req with handler } with ids := sid :: σ.ids } := by
  simp only [step, Option.bind_eq_bind, Option.bind_eq_some_iff, Option.pure_def] at h
  rcases h with ⟨req, hr, handler, hh, h⟩
  by_cases hs : sid ∈ σ.ids
  · simp [hs] at h
  · simp only [hs, if_false, Option.some.injEq] at h
    exact ⟨req, handler, hr, hh, hs, h.symm⟩

/-- A Redis command of a request: executed and answered, not executed, or executed with its
reply lost. -/
theorem step_redis {r : ℕ} {fault : Fault} (h : step env (.redis r fault) σ = some σ') :
    ∃ req effect handler, σ.reqs r = some req ∧
      req.handler.redis env r σ.store = some (effect, handler) ∧
      ((fault = .none ∧ σ' = (σ.apply effect).setReq r { req with handler }) ∨
        (fault = .before ∧ σ' = σ.setReq r { req with handler := .replying (.error .redisError) }) ∨
        (fault = .after ∧ σ' = (σ.apply effect).setReq r
          { req with handler := .replying (.error .redisError) })) := by
  simp only [step, Option.bind_eq_bind, Option.bind_eq_some_iff, Option.pure_def] at h
  rcases h with ⟨req, hr, ⟨effect, handler⟩, hh, h⟩
  refine ⟨req, effect, handler, hr, hh, ?_⟩
  cases fault with
  | none => exact Or.inl ⟨rfl, by simpa using h.symm⟩
  | before => exact Or.inr (Or.inl ⟨rfl, by simpa using h.symm⟩)
  | after => exact Or.inr (Or.inr ⟨rfl, by simpa using h.symm⟩)

theorem step_answer {r : ℕ} (h : step env (.answer r) σ = some σ') :
    ∃ req result, σ.reqs r = some req ∧ req.handler = .replying result ∧
      σ' = σ.setReq r { req with handler := .done (answerOf result) } := by
  simp only [step, Option.bind_eq_bind, Option.bind_eq_some_iff, Option.pure_def] at h
  rcases h with ⟨req, hr, h⟩
  split at h
  · next result hq => exact ⟨req, result, hr, hq, by simpa using h.symm⟩
  · cases h

theorem step_stream {i : ℕ} {sid : Str} {w : ℕ} (h : step env (.stream i sid w) σ = some σ') :
    σ.streams i = none ∧ σ' = σ.setStream i (Stream.new sid w) := by
  cases hi : σ.streams i with
  | none => exact ⟨rfl, by simpa [step, hi] using h.symm⟩
  | some st => simp [step, hi] at h

theorem step_read {i : ℕ} {fault : Fault} (h : step env (.read i fault) σ = some σ') :
    ∃ st st', σ.streams i = some st ∧ σ' = σ.setStream i st' ∧
      ((fault = .none ∧ st.redis σ.store = some st') ∨ (fault ≠ .none ∧ st.fail = some st')) := by
  cases fault with
  | none =>
    simp only [step, Option.bind_eq_bind, Option.bind_eq_some_iff, Option.pure_def,
      Option.some.injEq] at h
    rcases h with ⟨st, hst, st', hst', rfl⟩
    exact ⟨st, st', hst, rfl, Or.inl ⟨rfl, hst'⟩⟩
  | before | after =>
    simp only [step, Option.bind_eq_bind, Option.bind_eq_some_iff, Option.pure_def,
      Option.some.injEq] at h
    rcases h with ⟨st, hst, st', hst', rfl⟩
    exact ⟨st, st', hst, rfl, Or.inr ⟨by simp, hst'⟩⟩

theorem step_advance {i : ℕ} (h : step env (.advance i) σ = some σ') :
    ∃ st st', σ.streams i = some st ∧ st.advance σ.store.now = some st' ∧
      σ' = (σ.setWorker st.worker { σ.workers st.worker with
        hub := st.hubStep i (σ.workers st.worker).hub }).setStream i st' := by
  simp only [step, Option.bind_eq_bind, Option.bind_eq_some_iff, Option.pure_def,
    Option.some.injEq] at h
  rcases h with ⟨st, hst, st', hst', rfl⟩
  exact ⟨st, st', hst, hst', rfl⟩

theorem step_close {i : ℕ} (h : step env (.close i) σ = some σ') :
    ∃ st st', σ.streams i = some st ∧ st.close = some st' ∧ σ' = σ.setStream i st' := by
  simp only [step, Option.bind_eq_bind, Option.bind_eq_some_iff, Option.pure_def,
    Option.some.injEq] at h
  rcases h with ⟨st, hst, st', hst', rfl⟩
  exact ⟨st, st', hst, hst', rfl⟩

theorem step_listen {w : ℕ} (h : step env (.listen w) σ = some σ') :
    σ' = σ.setWorker w { σ.workers w with listening := true } := by
  simpa [step] using h.symm

theorem step_disconnect {w : ℕ} (h : step env (.disconnect w) σ = some σ') :
    σ' = σ.setWorker w { σ.workers w with listening := false } := by
  simpa [step] using h.symm

theorem step_deliver {w : ℕ} (h : step env (.deliver w) σ = some σ') :
    ∃ m rest, (σ.workers w).inflight = m :: rest ∧
      σ' = (σ.deliverTo w m).setWorker w { σ.workers w with inflight := rest } := by
  cases hm : (σ.workers w).inflight with
  | nil => simp [step, hm] at h
  | cons m rest => exact ⟨m, rest, rfl, by simpa [step, hm] using h.symm⟩

theorem step_lose {w n : ℕ} (h : step env (.lose w n) σ = some σ') :
    σ' = σ.setWorker w { σ.workers w with inflight := (σ.workers w).inflight.eraseIdx n } := by
  simpa [step] using h.symm

theorem step_tick {d : ℕ} (h : step env (.tick d) σ = some σ') :
    σ' = { σ with store := σ.store.tick d } := by
  simpa [step] using h.symm

end Inversion

/-! The other way round, for the labels of requests. -/

section Steps

variable {env : Env} {σ : State} {r : ℕ} {req : Req} {handler : Handler}

theorem request_step (h : σ.reqs r = none) (q : Request) (limited : Bool) :
    step env (.request r q limited) σ =
      some (σ.setReq r ⟨q, if limited then .replying (.ok rateLimited) else .start q⟩) := by
  simp [step, h]

theorem embed_step (h : σ.reqs r = some req) {result : Option Json}
    (hh : req.handler.embed env result = some handler) :
    step env (.embed r result) σ = some (σ.setReq r { req with handler }) := by
  simp [step, h, hh]

theorem name_step (h : σ.reqs r = some req) {sid : Str}
    (hh : req.handler.name σ.store.now sid = some handler) (hs : sid ∉ σ.ids) :
    step env (.name r sid) σ =
      some { σ.setReq r { req with handler } with ids := sid :: σ.ids } := by
  simp [step, h, hh, hs]

theorem redis_step (h : σ.reqs r = some req) {effect : Effect}
    (hh : req.handler.redis env r σ.store = some (effect, handler)) :
    step env (.redis r .none) σ = some ((σ.apply effect).setReq r { req with handler }) ∧
    step env (.redis r .before) σ =
      some (σ.setReq r { req with handler := .replying (.error .redisError) }) ∧
    step env (.redis r .after) σ =
      some ((σ.apply effect).setReq r { req with handler := .replying (.error .redisError) }) := by
  simp [step, h, hh]

theorem answer_step (h : σ.reqs r = some req) {result : Result}
    (hh : req.handler = .replying result) :
    step env (.answer r) σ = some (σ.setReq r { req with handler := .done (answerOf result) }) := by
  simp [step, h, hh]

end Steps

/-! ## The two halves of a state -/

/-- Everything but streams and workers is the same. -/
structure State.SameCore (σ σ' : State) : Prop where
  store : σ'.store = σ.store
  reqs : σ'.reqs = σ.reqs
  ids : σ'.ids = σ.ids
  published : σ'.published = σ.published
  creations : σ'.creations = σ.creations
  commits : σ'.commits = σ.commits

/-- The labels of streams and listeners. -/
def Label.ofStream : Label → Bool
  | .stream _ _ _ => true
  | .read _ _ => true
  | .advance _ => true
  | .close _ => true
  | .listen _ => true
  | .disconnect _ => true
  | .deliver _ => true
  | .lose _ _ => true
  | _ => false

/-- Streams and listeners only read what requests write. -/
theorem sameCore_of_step {env : Env} {l : Label} {σ σ' : State} (hl : l.ofStream = true)
    (h : step env l σ = some σ') : σ.SameCore σ' := by
  cases l with
  | stream i sid w =>
    rcases step_stream h with ⟨_, rfl⟩
    exact ⟨rfl, rfl, rfl, rfl, rfl, rfl⟩
  | read i fault =>
    rcases step_read h with ⟨_, _, _, rfl, _⟩
    exact ⟨rfl, rfl, rfl, rfl, rfl, rfl⟩
  | advance i =>
    rcases step_advance h with ⟨_, _, _, _, rfl⟩
    exact ⟨rfl, rfl, rfl, rfl, rfl, rfl⟩
  | close i =>
    rcases step_close h with ⟨_, _, _, _, rfl⟩
    exact ⟨rfl, rfl, rfl, rfl, rfl, rfl⟩
  | listen w =>
    obtain rfl := step_listen h
    exact ⟨rfl, rfl, rfl, rfl, rfl, rfl⟩
  | disconnect w =>
    obtain rfl := step_disconnect h
    exact ⟨rfl, rfl, rfl, rfl, rfl, rfl⟩
  | deliver w =>
    rcases step_deliver h with ⟨_, _, _, rfl⟩
    exact ⟨rfl, rfl, rfl, rfl, rfl, rfl⟩
  | lose w n =>
    obtain rfl := step_lose h
    exact ⟨rfl, rfl, rfl, rfl, rfl, rfl⟩
  | _ => cases hl

/-- Everything but the requests and the ids is the same. -/
structure State.SameData (σ σ' : State) : Prop where
  store : σ'.store = σ.store
  published : σ'.published = σ.published
  creations : σ'.creations = σ.creations
  commits : σ'.commits = σ.commits
  streams : σ'.streams = σ.streams
  workers : σ'.workers = σ.workers

/-- The labels by which a request goes on without Redis. -/
def Label.isLocal : Label → Bool
  | .request _ _ _ => true
  | .embed _ _ => true
  | .name _ _ => true
  | .answer _ => true
  | _ => false

/-- A request writes by commands only. -/
theorem sameData_of_step {env : Env} {l : Label} {σ σ' : State} (hl : l.isLocal = true)
    (h : step env l σ = some σ') : σ.SameData σ' := by
  cases l with
  | request r q limited =>
    rcases step_request h with ⟨_, rfl⟩
    exact ⟨rfl, rfl, rfl, rfl, rfl, rfl⟩
  | embed r result =>
    rcases step_embed h with ⟨_, _, _, _, rfl⟩
    exact ⟨rfl, rfl, rfl, rfl, rfl, rfl⟩
  | name r sid =>
    rcases step_name h with ⟨_, _, _, _, _, rfl⟩
    exact ⟨rfl, rfl, rfl, rfl, rfl, rfl⟩
  | answer r =>
    rcases step_answer h with ⟨_, _, _, _, rfl⟩
    exact ⟨rfl, rfl, rfl, rfl, rfl, rfl⟩
  | _ => cases hl

/-! ## What every step keeps -/

section Monotone

variable {env : Env} {l : Label} {σ σ' : State}

/-- The histories only grow. -/
theorem histories_of_step (h : step env l σ = some σ') :
    σ.creations <+: σ'.creations ∧ σ.commits <+: σ'.commits ∧ σ.published <+: σ'.published := by
  have hrefl : σ.creations <+: σ.creations ∧ σ.commits <+: σ.commits ∧
      σ.published <+: σ.published := ⟨List.prefix_rfl, List.prefix_rfl, List.prefix_rfl⟩
  have happly : ∀ e : Effect, σ.creations <+: (σ.apply e).creations ∧
      σ.commits <+: (σ.apply e).commits ∧ σ.published <+: (σ.apply e).published := fun _ =>
    ⟨List.prefix_append _ _, List.prefix_append _ _, List.prefix_append _ _⟩
  cases l with
  | request _ _ _ | embed _ _ | name _ _ | answer _ =>
    have hdata := sameData_of_step rfl h
    rw [hdata.creations, hdata.commits, hdata.published]
    exact hrefl
  | redis r fault =>
    rcases step_redis h with ⟨_, effect, _, _, _, ⟨_, rfl⟩ | ⟨_, rfl⟩ | ⟨_, rfl⟩⟩
    · exact happly effect
    · exact hrefl
    · exact happly effect
  | tick d =>
    obtain rfl := step_tick h
    exact hrefl
  | _ =>
    have hcore := sameCore_of_step rfl h
    rw [hcore.creations, hcore.commits, hcore.published]
    exact hrefl

/-- The request a step is taken by. -/
def Label.req? : Label → Option ℕ
  | .request r _ _ => some r
  | .embed r _ => some r
  | .name r _ => some r
  | .redis r _ => some r
  | .answer r => some r
  | _ => none

/-- A step of another request, of a stream or of the clock leaves a handler alone. -/
theorem reqs_of_step_ne (h : step env l σ = some σ') {r : ℕ} (hr : l.req? ≠ some r) :
    σ'.reqs r = σ.reqs r := by
  cases l with
  | request r' q limited =>
    rcases step_request h with ⟨_, rfl⟩
    exact State.setReq_reqs_ne _ (fun he => hr (congrArg some he.symm)) _
  | embed r' result =>
    rcases step_embed h with ⟨_, _, _, _, rfl⟩
    exact State.setReq_reqs_ne _ (fun he => hr (congrArg some he.symm)) _
  | name r' sid =>
    rcases step_name h with ⟨_, _, _, _, _, rfl⟩
    exact State.setReq_reqs_ne _ (fun he => hr (congrArg some he.symm)) _
  | redis r' fault =>
    obtain ⟨_, _, _, _, _, ⟨_, rfl⟩ | ⟨_, rfl⟩ | ⟨_, rfl⟩⟩ := step_redis h <;>
      exact State.setReq_reqs_ne _ (fun he => hr (congrArg some he.symm)) _
  | answer r' =>
    rcases step_answer h with ⟨_, _, _, _, rfl⟩
    exact State.setReq_reqs_ne _ (fun he => hr (congrArg some he.symm)) _
  | tick d =>
    obtain rfl := step_tick h
    rfl
  | _ => rw [(sameCore_of_step rfl h).reqs]

/-- The step of a request leaves the request in place. -/
theorem request?_of_own_step (h : step env l σ = some σ') {r : ℕ} (hr : l.req? = some r) :
    ∃ q, σ'.request? r = some q := by
  have hself : ∀ (τ : State) (req : Req), ∃ q, (τ.setReq r req).request? r = some q :=
    fun τ req => ⟨req.request, by simp [State.request?]⟩
  cases l with
  | request r' q limited =>
    rcases step_request h with ⟨_, rfl⟩
    obtain rfl := Option.some.inj hr
    exact hself _ _
  | embed r' result =>
    rcases step_embed h with ⟨_, _, _, _, rfl⟩
    obtain rfl := Option.some.inj hr
    exact hself _ _
  | name r' sid =>
    rcases step_name h with ⟨req, handler, _, _, _, rfl⟩
    obtain rfl := Option.some.inj hr
    exact hself σ { req with handler }
  | redis r' fault =>
    rcases step_redis h with ⟨_, _, _, _, _, hcases⟩
    obtain rfl := Option.some.inj hr
    rcases hcases with ⟨_, rfl⟩ | ⟨_, rfl⟩ | ⟨_, rfl⟩ <;> exact hself _ _
  | answer r' =>
    rcases step_answer h with ⟨_, _, _, _, rfl⟩
    obtain rfl := Option.some.inj hr
    exact hself _ _
  | _ => cases hr

/-- What the own steps of request `r` make of its handler. -/
inductive HandlerStep (env : Env) (r : ℕ) (db : Store) : Label → Handler → Handler → Prop
  | embedded (result : Option Json) (hd hd' : Handler) : Embedded env hd result hd' →
      HandlerStep env r db (.embed r result) hd hd'
  | named (form : CreateForm) (v : Json) (sid : Str) : HandlerStep env r db (.name r sid)
      (.naming form v) (.creating form v sid (natText (db.now / 1000)))
  | notNamed (form : CreateForm) (v : Json) (sid : Str) : HandlerStep env r db (.name r sid)
      (.naming form v) (.replying (.error .unicodeError))
  | executed (hd : Handler) (effect : Effect) (hd' : Handler) : Command env r db hd effect hd' →
      HandlerStep env r db (.redis r .none) hd hd'
  | failed (fault : Fault) (hd : Handler) (effect : Effect) (hd' : Handler) :
      fault ≠ .none → Command env r db hd effect hd' →
      HandlerStep env r db (.redis r fault) hd (.replying (.error .redisError))
  | answered (result : Result) :
      HandlerStep env r db (.answer r) (.replying result) (.done (answerOf result))

/-- A request stays what it is, and its handler goes on or is left alone. -/
theorem handlerStep_of_step (h : step env l σ = some σ') {r : ℕ} {req : Req}
    (hreq : σ.reqs r = some req) : ∃ handler, σ'.reqs r = some { req with handler } ∧
      (handler = req.handler ∨ HandlerStep env r σ.store l req.handler handler) := by
  by_cases hr : l.req? = some r
  · cases l with
    | request r' q limited =>
      rcases step_request h with ⟨hnone, _⟩
      obtain rfl : r' = r := by simpa [Label.req?] using hr
      simp [hnone] at hreq
    | embed r' result =>
      rcases step_embed h with ⟨req', handler, hreq', hembed, rfl⟩
      obtain rfl : r' = r := by simpa [Label.req?] using hr
      obtain rfl := Option.some.inj (hreq.symm.trans hreq')
      exact ⟨handler, State.setReq_reqs_self _ _ _,
        Or.inr (.embedded result _ _ (embedded_of_embed hembed))⟩
    | name r' sid =>
      rcases step_name h with ⟨req', handler, hreq', hname, _, rfl⟩
      obtain rfl : r' = r := by simpa [Label.req?] using hr
      obtain rfl := Option.some.inj (hreq.symm.trans hreq')
      refine ⟨handler, State.setReq_reqs_self _ _ _, Or.inr ?_⟩
      rcases name_cases hname with ⟨form, v, hold, rfl | ⟨_, rfl⟩⟩
      · exact hold ▸ .named form v sid
      · exact hold ▸ .notNamed form v sid
    | redis r' fault =>
      rcases step_redis h with ⟨req', effect, handler, hreq', hcmd, hcases⟩
      obtain rfl : r' = r := by simpa [Label.req?] using hr
      obtain rfl := Option.some.inj (hreq.symm.trans hreq')
      have hcmd := command_of_redis hcmd
      rcases hcases with ⟨rfl, rfl⟩ | ⟨rfl, rfl⟩ | ⟨rfl, rfl⟩
      · exact ⟨_, State.setReq_reqs_self _ _ _, Or.inr (.executed _ _ _ hcmd)⟩
      · exact ⟨_, State.setReq_reqs_self _ _ _, Or.inr (.failed _ _ _ _ (by decide) hcmd)⟩
      · exact ⟨_, State.setReq_reqs_self _ _ _, Or.inr (.failed _ _ _ _ (by decide) hcmd)⟩
    | answer r' =>
      rcases step_answer h with ⟨req', result, hreq', hreply, rfl⟩
      obtain rfl : r' = r := by simpa [Label.req?] using hr
      obtain rfl := Option.some.inj (hreq.symm.trans hreq')
      refine ⟨_, State.setReq_reqs_self _ _ _, Or.inr ?_⟩
      rw [hreply]
      exact .answered result
    | _ => cases hr
  · exact ⟨req.handler, by rw [reqs_of_step_ne h hr, hreq], Or.inl rfl⟩

/-- A request is never forgotten or changed. -/
theorem request_of_step (h : step env l σ = some σ') {r : ℕ} {req : Req}
    (hreq : σ.reqs r = some req) :
    ∃ handler, σ'.reqs r = some { req with handler } := by
  rcases handlerStep_of_step h hreq with ⟨handler, hreq', _⟩
  exact ⟨handler, hreq'⟩

/-- A request that was not there has just arrived. -/
theorem arrival_of_step (h : step env l σ = some σ') {r : ℕ} {req : Req}
    (hnone : σ.reqs r = none) (hreq : σ'.reqs r = some req) : ∃ limited,
      l = .request r req.request limited ∧
        req.handler = if limited then .replying (.ok rateLimited) else .start req.request := by
  by_cases hr : l.req? = some r
  · cases l with
    | request r' q limited =>
      rcases step_request h with ⟨_, rfl⟩
      obtain rfl := Option.some.inj hr
      obtain rfl := Option.some.inj ((State.setReq_reqs_self _ _ _).symm.trans hreq)
      exact ⟨limited, rfl, rfl⟩
    | embed r' result =>
      rcases step_embed h with ⟨_, _, hsome, _, _⟩
      obtain rfl := Option.some.inj hr
      simp [hnone] at hsome
    | name r' sid =>
      rcases step_name h with ⟨_, _, hsome, _, _, _⟩
      obtain rfl := Option.some.inj hr
      simp [hnone] at hsome
    | redis r' fault =>
      rcases step_redis h with ⟨_, _, _, hsome, _, _⟩
      obtain rfl := Option.some.inj hr
      simp [hnone] at hsome
    | answer r' =>
      rcases step_answer h with ⟨_, _, hsome, _, _⟩
      obtain rfl := Option.some.inj hr
      simp [hnone] at hsome
    | _ => cases hr
  · rw [reqs_of_step_ne h hr, hnone] at hreq
    cases hreq

end Monotone

end Doppelganger
