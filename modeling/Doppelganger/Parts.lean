import Doppelganger.Gap
import Doppelganger.TwoRuns

/-!
# A part of the server on its own

Some sessions, some requests on them and some streams on them are a `Part` of a run. Requests
outside the part may share workers, hubs, pub/sub connections, the clock and the drawing of
session ids with it. As long as they leave the sessions of the part alone (`Spares`), the part
does not notice them: take away every label that is not its own (`Part.label`), and what is
left is a run, in which the part looks the same (`Part.Shows`). `Part.run` is the simulation.

Two parts of a run are of interest: the requests and streams of one session
(`session_on_its_own`), and the requests that write something, with any others
(`no_trace`).
-/

open Text Redis

namespace Doppelganger

/-- The session a request is about. A create request has none before it draws an id. -/
def Request.session? : Request → Option Str
  | .create _ => none
  | .get sid => some sid
  | .verify sid _ => some sid
  | .delete sid => some sid

/-- The session whose hash the handler's next Redis commands are about. -/
def Handler.session? : Handler → Option Str
  | .creating _ _ sid _ => some sid
  | .reading sid => some sid
  | .loading sid _ => some sid
  | .scoring sid _ _ => some sid
  | .finalizing sid _ _ _ _ => some sid
  | .deleting sid => some sid
  | _ => none

/-- Some sessions, requests and streams. -/
structure Part where
  sessions : Str → Bool
  requests : ℕ → Bool
  streams : ℕ → Bool

namespace Part

variable (P : Part)

/-- The message is about a session of the part. -/
def message (m : Message) : Bool := P.sessions (EventHub.sessionOfChannel m.channel)

/-- The label belongs to a request or stream of the part. -/
def owns (l : Label) : Bool := (l.req?.any P.requests) || (l.stream?.any P.streams)

/-- What is left of a label. Of the messages on their way to a worker only those of the part are
left, so a lost one has another place among them. -/
def label : Label → State → Option Label
  | .listen w, _ => some (.listen w)
  | .disconnect w, _ => some (.disconnect w)
  | .tick d, _ => some (.tick d)
  | .deliver w, σ => if (σ.workers w).inflight.head?.any P.message then some (.deliver w) else none
  | .lose w n, σ =>
    if (σ.workers w).inflight[n]?.any P.message then
      some (.lose w (((σ.workers w).inflight.take n).countP P.message))
    else none
  | l, _ => if P.owns l then some l else none

/-- The requests and streams of the part are about its sessions. -/
def Covers : Label → Prop
  | .request r q _ => P.requests r = true → ∀ sid, q.session? = some sid → P.sessions sid = true
  | .name r sid => P.requests r = true → P.sessions sid = true
  | .stream i sid _ => P.streams i = true → P.sessions sid = true
  | _ => True

/-- Two stores are the same for the part. -/
structure Agree (db db' : Store) : Prop where
  now : db'.now = db.now
  entries : ∀ sid, P.sessions sid = true → db'.db (key sid) = db.db (key sid)

/-- The command does nothing to the sessions of the part. -/
structure Untouched (db : Store) (e : Effect) : Prop where
  store : P.Agree e.store db
  published : ∀ m ∈ e.published, P.message m = false
  created : ∀ c, e.created = some c → P.sessions c.sid = false
  committed : ∀ k, e.committed = some k → P.sessions k.sid = false

/-- The step is none of a request outside the part that changes a session of the part. -/
def Spares (env : Env) : Lts.Guard State Label := fun l σ => ∀ r fault req effect handler,
  l = .redis r fault → P.requests r = false → fault ≠ .before → σ.reqs r = some req →
    req.handler.redis env r σ.store = some (effect, handler) → P.Untouched σ.store effect

/-- The second state is what the part is of the first. -/
structure Shows (σ τ : State) : Prop where
  store : P.Agree σ.store τ.store
  reqs : ∀ r, τ.reqs r = if P.requests r then σ.reqs r else none
  streams : ∀ i, τ.streams i = if P.streams i then σ.streams i else none
  listening : ∀ w, (τ.workers w).listening = (σ.workers w).listening
  targets : ∀ w sid i, P.streams i = true →
    (i ∈ EventHub.targets (τ.workers w).hub sid ↔ i ∈ EventHub.targets (σ.workers w).hub sid)
  inflight : ∀ w, (τ.workers w).inflight = (σ.workers w).inflight.filter P.message
  ids : ∀ sid ∈ τ.ids, sid ∈ σ.ids
  published : τ.published = σ.published.filter P.message
  creations : τ.creations = σ.creations.filter fun c => P.sessions c.sid
  commits : τ.commits = σ.commits.filter fun k => P.sessions k.sid

/-- What the requests and streams of the part go on with is about its sessions. -/
structure Inside (σ : State) : Prop where
  handlers : ∀ r req, P.requests r = true → σ.reqs r = some req →
    ∀ sid, req.handler.session? = some sid → P.sessions sid = true
  streams : ∀ i st, P.streams i = true → σ.streams i = some st → P.sessions st.sid = true

variable {P} {env : Env}

section Labels

variable {l : Label} {σ : State} {r i : ℕ}

theorem label_req (hl : l.req? = some r) (hr : P.requests r = true) : P.label l σ = some l := by
  cases l <;> simp_all [label, owns, Label.req?]

theorem label_req_other (hl : l.req? = some r) (hr : P.requests r = false) :
    P.label l σ = none := by
  cases l <;> simp_all [label, owns, Label.req?, Label.stream?]

theorem label_stream (hl : l.stream? = some i) (hi : P.streams i = true) :
    P.label l σ = some l := by
  cases l <;> simp_all [label, owns, Label.stream?]

theorem label_stream_other (hl : l.stream? = some i) (hi : P.streams i = false) :
    P.label l σ = none := by
  cases l <;> simp_all [label, owns, Label.req?, Label.stream?]

end Labels

/-! ## Stores -/

namespace Agree

variable {db db' : Store} {sid : Str}

theorem hget (h : P.Agree db db') (hs : P.sessions sid = true) (f : Field) :
    db'.hget (key sid) f = db.hget (key sid) f := by
  simp only [Server.hget, h.entries sid hs]

theorem get (h : P.Agree db db') (hs : P.sessions sid = true) :
    SessionStore.get db' sid = SessionStore.get db sid := by
  simp only [SessionStore.get, Server.hgetall, h.entries sid hs]

theorem terminalEvent (h : P.Agree db db') (hs : P.sessions sid = true) :
    SessionStore.terminalEvent db' sid = SessionStore.terminalEvent db sid := by
  simp only [SessionStore.terminalEvent, h.hget hs]

theorem tick (h : P.Agree db db') (d : ℕ) : P.Agree (db.tick d) (db'.tick d) := by
  constructor
  · simp [h.now]
  · intro sid hs
    exact Server.tick_db_congr h.now (h.entries sid hs) d

/-- Commands on one key that do the same to it. -/
theorem of_key {e e' : Store} (h : P.Agree db db') (sid : Str) (hnow : e'.now = e.now)
    (hkey : e'.db (key sid) = e.db (key sid))
    (he : ∀ k, k ≠ key sid → e.db k = db.db k) (he' : ∀ k, k ≠ key sid → e'.db k = db'.db k) :
    P.Agree e e' := by
  constructor
  · exact hnow
  · intro sid' hs'
    by_cases hsid : sid' = sid
    · rw [hsid]
      exact hkey
    · have hne : key sid' ≠ key sid := fun heq => hsid (key_injective heq)
      rw [he _ hne, he' _ hne]
      exact h.entries sid' hs'

theorem put (h : P.Agree db db') (sid : Str) (e : Option (Entry Field)) :
    P.Agree (db.put (key sid) e) (db'.put (key sid) e) := by
  refine h.of_key sid h.now (by simp) ?_ ?_
  · exact fun k hk => Server.put_db_ne hk _ _
  · exact fun k hk => Server.put_db_ne hk _ _

theorem create (h : P.Agree db db') (hs : P.sessions sid = true) (form : CreateForm) (v : Json)
    (createdAt : Str) (ttl : ℤ) : P.Agree (SessionStore.create db sid form v createdAt ttl).1
      (SessionStore.create db' sid form v createdAt ttl).1 := by
  refine h.of_key sid ?_ ?_ ?_ ?_
  · simp [h.now]
  · exact (SessionStore.create_congr h.now (h.entries sid hs) form v createdAt ttl).1
  · exact fun k hk => SessionStore.create_db_ne hk form v createdAt ttl
  · exact fun k hk => SessionStore.create_db_ne hk form v createdAt ttl

/-- A stream reads the hash of its session only. -/
theorem redis {st : Stream} (h : P.Agree db db') (hs : P.sessions st.sid = true) :
    st.redis db' = st.redis db := by
  simp only [Stream.redis, SessionStore.getPhase, h.hget hs, h.terminalEvent hs]

end Agree

/-! ## Commands -/

/-- The command of a handler on a session of the part, in two stores that agree on it. -/
theorem redis_agree {db db' : Store} (h : P.Agree db db') {r : ℕ} {hd hd' : Handler}
    {effect : Effect} (hs : ∀ sid, hd.session? = some sid → P.sessions sid = true)
    (hcmd : Command env r db hd effect hd') :
    ∃ effect', hd.redis env r db' = some (effect', hd') ∧ P.Agree effect.store effect'.store ∧
      effect'.published = effect.published ∧ effect'.created = effect.created ∧
      effect'.committed = effect.committed := by
  cases hcmd with
  | create form v sid createdAt =>
    have hanswer := (SessionStore.create_congr h.now (h.entries sid (hs sid rfl)) form v createdAt
      env.sessionTtlSeconds).2
    rw [← hanswer]
    refine ⟨_, rfl, h.create (hs sid rfl) form v createdAt _, rfl, ?_, rfl⟩
    simp [h.now]
  | get sid =>
    refine ⟨{ store := db' }, ?_, h, rfl, rfl, rfl⟩
    simp [Handler.redis, h.get (hs sid rfl)]
  | load sid form =>
    refine ⟨{ store := db' }, ?_, h, rfl, rfl, rfl⟩
    simp [Handler.redis, h.get (hs sid rfl)]
  | gone sid form session bob score hdb =>
    have hdb' := (h.entries sid (hs sid rfl)).trans hdb
    refine ⟨{ store := db' }, ?_, h, rfl, rfl, rfl⟩
    simp [Handler.redis, SessionStore.finalize_of_none hdb', verifyResponse]
  | completed sid form session bob score e hdb hp =>
    have hdb' := (h.entries sid (hs sid rfl)).trans hdb
    refine ⟨{ store := db' }, ?_, h, rfl, rfl, rfl⟩
    simp [Handler.redis, SessionStore.finalize_of_completed hdb' hp, verifyResponse]
  | won sid form session bob score e hdb hp =>
    have hdb' := (h.entries sid (hs sid rfl)).trans hdb
    refine ⟨⟨_, _, none, some ⟨r, sid, form, score⟩⟩, ?_, h.put sid _, rfl, rfl, rfl⟩
    rw [Handler.redis, SessionStore.finalize_of_waiting hdb' hp]
    rfl
  | delete sid => exact ⟨_, rfl, h.put sid _, rfl, rfl, rfl⟩

/-- What the command of a handler on a session of the part writes is about the part. -/
theorem effect_inside {db : Store} {r : ℕ} {hd hd' : Handler} {effect : Effect}
    (hs : ∀ sid, hd.session? = some sid → P.sessions sid = true)
    (hcmd : Command env r db hd effect hd') :
    (∀ m ∈ effect.published, P.message m = true) ∧
      (∀ c, effect.created = some c → P.sessions c.sid = true) ∧
      ∀ k, effect.committed = some k → P.sessions k.sid = true := by
  cases hcmd with
  | create form v sid createdAt =>
    refine ⟨by simp, ?_, by simp⟩
    rintro c ⟨⟩
    exact hs sid rfl
  | won sid form session bob score e _ _ =>
    refine ⟨?_, by simp, ?_⟩
    · intro m hm
      rw [List.mem_singleton.mp hm]
      simpa [message] using hs sid rfl
    · rintro k ⟨⟩
      exact hs sid rfl
  | _ => simp

/-- A command on another session leaves the part alone. -/
theorem untouched_of_ne {db : Store} {r : ℕ} {hd hd' : Handler} {effect : Effect}
    (hs : ∀ sid, hd.session? = some sid → P.sessions sid = false)
    (hcmd : Command env r db hd effect hd') : P.Untouched db effect := by
  -- the key that is written is not one of the part
  have hother : ∀ {e : Store} {sid : Str}, hd.session? = some sid → e.now = db.now →
      (∀ k, k ≠ key sid → e.db k = db.db k) → P.Agree e db := by
    intro e sid hsid hnow he
    constructor
    · exact hnow.symm
    · intro sid' hs'
      refine (he _ fun heq => ?_).symm
      rw [key_injective heq, hs sid hsid] at hs'
      cases hs'
  have hsame : P.Agree db db := ⟨rfl, fun _ _ => rfl⟩
  cases hcmd with
  | create form v sid createdAt =>
    refine ⟨hother rfl (by simp) ?_, by simp, ?_, by simp⟩
    · exact fun k hk => SessionStore.create_db_ne hk form v createdAt _
    · rintro c ⟨⟩
      exact hs sid rfl
  | won sid form session bob score e _ _ =>
    refine ⟨hother rfl rfl fun k hk => Server.put_db_ne hk _ _, ?_, by simp, ?_⟩
    · intro m hm
      rw [List.mem_singleton.mp hm]
      simpa [message] using hs sid rfl
    · rintro k ⟨⟩
      exact hs sid rfl
  | delete sid =>
    exact ⟨hother rfl rfl fun k hk => Server.put_db_ne hk _ _, by simp, by simp, by simp⟩
  | _ => exact ⟨hsame, by simp, by simp, by simp⟩

/-! ## Messages on their way -/

section Lists

variable {α : Type*} {p : α → Bool}

theorem filter_eraseIdx_of_not {l : List α} {n : ℕ} (h : l[n]?.any p = false) :
    (l.eraseIdx n).filter p = l.filter p := by
  induction l generalizing n with
  | nil => rfl
  | cons x l ih =>
    cases n with
    | zero =>
      have hx : p x = false := h
      simp [hx]
    | succ n =>
      rw [List.eraseIdx_cons_succ, List.filter_cons, List.filter_cons, ih h]

/-- The place of an element among those that have the property. -/
theorem filter_eraseIdx {l : List α} {n : ℕ} (h : l[n]?.any p = true) :
    (l.eraseIdx n).filter p = (l.filter p).eraseIdx ((l.take n).countP p) := by
  induction l generalizing n with
  | nil => simp at h
  | cons x l ih =>
    cases n with
    | zero =>
      have hx : p x = true := h
      simp [hx]
    | succ n =>
      rw [List.eraseIdx_cons_succ, List.take_succ_cons]
      by_cases hx : p x = true
      · rw [List.filter_cons_of_pos hx, List.filter_cons_of_pos hx, List.countP_cons_of_pos hx,
          List.eraseIdx_cons_succ, ih h]
      · rw [List.filter_cons_of_neg hx, List.filter_cons_of_neg hx, List.countP_cons_of_neg hx,
          ih h]

end Lists

/-! ## What each write does to the part -/

namespace Shows

variable {σ τ : State} {r i w : ℕ}

theorem init (P : Part) : P.Shows State.init State.init where
  store := ⟨rfl, fun _ _ => rfl⟩
  reqs := by simp [State.init]
  streams := by simp [State.init]
  listening _ := rfl
  targets _ _ _ _ := Iff.rfl
  inflight := by simp [State.init]
  ids := by simp [State.init]
  published := by simp [State.init]
  creations := by simp [State.init]
  commits := by simp [State.init]

theorem req_own (h : P.Shows σ τ) (hr : P.requests r = true) : τ.reqs r = σ.reqs r := by
  rw [h.reqs, if_pos hr]

theorem stream_own (h : P.Shows σ τ) (hi : P.streams i = true) : τ.streams i = σ.streams i := by
  rw [h.streams, if_pos hi]

/-- A request of the part goes on. -/
theorem setReq (h : P.Shows σ τ) (hr : P.requests r = true) (req : Req) :
    P.Shows (σ.setReq r req) (τ.setReq r req) where
  store := h.store
  reqs := by
    intro r'
    by_cases hr' : r' = r
    · rw [hr', State.setReq_reqs_self, State.setReq_reqs_self, if_pos hr]
    · rw [State.setReq_reqs_ne _ hr', State.setReq_reqs_ne _ hr']
      exact h.reqs r'
  streams := h.streams
  listening := h.listening
  targets := h.targets
  inflight := h.inflight
  ids := h.ids
  published := h.published
  creations := h.creations
  commits := h.commits

/-- Another request goes on. -/
theorem setReq_other (h : P.Shows σ τ) (hr : P.requests r = false) (req : Req) :
    P.Shows (σ.setReq r req) τ where
  store := h.store
  reqs := by
    intro r'
    rw [h.reqs r']
    by_cases hr' : r' = r
    · simp [hr', hr]
    · rw [State.setReq_reqs_ne _ hr']
  streams := h.streams
  listening := h.listening
  targets := h.targets
  inflight := h.inflight
  ids := h.ids
  published := h.published
  creations := h.creations
  commits := h.commits

/-- A command on the part. -/
theorem apply (h : P.Shows σ τ) {e e' : Effect} (hstore : P.Agree e.store e'.store)
    (hpublished : e'.published = e.published) (hcreated : e'.created = e.created)
    (hcommitted : e'.committed = e.committed) (hm : ∀ m ∈ e.published, P.message m = true)
    (hc : ∀ c, e.created = some c → P.sessions c.sid = true)
    (hk : ∀ k, e.committed = some k → P.sessions k.sid = true) :
    P.Shows (σ.apply e) (τ.apply e') where
  store := hstore
  reqs := h.reqs
  streams := h.streams
  listening := h.listening
  targets := h.targets
  inflight := by
    intro w
    rw [State.apply_inflight, State.apply_inflight, h.listening, h.inflight, hpublished]
    split_ifs
    · rw [List.filter_append, List.filter_eq_self.mpr hm]
    · rfl
  ids := h.ids
  published := by
    rw [State.apply_published, State.apply_published, h.published, hpublished, List.filter_append,
      List.filter_eq_self.mpr hm]
  creations := by
    have hall : ∀ c ∈ e.created.toList, P.sessions c.sid = true := by simpa using hc
    rw [State.apply_creations, State.apply_creations, h.creations, hcreated, List.filter_append,
      List.filter_eq_self.mpr hall]
  commits := by
    have hall : ∀ k ∈ e.committed.toList, P.sessions k.sid = true := by simpa using hk
    rw [State.apply_commits, State.apply_commits, h.commits, hcommitted, List.filter_append,
      List.filter_eq_self.mpr hall]

/-- A command that leaves the part alone. -/
theorem apply_other (h : P.Shows σ τ) {e : Effect} (he : P.Untouched σ.store e) :
    P.Shows (σ.apply e) τ := by
  have hpublished : e.published.filter P.message = [] := by
    simpa [List.filter_eq_nil_iff] using he.published
  have hcreated : e.created.toList.filter (fun c => P.sessions c.sid) = [] := by
    simpa [List.filter_eq_nil_iff] using he.created
  have hcommitted : e.committed.toList.filter (fun k => P.sessions k.sid) = [] := by
    simpa [List.filter_eq_nil_iff] using he.committed
  exact
  { store := by
      constructor
      · exact h.store.now.trans he.store.now
      · exact fun sid hs => (h.store.entries sid hs).trans (he.store.entries sid hs)
    reqs := h.reqs
    streams := h.streams
    listening := h.listening
    targets := h.targets
    inflight := by
      intro w
      rw [State.apply_inflight, h.inflight]
      split_ifs
      · rw [List.filter_append, hpublished, List.append_nil]
      · rfl
    ids := h.ids
    published := by
      rw [State.apply_published, h.published, List.filter_append, hpublished, List.append_nil]
    creations := by
      rw [State.apply_creations, h.creations, List.filter_append, hcreated, List.append_nil]
    commits := by
      rw [State.apply_commits, h.commits, List.filter_append, hcommitted, List.append_nil] }

/-- A stream of the part goes on. -/
theorem setStream (h : P.Shows σ τ) (hi : P.streams i = true) (st : Stream) :
    P.Shows (σ.setStream i st) (τ.setStream i st) where
  store := h.store
  reqs := h.reqs
  streams := by
    intro j
    by_cases hj : j = i
    · rw [hj, State.setStream_streams_self, State.setStream_streams_self, if_pos hi]
    · rw [State.setStream_streams_ne _ hj, State.setStream_streams_ne _ hj]
      exact h.streams j
  listening := h.listening
  targets := h.targets
  inflight := h.inflight
  ids := h.ids
  published := h.published
  creations := h.creations
  commits := h.commits

/-- Another stream goes on. -/
theorem setStream_other (h : P.Shows σ τ) (hi : P.streams i = false) (st : Stream) :
    P.Shows (σ.setStream i st) τ where
  store := h.store
  reqs := h.reqs
  streams := by
    intro j
    rw [h.streams j]
    by_cases hj : j = i
    · simp [hj, hi]
    · rw [State.setStream_streams_ne _ hj]
  listening := h.listening
  targets := h.targets
  inflight := h.inflight
  ids := h.ids
  published := h.published
  creations := h.creations
  commits := h.commits

/-- A worker goes on, in both states. -/
theorem setWorker (h : P.Shows σ τ) {k k' : Worker} (hlistening : k'.listening = k.listening)
    (htargets : ∀ sid i, P.streams i = true →
      (i ∈ EventHub.targets k'.hub sid ↔ i ∈ EventHub.targets k.hub sid))
    (hinflight : k'.inflight = k.inflight.filter P.message) :
    P.Shows (σ.setWorker w k) (τ.setWorker w k') where
  store := h.store
  reqs := h.reqs
  streams := h.streams
  listening := by
    intro w'
    by_cases hw : w' = w
    · rw [hw, State.setWorker_workers_self, State.setWorker_workers_self, hlistening]
    · rw [State.setWorker_workers_ne _ hw, State.setWorker_workers_ne _ hw]
      exact h.listening w'
  targets := by
    intro w' sid i hi
    by_cases hw : w' = w
    · rw [hw, State.setWorker_workers_self, State.setWorker_workers_self]
      exact htargets sid i hi
    · rw [State.setWorker_workers_ne _ hw, State.setWorker_workers_ne _ hw]
      exact h.targets w' sid i hi
  inflight := by
    intro w'
    by_cases hw : w' = w
    · rw [hw, State.setWorker_workers_self, State.setWorker_workers_self, hinflight]
    · rw [State.setWorker_workers_ne _ hw, State.setWorker_workers_ne _ hw]
      exact h.inflight w'
  ids := h.ids
  published := h.published
  creations := h.creations
  commits := h.commits

/-- A worker does something that the part does not notice. -/
theorem setWorker_other (h : P.Shows σ τ) {k : Worker}
    (hlistening : k.listening = (σ.workers w).listening)
    (htargets : ∀ sid i, P.streams i = true →
      (i ∈ EventHub.targets (σ.workers w).hub sid ↔ i ∈ EventHub.targets k.hub sid))
    (hinflight : (σ.workers w).inflight.filter P.message = k.inflight.filter P.message) :
    P.Shows (σ.setWorker w k) τ := by
  have hself : τ.setWorker w (τ.workers w) = τ := by simp [State.setWorker]
  rw [← hself]
  refine h.setWorker ?_ ?_ ?_
  · rw [h.listening, hlistening]
  · intro sid i hi
    rw [h.targets w sid i hi]
    exact htargets sid i hi
  · rw [h.inflight, hinflight]

/-- A message of the part is offered to the queues. -/
theorem deliverTo (h : P.Shows σ τ) (w : ℕ) (m : Message) :
    P.Shows (σ.deliverTo w m) (τ.deliverTo w m) where
  store := h.store
  reqs := h.reqs
  streams := by
    intro i
    by_cases hi : P.streams i = true
    · simp only [State.deliverTo, h.stream_own hi, if_pos hi, h.targets w _ i hi]
    · have hnone := h.streams i
      rw [if_neg hi] at hnone ⊢
      simp [State.deliverTo, hnone]
  listening := h.listening
  targets := h.targets
  inflight := h.inflight
  ids := h.ids
  published := h.published
  creations := h.creations
  commits := h.commits

/-- Another message is. -/
theorem deliverTo_other (h : P.Shows σ τ) {w : ℕ} {m : Message}
    (hm : ∀ i, P.streams i = true →
      i ∉ EventHub.targets (σ.workers w).hub (EventHub.sessionOfChannel m.channel)) :
    P.Shows (σ.deliverTo w m) τ where
  store := h.store
  reqs := h.reqs
  streams := by
    intro i
    rw [h.streams i]
    by_cases hi : P.streams i = true
    · rw [if_pos hi, if_pos hi, σ.deliverTo_of_notMem (hm i hi)]
    · rw [if_neg hi, if_neg hi]
  listening := h.listening
  targets := h.targets
  inflight := h.inflight
  ids := h.ids
  published := h.published
  creations := h.creations
  commits := h.commits

end Shows

/-! ## Steps -/

section Steps

variable {l : Label} {σ σ' τ : State}

/-- A handler stays with its session, or draws one. -/
theorem session_of_handlerStep {r : ℕ} {db : Store} {hd hd' : Handler}
    (h : HandlerStep env r db l hd hd') {sid : Str} (hsid : hd'.session? = some sid) :
    hd.session? = some sid ∨ l = .name r sid := by
  cases h with
  | embedded result _ _ hembed =>
    cases hembed with
    | scored => exact Or.inl hsid
    | _ => cases hsid
  | named form v sid' =>
    obtain rfl : sid' = sid := Option.some.inj hsid
    exact Or.inr rfl
  | executed _ effect _ hcmd =>
    cases hcmd with
    | load sid' form =>
      rcases verifyLoaded_cases sid' form (SessionStore.get db sid') with
        ⟨_, hv⟩ | ⟨_, _, _, hv⟩ | ⟨_, _, _, _, _, hv⟩ | ⟨_, _, _, hv⟩
      all_goals
        rw [hv] at hsid
        first
        | exact Or.inl hsid
        | cases hsid
    | _ => cases hsid
  | _ => cases hsid

theorem Inside.init (P : Part) : P.Inside State.init where
  handlers r req _ hreq := by cases hreq
  streams i st _ hst := by cases hst

theorem Inside.of_step (hin : P.Inside σ) (hcov : P.Covers l) (h : step env l σ = some σ') :
    P.Inside σ' := by
  constructor
  · intro r req hr hreq sid hsid
    cases hold : σ.reqs r with
    | none =>
      rcases arrival_of_step h hold hreq with ⟨limited, rfl, hstart⟩
      -- what it goes on with at once is what it asks for
      refine hcov hr sid ?_
      rw [hstart] at hsid
      split_ifs at hsid
      · cases hsid
      · cases hq : req.request with
        | create body =>
          rcases start_create body with ⟨_, hs, _⟩ | ⟨_, _, hs⟩
          all_goals
            rw [hq, hs] at hsid
            cases hsid
        | get sid' =>
          rw [hq] at hsid
          exact hsid
        | delete sid' =>
          rw [hq] at hsid
          exact hsid
        | verify sid' body =>
          rcases start_verify sid' body with ⟨_, hs, _⟩ | ⟨_, _, hs⟩
          · rw [hq, hs] at hsid
            cases hsid
          · rw [hq, hs] at hsid
            exact hsid
    | some req₀ =>
      rcases handlerStep_of_step h hold with ⟨handler, hreq', hcases⟩
      obtain rfl := Option.some.inj (hreq.symm.trans hreq')
      rcases hcases with rfl | hstep
      · exact hin.handlers r req₀ hr hold sid hsid
      · rcases session_of_handlerStep hstep hsid with hs | rfl
        · exact hin.handlers r req₀ hr hold sid hs
        · exact hcov hr
  · intro i st hi hst
    cases hold : σ.streams i with
    | none =>
      rcases new_of_step h hold hst with ⟨sid, w, rfl, rfl⟩
      exact hcov hi
    | some st₀ =>
      rcases moved_of_step h hold with ⟨st', hst', hmoved⟩
      obtain rfl := Option.some.inj (hst.symm.trans hst')
      rw [hmoved.frame.1]
      exact hin.streams i st₀ hi hold

/-- A local step of a request, or of another one. -/
theorem shows_of_isLocal (hshows : P.Shows σ τ) (hl : l.isLocal = true)
    (h : step env l σ = some σ') :
    (P.label l σ = none ∧ P.Shows σ' τ) ∨
      ∃ τ', P.label l σ = some l ∧ step env l τ = some τ' ∧ P.Shows σ' τ' := by
  cases l with
  | request r q limited =>
    rcases step_request h with ⟨hnone, rfl⟩
    cases hr : P.requests r with
    | true =>
      have hnone' := (hshows.req_own hr).trans hnone
      exact Or.inr ⟨_, label_req rfl hr, request_step hnone' q limited,
        hshows.setReq hr _⟩
    | false =>
      exact Or.inl ⟨label_req_other rfl hr, hshows.setReq_other hr _⟩
  | embed r result =>
    rcases step_embed h with ⟨req, handler, hreq, hembed, rfl⟩
    cases hr : P.requests r with
    | true =>
      have hreq' := (hshows.req_own hr).trans hreq
      exact Or.inr ⟨_, label_req rfl hr, embed_step hreq' hembed,
        hshows.setReq hr _⟩
    | false =>
      exact Or.inl ⟨label_req_other rfl hr, hshows.setReq_other hr _⟩
  | name r sid =>
    rcases step_name h with ⟨req, handler, hreq, hname, hfresh, rfl⟩
    cases hr : P.requests r with
    | true =>
      have hreq' := (hshows.req_own hr).trans hreq
      rw [← hshows.store.now] at hname
      refine Or.inr ⟨_, label_req rfl hr,
        name_step hreq' hname fun hs => hfresh (hshows.ids sid hs), ?_⟩
      have hset := hshows.setReq hr { req with handler }
      refine { hset with ids := ?_ }
      intro sid' hs
      rcases List.mem_cons.mp hs with rfl | hs
      · exact List.mem_cons_self
      · exact List.mem_cons_of_mem _ (hshows.ids sid' hs)
    | false =>
      refine Or.inl ⟨label_req_other rfl hr, ?_⟩
      have hset := hshows.setReq_other hr { req with handler }
      exact { hset with ids := fun sid' hs => List.mem_cons_of_mem _ (hshows.ids sid' hs) }
  | answer r =>
    rcases step_answer h with ⟨req, result, hreq, hreply, rfl⟩
    cases hr : P.requests r with
    | true =>
      have hreq' := (hshows.req_own hr).trans hreq
      exact Or.inr ⟨_, label_req rfl hr, answer_step hreq' hreply,
        hshows.setReq hr _⟩
    | false =>
      exact Or.inl ⟨label_req_other rfl hr, hshows.setReq_other hr _⟩
  | _ => cases hl

/-- A Redis command. -/
theorem shows_of_redis {r : ℕ} {fault : Fault} (hin : P.Inside σ)
    (hspares : P.Spares env (.redis r fault) σ) (hshows : P.Shows σ τ)
    (h : step env (.redis r fault) σ = some σ') :
    (P.label (.redis r fault) σ = none ∧ P.Shows σ' τ) ∨
      ∃ τ', P.label (.redis r fault) σ = some (.redis r fault) ∧
        step env (.redis r fault) τ = some τ' ∧ P.Shows σ' τ' := by
  rcases step_redis h with ⟨req, effect, handler, hreq, hredis, hcases⟩
  have hcmd := command_of_redis hredis
  cases hr : P.requests r with
  | true =>
    right
    have hown : P.label (.redis r fault) σ = some (.redis r fault) := by
      simp [label, owns, Label.req?, hr]
    have hs := hin.handlers r req hr hreq
    rcases redis_agree hshows.store hs hcmd with ⟨effect', hredis', hagree, hp, hc, hk⟩
    rcases effect_inside hs hcmd with ⟨hp', hc', hk'⟩
    have hreq' := (hshows.req_own hr).trans hreq
    have happly := hshows.apply hagree hp hc hk hp' hc' hk'
    rcases redis_step hreq' hredis' with ⟨hnone, hbefore, hafter⟩
    rcases hcases with ⟨rfl, rfl⟩ | ⟨rfl, rfl⟩ | ⟨rfl, rfl⟩
    · exact ⟨_, hown, hnone, happly.setReq hr _⟩
    · exact ⟨_, hown, hbefore, hshows.setReq hr _⟩
    · exact ⟨_, hown, hafter, happly.setReq hr _⟩
  | false =>
    left
    refine ⟨label_req_other rfl hr, ?_⟩
    rcases hcases with ⟨rfl, rfl⟩ | ⟨rfl, rfl⟩ | ⟨rfl, rfl⟩
    · have he := hspares r _ req effect handler rfl hr (by decide) hreq hredis
      exact (hshows.apply_other he).setReq_other hr _
    · exact hshows.setReq_other hr _
    · have he := hspares r _ req effect handler rfl hr (by decide) hreq hredis
      exact (hshows.apply_other he).setReq_other hr _

/-- A step of a stream. -/
theorem shows_of_stream {i : ℕ} (hin : P.Inside σ) (hshows : P.Shows σ τ)
    (hl : l.stream? = some i) (h : step env l σ = some σ') :
    (P.label l σ = none ∧ P.Shows σ' τ) ∨
      ∃ τ', P.label l σ = some l ∧ step env l τ = some τ' ∧ P.Shows σ' τ' := by
  cases l with
  | stream j sid w =>
    obtain rfl := (Option.some.inj hl).symm
    rcases step_stream h with ⟨hnone, rfl⟩
    cases hi : P.streams i with
    | true =>
      have hnone' := (hshows.stream_own hi).trans hnone
      refine Or.inr ⟨_, label_stream rfl hi, ?_, hshows.setStream hi _⟩
      simp [step, hnone']
    | false =>
      exact Or.inl ⟨label_stream_other rfl hi,
        hshows.setStream_other hi _⟩
  | read j fault =>
    obtain rfl := (Option.some.inj hl).symm
    rcases step_read h with ⟨st, st', hst, rfl, hcases⟩
    cases hi : P.streams i with
    | true =>
      have hst' := (hshows.stream_own hi).trans hst
      refine Or.inr ⟨_, label_stream rfl hi, ?_, hshows.setStream hi st'⟩
      rcases hcases with ⟨rfl, hread⟩ | ⟨hfault, hfail⟩
      · rw [← hshows.store.redis (hin.streams i st hi hst)] at hread
        simp [step, hst', hread]
      · cases fault with
        | none => exact absurd rfl hfault
        | _ => simp [step, hst', hfail]
    | false =>
      exact Or.inl ⟨label_stream_other rfl hi,
        hshows.setStream_other hi _⟩
  | advance j =>
    obtain rfl := (Option.some.inj hl).symm
    rcases step_advance h with ⟨st, st', hst, hadv, rfl⟩
    cases hi : P.streams i with
    | true =>
      have hst' := (hshows.stream_own hi).trans hst
      rw [← hshows.store.now] at hadv
      have hworker : P.Shows (σ.setWorker st.worker { σ.workers st.worker with
            hub := st.hubStep i (σ.workers st.worker).hub })
          (τ.setWorker st.worker { τ.workers st.worker with
            hub := st.hubStep i (τ.workers st.worker).hub }) := by
        refine hshows.setWorker (hshows.listening _) ?_ (hshows.inflight _)
        intro sid j hj
        rw [mem_targets_hubStep, mem_targets_hubStep, hshows.targets _ sid j hj]
      refine Or.inr ⟨_, label_stream rfl hi, ?_, hworker.setStream hi st'⟩
      simp [step, hst', hadv]
    | false =>
      have hworker : P.Shows (σ.setWorker st.worker { σ.workers st.worker with
          hub := st.hubStep i (σ.workers st.worker).hub }) τ := by
        refine hshows.setWorker_other rfl ?_ rfl
        intro sid j hj
        have hji : j ≠ i := by
          rintro rfl
          rw [hi] at hj
          cases hj
        simp [mem_targets_hubStep, hji]
      exact Or.inl ⟨label_stream_other rfl hi, hworker.setStream_other hi _⟩
  | close j =>
    obtain rfl := (Option.some.inj hl).symm
    rcases step_close h with ⟨st, st', hst, hclose, rfl⟩
    cases hi : P.streams i with
    | true =>
      have hst' := (hshows.stream_own hi).trans hst
      refine Or.inr ⟨_, label_stream rfl hi, ?_, hshows.setStream hi _⟩
      simp [step, hst', hclose]
    | false =>
      exact Or.inl ⟨label_stream_other rfl hi,
        hshows.setStream_other hi _⟩
  | _ => cases hl

/-- A delivery. -/
theorem shows_of_deliver {w : ℕ} (hflow : Flow env σ) (hin : P.Inside σ) (hshows : P.Shows σ τ)
    (h : step env (.deliver w) σ = some σ') :
    (P.label (.deliver w) σ = none ∧ P.Shows σ' τ) ∨
      ∃ τ', P.label (.deliver w) σ = some (.deliver w) ∧ step env (.deliver w) τ = some τ' ∧
        P.Shows σ' τ' := by
  rcases step_deliver h with ⟨m, rest, hm, rfl⟩
  have hfilter := hshows.inflight w
  cases hp : P.message m with
  | true =>
    rw [hm, List.filter_cons_of_pos hp] at hfilter
    have hshows' : P.Shows ((σ.deliverTo w m).setWorker w { σ.workers w with inflight := rest })
        ((τ.deliverTo w m).setWorker w
          { τ.workers w with inflight := rest.filter P.message }) :=
      (hshows.deliverTo w m).setWorker (hshows.listening w) (hshows.targets w) rfl
    refine Or.inr ⟨_, by simp [label, hm, hp], ?_, hshows'⟩
    simp [step, hfilter]
  | false =>
    refine Or.inl ⟨by simp [label, hm, hp], ?_⟩
    refine (hshows.deliverTo_other ?_).setWorker_other rfl (fun _ _ _ => Iff.rfl) ?_
    · -- the streams of the part are registered for its sessions
      intro i hi hmem
      rcases (hflow.hub _ _ _).mp hmem with ⟨st, hst, hsid, _⟩
      have hs := hin.streams i st hi hst
      rw [hsid] at hs
      rw [message, hs] at hp
      cases hp
    · simp [hm, hp]

theorem shows_of_step (hflow : Flow env σ) (hin : P.Inside σ) (hspares : P.Spares env l σ)
    (hshows : P.Shows σ τ) (h : step env l σ = some σ') :
    (P.label l σ = none ∧ P.Shows σ' τ) ∨
      ∃ l' τ', P.label l σ = some l' ∧ step env l' τ = some τ' ∧ P.Shows σ' τ' := by
  have hsame : ((P.label l σ = none ∧ P.Shows σ' τ) ∨
      ∃ τ', P.label l σ = some l ∧ step env l τ = some τ' ∧ P.Shows σ' τ') →
      (P.label l σ = none ∧ P.Shows σ' τ) ∨
        ∃ l' τ', P.label l σ = some l' ∧ step env l' τ = some τ' ∧ P.Shows σ' τ' := by
    rintro (hnone | ⟨τ', hl, hs, hshows'⟩)
    · exact Or.inl hnone
    · exact Or.inr ⟨l, τ', hl, hs, hshows'⟩
  cases l with
  | request _ _ _ | embed _ _ | name _ _ | answer _ => exact hsame (shows_of_isLocal hshows rfl h)
  | redis r fault => exact hsame (shows_of_redis hin hspares hshows h)
  | stream _ _ _ | read _ _ | advance _ | close _ => exact hsame (shows_of_stream hin hshows rfl h)
  | deliver w => exact hsame (shows_of_deliver hflow hin hshows h)
  | listen w =>
    obtain rfl := step_listen h
    refine Or.inr ⟨_, _, rfl, rfl, hshows.setWorker rfl (hshows.targets w) (hshows.inflight w)⟩
  | disconnect w =>
    obtain rfl := step_disconnect h
    refine Or.inr ⟨_, _, rfl, rfl, hshows.setWorker rfl (hshows.targets w) (hshows.inflight w)⟩
  | lose w n =>
    obtain rfl := step_lose h
    cases hp : (σ.workers w).inflight[n]?.any P.message with
    | true =>
      have hlost : P.label (.lose w n) σ =
          some (.lose w (((σ.workers w).inflight.take n).countP P.message)) := by
        simp [label, hp]
      refine Or.inr ⟨_, _, hlost, rfl,
        hshows.setWorker (hshows.listening w) (hshows.targets w) ?_⟩
      rw [hshows.inflight, filter_eraseIdx hp]
    | false =>
      refine Or.inl ⟨by simp [label, hp], ?_⟩
      exact hshows.setWorker_other rfl (fun _ _ _ => Iff.rfl) (filter_eraseIdx_of_not hp).symm
  | tick d =>
    obtain rfl := step_tick h
    exact Or.inr ⟨_, _, rfl, rfl, { hshows with store := hshows.store.tick d }⟩

end Steps

/-! ## Runs -/

/-- A part of a run that the rest spares is a run of its own. -/
theorem run {ls : List Label} {σ : State}
    (h : (server env).Run (fun l σ => P.Covers l ∧ P.Spares env l σ) State.init ls σ) :
    ∃ τ, (server env).Run Lts.anyStep State.init ((server env).project P.label ls State.init) τ ∧
      P.Shows σ τ := by
  have hinv := h.guarded (P := fun σ => (Inv env σ ∧ Flow env σ) ∧ P.Inside σ) ?_
    ⟨⟨Inv.init, Flow.init⟩, Inside.init P⟩
  · refine hinv.project ?_ (Shows.init P)
    intro l s t s' hok hs hshows
    exact shows_of_step hok.2.1.2 hok.2.2 hok.1.2 hshows hs
  · intro l s t hok hs hall
    exact ⟨⟨hall.1.1.of_step hs, hall.1.2.of_step hall.1.1 hs⟩, hall.2.of_step hok.1 hs⟩

/-- The labels of the part stay, in their order. -/
theorem filter_owns {ok : Lts.Guard State Label} {ls : List Label} {σ σ' : State}
    (h : (server env).Run ok σ ls σ') :
    ((server env).project P.label ls σ).filter P.owns = ls.filter P.owns := by
  refine h.filter_project ?_
  intro l s
  cases l with
  | deliver w =>
    cases hd : (s.workers w).inflight.head?.any P.message <;>
      simp [label, owns, Label.req?, Label.stream?, hd]
  | lose w n =>
    cases hd : (s.workers w).inflight[n]?.any P.message <;>
      simp [label, owns, Label.req?, Label.stream?, hd]
  | listen w => rfl
  | disconnect w => rfl
  | tick d => rfl
  | _ =>
    simp only [label]
    split_ifs with ho <;> simp [ho]

/-- A request that stays with other sessions spares the part. -/
theorem spares_of_inside {Q : Part} {l : Label} {σ : State} (hin : Q.Inside σ)
    (hrequests : ∀ r, P.requests r = false → Q.requests r = true)
    (hsessions : ∀ sid, Q.sessions sid = true → P.sessions sid = false) : P.Spares env l σ := by
  intro r fault req effect handler _ hr _ hreq hredis
  refine untouched_of_ne ?_ (command_of_redis hredis)
  intro sid hsid
  exact hsessions sid (hin.handlers r req (hrequests r hr) hreq sid hsid)

end Part

/-! ## One session -/

/-- The label makes request `r` a request on session `sid`. -/
def Label.asks (r : ℕ) (sid : Str) : Label → Bool
  | .request r' q _ => r' == r && q.session? == some sid
  | .name r' sid' => r' == r && sid' == sid
  | _ => false

/-- The label makes stream `i` a stream of session `sid`. -/
def Label.opens (i : ℕ) (sid : Str) : Label → Bool
  | .stream i' sid' _ => i' == i && sid' == sid
  | _ => false

/-- The requests and streams on session `sid` in the run `ls`, the request that creates it included.
-/
def Part.ofSession (sid : Str) (ls : List Label) : Part where
  sessions s := s == sid
  requests r := ls.any (Label.asks r sid)
  streams i := ls.any (Label.opens i sid)

section Session

variable {env : Env} {ok : Lts.Guard State Label} {ls : List Label} {σ σ' : State} {sid : Str}

theorem asks_iff {r : ℕ} {l : Label} : l.asks r sid = true ↔
    (∃ q limited, l = .request r q limited ∧ q.session? = some sid) ∨ l = .name r sid := by
  cases l with
  | request r' q limited =>
    simp only [Label.asks, Bool.and_eq_true, beq_iff_eq, Label.request.injEq,
        reduceCtorEq, or_false]
    constructor
    · rintro ⟨rfl, hq⟩
      exact ⟨q, limited, ⟨rfl, rfl, rfl⟩, hq⟩
    · rintro ⟨_, _, ⟨rfl, rfl, rfl⟩, hq⟩
      exact ⟨rfl, hq⟩
  | _ => simp [Label.asks]

/-- A stream that is requested in a run has the session it is requested for. -/
theorem stream_of_mem (h : (server env).Run ok σ ls σ') {i w : ℕ}
    (hmem : .stream i sid w ∈ ls) : ∃ st, σ'.streams i = some st ∧ st.sid = sid := by
  rcases List.append_of_mem hmem with ⟨ls₁, ls₂, rfl⟩
  rcases h.split with ⟨τ, _, hrun⟩
  rcases Lts.run_cons_iff.mp hrun with ⟨_, τ', hs, hrest⟩
  replace hs : step env (.stream i sid w) τ = some τ' := hs
  rcases step_stream hs with ⟨_, rfl⟩
  refine hrest.preserves (P := fun σ => ∃ st, σ.streams i = some st ∧ st.sid = sid) ?_
    ⟨Stream.new sid w, by simp, rfl⟩
  rintro l s t _ hst ⟨st, hi, hsid⟩
  rcases moved_of_step hst hi with ⟨st', hi', hmoved⟩
  exact ⟨st', hi', hmoved.frame.1.trans hsid⟩

/-- A request is on one session only. -/
theorem covers_ofSession (h : (server env).Run ok State.init ls σ) {l : Label} (hl : l ∈ ls) :
    (Part.ofSession sid ls).Covers l := by
  cases l with
  | request r q limited =>
    intro hr sid' hsid'
    rcases List.any_eq_true.mp hr with ⟨l', hl', hasks⟩
    have hq := request_of_mem h hl
    rcases asks_iff.mp hasks with ⟨q', limited', rfl, hq'⟩ | rfl
    · obtain rfl := Option.some.inj (hq.symm.trans (request_of_mem h hl'))
      obtain rfl := Option.some.inj (hsid'.symm.trans hq')
      exact beq_self_eq_true sid'
    · -- a request that draws an id is a create request
      rcases accepted_of_name h hl' with ⟨body, _, hcreate, _⟩
      obtain rfl := Option.some.inj (hq.symm.trans hcreate)
      cases hsid'
  | name r sid' =>
    intro hr
    rcases List.any_eq_true.mp hr with ⟨l', hl', hasks⟩
    rcases asks_iff.mp hasks with ⟨q', limited', rfl, hq'⟩ | rfl
    · rcases accepted_of_name h hl with ⟨body, _, hcreate, _⟩
      obtain rfl := Option.some.inj ((request_of_mem h hl').symm.trans hcreate)
      cases hq'
    · exact beq_iff_eq.mpr ((named_once h hl hl').mp rfl)
  | stream i sid' w =>
    intro hi
    rcases List.any_eq_true.mp hi with ⟨l', hl', hopens⟩
    cases l' with
    | stream i' sid'' w' =>
      obtain ⟨rfl, rfl⟩ : i' = i ∧ sid'' = sid := by simpa [Label.opens] using hopens
      rcases stream_of_mem h hl with ⟨st, hst, hs⟩
      rcases stream_of_mem h hl' with ⟨st', hst', hs'⟩
      obtain rfl := Option.some.inj (hst.symm.trans hst')
      exact beq_iff_eq.mpr (hs.symm.trans hs')
    | _ => cases hopens
  | _ => trivial

/-- The requests on other sessions. -/
def Part.besides (sid : Str) (ls : List Label) : Part where
  sessions s := s != sid
  requests r := !(Part.ofSession sid ls).requests r
  streams _ := false

theorem covers_besides {l : Label} (hl : l ∈ ls) : (Part.besides sid ls).Covers l := by
  have hother : ∀ {r : ℕ} {s : Str}, l.asks r s = true → (Part.besides sid ls).requests r = true →
      (Part.besides sid ls).sessions s = true := by
    intro r s hasks hr
    refine bne_iff_ne.mpr ?_
    rintro rfl
    have hown : (Part.ofSession s ls).requests r = true := List.any_eq_true.mpr ⟨l, hl, hasks⟩
    simp [Part.besides, hown] at hr
  cases l with
  | request r q limited =>
    intro hr s hs
    exact hother (asks_iff.mpr (Or.inl ⟨q, limited, rfl, hs⟩)) hr
  | name r s =>
    intro hr
    exact hother (asks_iff.mpr (Or.inr rfl)) hr
  | stream i s w =>
    intro hi
    cases hi
  | _ => trivial

end Session

/-- Sessions do not notice each other: take from a run the requests on other sessions, their streams
and the deliveries of their messages, and what is left is a run in which the session's own requests
and streams do the same steps and are in the same states, with the same hash and messages. -/
theorem session_on_its_own {env : Env} {ls : List Label} {σ : State}
    (h : (server env).Run Lts.anyStep State.init ls σ) (sid : Str) :
    ∃ ls' τ, (server env).Run Lts.anyStep State.init ls' τ ∧
      ls'.filter (Part.ofSession sid ls).owns = ls.filter (Part.ofSession sid ls).owns ∧
      (Part.ofSession sid ls).Shows σ τ := by
  have hinside : ∀ ls₁ l ls₂ s, ls = ls₁ ++ l :: ls₂ →
      (server env).Run Lts.anyStep State.init ls₁ s → (Part.besides sid ls).Inside s := by
    intro ls₁ l ls₂ s hls hrun
    have hlabels := hrun.of_labels (p := (Part.besides sid ls).Covers)
      fun l' hl' => covers_besides (by simp [hls, hl'])
    refine hlabels.invariant (Part.Inside.init _) ?_
    intro l' s' t hok hs hin
    exact hin.of_step hok.2 hs
  have hguard : (server env).Run
      (fun l s => (Part.ofSession sid ls).Covers l ∧ (Part.ofSession sid ls).Spares env l s)
      State.init ls σ := by
    refine h.strengthen ?_
    intro ls₁ l ls₂ s hls hrun
    refine ⟨covers_ofSession h (by simp [hls]), ?_⟩
    refine Part.spares_of_inside (hinside ls₁ l ls₂ s hls hrun) ?_ ?_
    · intro r hr
      simp [Part.besides, hr]
    · intro s hs
      simpa [Part.besides, Part.ofSession] using hs
  rcases Part.run hguard with ⟨τ, hrun, hshows⟩
  exact ⟨_, τ, hrun, Part.filter_owns h, hshows⟩

namespace Sample

/-- A second session, on the worker of the first one's stream, is created and decided. -/
def twoSessions : List Label :=
  List.flatten [create, [.listen 0], openStream 0 0,
    [.request 1 (.create (createBody (jwk (lit "carol")))) false, .embed 1 (some vector),
      .name 1 (lit "s2"), .redis 1 .none, .answer 1],
    [.request 2 (.verify (lit "s2") (verifyBody (lit "dave"))) false, .redis 2 .none,
      .embed 2 (some vector), .redis 2 .none, .deliver 0]]

end Sample

/-- The first of two sessions, on its own. -/
theorem session_on_its_own_sample : ∃ ls' τ,
    (server Sample.config).Run Lts.anyStep State.init ls' τ ∧ τ.reqs 2 = none ∧
      τ.published = [] ∧ (τ.store.db (key Sample.sid)).isSome = true := by
  have hrun := Lts.run_after (server Sample.config) Sample.twoSessions (by decide +kernel)
  rcases session_on_its_own hrun Sample.sid with ⟨ls', τ, hrun', _, hshows⟩
  have hreq : (Part.ofSession Sample.sid Sample.twoSessions).requests 2 = false := by
    decide +kernel
  have hpublished : (((server Sample.config).after Sample.twoSessions).published.filter
      (Part.ofSession Sample.sid Sample.twoSessions).message) = [] := by decide +kernel
  have hstored : (((server Sample.config).after Sample.twoSessions).store.db
      (key Sample.sid)).isSome = true := by decide +kernel
  refine ⟨ls', τ, hrun', ?_, hshows.published.trans hpublished, ?_⟩
  · rw [hshows.reqs, hreq]
    rfl
  · rw [hshows.store.entries Sample.sid (beq_self_eq_true _)]
    exact hstored

/-! ## Requests that write nothing -/

/-- The request has created a session, decided one, or was made to delete one. -/
def State.Writes (σ : State) (r : ℕ) : Prop :=
  (∃ c ∈ σ.creations, c.req = r) ∨ (∃ k ∈ σ.commits, k.req = r) ∨
    ∃ sid, σ.request? r = some (.delete sid)

/-- The command of a request that writes nothing. -/
theorem untouched_of_not_writes {env : Env} {P : Part} {σ σ' : State} {r : ℕ} {fault : Fault}
    {req : Req} {effect : Effect} {handler : Handler} (hi : Inv env σ) (hfault : fault ≠ .before)
    (hreq : σ.reqs r = some req) (hredis : req.handler.redis env r σ.store = some (effect, handler))
    (h : step env (.redis r fault) σ = some σ') (hnot : ¬ σ'.Writes r) :
    P.Untouched σ.store effect := by
  -- the command was executed
  have hdone : ∃ handler', σ' = (σ.apply effect).setReq r { req with handler := handler' } := by
    rcases step_redis h with ⟨req', effect', handler', hreq', hredis', hcases⟩
    obtain rfl := Option.some.inj (hreq.symm.trans hreq')
    rcases Prod.mk.inj (Option.some.inj (hredis.symm.trans hredis')) with ⟨rfl, rfl⟩
    rcases hcases with ⟨_, rfl⟩ | ⟨rfl, _⟩ | ⟨_, rfl⟩
    · exact ⟨_, rfl⟩
    · exact absurd rfl hfault
    · exact ⟨_, rfl⟩
  rcases hdone with ⟨handler', rfl⟩
  have hsame : P.Agree σ.store σ.store := ⟨rfl, fun _ _ => rfl⟩
  have hok := hi.handlers r req hreq
  rcases req with ⟨q, hd⟩
  cases command_of_redis hredis with
  | create form v sid createdAt =>
    refine absurd (Or.inl ?_) hnot
    exact ⟨⟨r, sid, form, v, createdAt, σ.store.now⟩, by simp, rfl⟩
  | won sid form session bob score e _ _ =>
    refine absurd (Or.inr (Or.inl ?_)) hnot
    exact ⟨⟨r, sid, form, score⟩, by simp, rfl⟩
  | delete sid =>
    obtain rfl : q = .delete sid := hok
    refine absurd (Or.inr (Or.inr ?_)) hnot
    exact ⟨sid, by simp [State.request?]⟩
  | _ => exact ⟨hsame, by simp, by simp, by simp⟩

/-- What was written stays written. -/
theorem State.Writes.later {σ σ' : State} {r : ℕ} (h : σ.Writes r) (hlater : σ.Later σ') :
    σ'.Writes r := by
  rcases h with ⟨c, hc, hr⟩ | ⟨k, hk, hr⟩ | ⟨sid, hq⟩
  · exact Or.inl ⟨c, hlater.creations.subset hc, hr⟩
  · exact Or.inr (Or.inl ⟨k, hlater.commits.subset hk, hr⟩)
  · exact Or.inr (Or.inr ⟨sid, hlater.request r _ hq⟩)

/-- A request that writes nothing leaves no trace, and a stream none at all: take any of them from a
run, with all their steps, and what is left is a run in which every session has the same hash, the
same messages are published, and the requests and streams that are left are in the same states. -/
theorem no_trace {env : Env} {ls : List Label} {σ : State}
    (h : (server env).Run Lts.anyStep State.init ls σ) (requests streams : ℕ → Bool)
    (hrequests : ∀ r, σ.Writes r → requests r = true) :
    ∃ ls' τ, (server env).Run Lts.anyStep State.init ls' τ ∧
      ls'.filter (Part.owns ⟨fun _ => true, requests, streams⟩) =
        ls.filter (Part.owns ⟨fun _ => true, requests, streams⟩) ∧
      Part.Shows ⟨fun _ => true, requests, streams⟩ σ τ := by
  have hguard : (server env).Run
      (fun l s => Part.Covers ⟨fun _ => true, requests, streams⟩ l ∧
        Part.Spares ⟨fun _ => true, requests, streams⟩ env l s) State.init ls σ := by
    refine h.strengthen ?_
    rintro ls₁ l ls₂ s rfl hrun
    constructor
    · cases l <;> simp [Part.Covers]
    · rintro r fault req effect handler rfl hr hfault hreq hredis
      rcases h.split with ⟨s', hrun', hrest⟩
      obtain rfl := hrun.deterministic hrun'
      rcases Lts.run_cons_iff.mp hrest with ⟨_, t, hs, hrest⟩
      refine untouched_of_not_writes (Inv.of_run hrun) hfault hreq hredis hs ?_
      intro hwrites
      have hkept := hrequests r (hwrites.later (later_of_run hrest))
      rw [show requests r = false from hr] at hkept
      cases hkept
  rcases Part.run hguard with ⟨τ, hrun, hshows⟩
  exact ⟨_, τ, hrun, Part.filter_owns h, hshows⟩

/-- Without its stream a session is decided just the same. -/
theorem no_trace_sample : ∃ ls' τ, (server Sample.config).Run Lts.anyStep State.init ls' τ ∧
    τ.streams 0 = none ∧
      τ.published = ((server Sample.config).after Sample.delivered).published := by
  have hrun := Lts.run_after (server Sample.config) Sample.delivered (by decide +kernel)
  have hcreations : ((server Sample.config).after Sample.delivered).creations.map Creation.req =
      [0] := by decide +kernel
  have hcommits : ((server Sample.config).after Sample.delivered).commits.map Commit.req =
      [1] := by decide +kernel
  have hlabels : ∀ r sid limited, .request r (.delete sid) limited ∉ Sample.delivered := by
    intro r sid limited
    simp [Sample.delivered, Sample.subscribed, Sample.create, Sample.openStream,
      Sample.startWaiting, Sample.score]
  have hwrites : ∀ r, ((server Sample.config).after Sample.delivered).Writes r →
      decide (r < 2) = true := by
    rintro r (⟨c, hc, rfl⟩ | ⟨k, hk, rfl⟩ | ⟨sid, hq⟩)
    · have hmem := List.mem_map_of_mem (f := Creation.req) hc
      rw [hcreations, List.mem_singleton] at hmem
      simp [hmem]
    · have hmem := List.mem_map_of_mem (f := Commit.req) hk
      rw [hcommits, List.mem_singleton] at hmem
      simp [hmem]
    · rcases requested_of_run hrun hq with hinit | ⟨limited, hmem⟩
      · cases hinit
      · exact absurd hmem (hlabels r sid limited)
  rcases no_trace hrun (fun r => r < 2) (fun _ => false) hwrites with ⟨ls', τ, hrun', _, hshows⟩
  refine ⟨ls', τ, hrun', hshows.streams 0, hshows.published.trans ?_⟩
  exact List.filter_eq_self.mpr fun _ _ => rfl

end Doppelganger
