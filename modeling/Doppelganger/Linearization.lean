import Doppelganger.AtomicRequests
import Doppelganger.Faults

/-!
# The session protocol is linearizable

`Linearizes` says that a history of atomic requests explains a run of the server:
same responses, same store, same messages, and every request acts at one of its
own steps.

A history is found along the run (`Lin`). A verify request acts at its script when
it gets there, and at its snapshot when that already decides the answer. When the
embedding or the score fails it has acted at its snapshot too, but that is known
only later: until then the instant is kept idle, and since such an operation
changes nothing it can be put there after all.
-/

open Text Redis

namespace Doppelganger

/-! ## Histories of a run -/

/-- The texts of a request that are sent to Redis are well-formed. -/
def Request.WellFormed : Request → Prop
  | .create body => ∀ form, createForm body = some form →
    wellFormed form.aliceName = true ∧ wellFormed form.memoryQuestion = true
  | .verify _ body => ∀ form, verifyForm body = some form → wellFormed form.bobName = true
  | _ => True

/-- Every reply arrives, and every request is well-formed. -/
def replied : Lts.Guard State Label := fun l _ =>
  (∀ r fault, l = .redis r fault → fault = .none) ∧
  (∀ r q limited, l = .request r q limited → q.WellFormed)

/-- `c` is what the outside decided for request `r` in a run with labels `ls`. -/
structure Told (env : Env) (ls : List Label) (h : List (Option Atomic.Op)) (r : ℕ) (c : Choice) :
    Prop where
  limited : ∀ q limited, .request r q limited ∈ ls → c.limited = limited
  embedding : ∀ result, .embed r result ∈ ls → c.embedding = result
  named : ∀ i sid, ls[i]? = some (.name r sid) → c.sid = sid ∧
    c.createdAt = natText (((Atomic.object env).stateAt h Atomic.start i).1.now / 1000)

/-- The history `h` has an instant for each label of the run; at it, the request the label belongs to
acts, or none does, or the clock moves on. Every request acts at most once, with what the outside
decided for it; the last state is that of the run; and every request that was answered has acted,
with the same answer. -/
structure Linearizes (env : Env) (ls : List Label) (σ : State) (h : List (Option Atomic.Op)) :
    Prop where
  length : h.length = ls.length
  ticks : ∀ (i : ℕ) d, h[i]? = some (some (Atomic.Op.tick d)) ↔ ls[i]? = some (Label.tick d)
  own : ∀ (i : ℕ) r q c, h[i]? = some (some (Atomic.Op.act r q c)) →
    ∃ l : Label, ls[i]? = some l ∧ l.req? = some r
  once : ∀ (i j : ℕ) r q q' c c', h[i]? = some (some (Atomic.Op.act r q c)) →
    h[j]? = some (some (Atomic.Op.act r q' c')) → i = j
  told : ∀ (i : ℕ) r q c, h[i]? = some (some (Atomic.Op.act r q c)) →
    σ.request? r = some q ∧ Told env ls h r c
  state : (Atomic.object env).state h Atomic.start = (σ.store, σ.published)
  answers : ∀ r response, σ.answer? r = some response → ∃ i q c response',
    (Atomic.object env).Performs h Atomic.start i (.act r q c) (some response') ∧
      response.Same response'

/-! ## What the outside decides -/

section Told

variable {env : Env} {ls : List Label} {h h' : List (Option Atomic.Op)} {r : ℕ} {c : Choice}
  {l : Label} {new : Option (ℕ × Atomic.Op)}

/-- A label that says what the outside decided for request `r`. -/
def Label.Tells (r : ℕ) : Label → Prop
  | .request r' _ _ => r' = r
  | .embed r' _ => r' = r
  | .name r' _ => r' = r
  | _ => False

theorem Label.Tells.req? (h : l.Tells r) : l.req? = some r := by
  cases l with
  | request | embed | name => exact congrArg some h
  | _ => exact h.elim

/-- Nothing was decided for a request that has not arrived. -/
theorem told_of_fresh (hl : ∀ l ∈ ls, l.req? ≠ some r) : Told env ls h r c where
  limited _ _ hmem := absurd rfl (hl _ hmem)
  embedding _ hmem := absurd rfl (hl _ hmem)
  named _ _ hi := absurd rfl (hl _ (List.mem_of_getElem? hi))

/-- One more label, at most one more decision. -/
theorem Told.grow (ht : Told env ls h r c) (hlen : h.length = ls.length)
    (hg : (Atomic.object env).Grows Atomic.start h h' new)
    (hrequest : ∀ q limited, l = .request r q limited → c.limited = limited)
    (hembed : ∀ result, l = .embed r result → c.embedding = result)
    (hname : ∀ sid, l = .name r sid → c.sid = sid ∧ c.createdAt =
      natText (((Atomic.object env).state h Atomic.start).1.now / 1000)) :
    Told env (ls ++ [l]) h' r c where
  limited := by
    intro q limited hmem
    rcases List.mem_append.mp hmem with hmem | hmem
    · exact ht.limited q limited hmem
    · exact hrequest q limited (List.mem_singleton.mp hmem).symm
  embedding := by
    intro result hmem
    rcases List.mem_append.mp hmem with hmem | hmem
    · exact ht.embedding result hmem
    · exact hembed result (List.mem_singleton.mp hmem).symm
  named := by
    intro i sid hi
    rcases Nat.lt_trichotomy i ls.length with hlt | rfl | hgt
    · rw [List.getElem?_append_left hlt] at hi
      rw [hg.stateAt (by omega)]
      exact ht.named i sid hi
    · obtain rfl : l = .name r sid := by simpa using hi
      rw [hg.stateAt (by omega), ← hlen, AtomicObject.stateAt_length]
      exact hname sid rfl
    · rw [List.getElem?_eq_none (by simp; omega)] at hi
      cases hi

/-- A label that tells nothing about `r`. -/
theorem Told.grow_of_not_tells (ht : Told env ls h r c) (hlen : h.length = ls.length)
    (hg : (Atomic.object env).Grows Atomic.start h h' new) (hl : ¬ l.Tells r) :
    Told env (ls ++ [l]) h' r c := by
  refine ht.grow hlen hg ?_ ?_ ?_
  · rintro q limited rfl
    exact absurd rfl hl
  · rintro result rfl
    exact absurd rfl hl
  · rintro sid rfl
    exact absurd rfl hl

end Told

/-! ## The invariant -/

/-- What the outside may have decided for a request that stands here and has not acted. -/
def Handler.Admits : Handler → Choice → Prop
  | .naming _ v, c => c.limited = false ∧ c.embedding = some v
  | .creating _ v sid createdAt, c => c = ⟨false, some v, sid, createdAt⟩
  | .finalizing _ _ _ bob _, c => c.limited = false ∧ c.embedding = some bob
  | .replying _, _ => False
  | .done _, _ => False
  | _, c => c.limited = false

/-- Instant `i` is one of request `r`'s, and at it session `sid` was the hash `session`, waiting for
Bob. -/
structure Waited (env : Env) (ls : List Label) (h : List (Option Atomic.Op)) (r : ℕ) (sid : Str)
    (session : Session) (i : ℕ) : Prop where
  own : ∃ l : Label, ls[i]? = some l ∧ l.req? = some r
  stored : ∃ deadline, ((Atomic.object env).stateAt h Atomic.start i).1.db (key sid) =
    some ⟨session, deadline⟩
  waiting : session .phase = some waitingForBob

/-- What holds of a run and the history found for it so far. -/
structure Lin (env : Env) (ls : List Label) (h : List (Option Atomic.Op)) (σ : State) : Prop where
  length : h.length = ls.length
  ticks : ∀ (i : ℕ) d, h[i]? = some (some (Atomic.Op.tick d)) ↔ ls[i]? = some (Label.tick d)
  own : ∀ (i : ℕ) r q c, h[i]? = some (some (Atomic.Op.act r q c)) →
    ∃ l : Label, ls[i]? = some l ∧ l.req? = some r
  once : ∀ (i j : ℕ) r q q' c c', h[i]? = some (some (Atomic.Op.act r q c)) →
    h[j]? = some (some (Atomic.Op.act r q' c')) → i = j
  state : (Atomic.object env).state h Atomic.start = (σ.store, σ.published)
  /-- What has acted has its answer. -/
  acted : ∀ (i : ℕ) r q c, h[i]? = some (some (Atomic.Op.act r q c)) → Told env ls h r c ∧
    ∃ handler response response', σ.reqs r = some ⟨q, handler⟩ ∧
      handler.response? = some response ∧ response.Same response' ∧
      (Atomic.object env).Performs h Atomic.start i (.act r q c) (some response')
  /-- What has its answer has acted. -/
  answered : ∀ r req, σ.reqs r = some req → req.handler.response? ≠ none →
    ∃ (i : ℕ) (q : Request) (c : Choice), h[i]? = some (some (Atomic.Op.act r q c))
  pending : ∀ r req c, σ.reqs r = some req → req.handler.Admits c → Told env ls h r c
  fresh : ∀ r, σ.reqs r = none → ∀ l ∈ ls, l.req? ≠ some r
  /-- A request that is being scored can still act at its snapshot. -/
  idle : ∀ r q sid form session, σ.reqs r = some ⟨q, .scoring sid form session⟩ →
    ∃ i : ℕ, h[i]? = some none ∧ Waited env ls h r sid session i

theorem Lin.linearizes {env : Env} {ls : List Label} {h : List (Option Atomic.Op)} {σ : State}
    (hlin : Lin env ls h σ) : Linearizes env ls σ h where
  length := hlin.length
  ticks := hlin.ticks
  own := hlin.own
  once := hlin.once
  told := by
    intro i r q c hi
    rcases hlin.acted i r q c hi with ⟨htold, handler, response, response', hreq, _⟩
    exact ⟨by simp [State.request?, hreq], htold⟩
  state := hlin.state
  answers := by
    intro r response hans
    rcases (State.answer?_eq_some _).mp hans with ⟨q, hdone⟩
    -- what was answered has acted, and what acted has this answer
    rcases hlin.answered r _ hdone (by simp [Handler.response?]) with ⟨i, q', c, hi⟩
    rcases hlin.acted i r q' c hi with ⟨_, handler, response₁, response', hreq, hresp, hsame, hperf⟩
    rcases Req.mk.inj (Option.some.inj (hdone.symm.trans hreq)) with ⟨rfl, rfl⟩
    obtain rfl := Option.some.inj hresp
    exact ⟨i, _, c, response', hperf, hsame⟩

theorem Lin.init (env : Env) : Lin env [] [] State.init where
  length := rfl
  ticks := by simp
  own := by simp
  once := by simp
  state := rfl
  acted := by simp
  answered := by simp [State.init]
  pending := by simp [State.init]
  fresh := by simp
  idle := by simp [State.init]

/-! ## One more step -/

section Grow

variable {env : Env} {ls : List Label} {h h' : List (Option Atomic.Op)} {σ σ' : State} {l : Label}
  {new : Option (ℕ × Atomic.Op)}

/-- A request that has its answer is told nothing any more. -/
theorem not_tells_of_response (hs : step env l σ = some σ') {r : ℕ} {req : Req}
    (hreq : σ.reqs r = some req) (hresp : req.handler.response? ≠ none) : ¬ l.Tells r := by
  intro htells
  cases l with
  | request r' q limited =>
    obtain rfl : r' = r := htells
    rcases step_request hs with ⟨hnone, _⟩
    rw [hreq] at hnone
    cases hnone
  | embed r' result =>
    obtain rfl : r' = r := htells
    rcases step_embed hs with ⟨req', handler, hreq', hembed, _⟩
    obtain rfl := Option.some.inj (hreq.symm.trans hreq')
    cases hh : req.handler with
    | embedding | scoring => exact hresp (by rw [hh]; rfl)
    | _ =>
      rw [hh] at hembed
      cases hembed
  | name r' sid =>
    obtain rfl : r' = r := htells
    rcases step_name hs with ⟨req', handler, hreq', hname, _⟩
    obtain rfl := Option.some.inj (hreq.symm.trans hreq')
    rcases name_cases hname with ⟨form, v, hh, _⟩
    exact hresp (by rw [hh]; rfl)
  | _ => exact htells

/-- A new operation is the request's of this step, which has its answer from it. -/
structure Acts (env : Env) (ls : List Label) (h h' : List (Option Atomic.Op)) (σ σ' : State)
    (l : Label) (i r : ℕ) (q : Request) (c : Choice) : Prop where
  step : l.req? = some r
  own : ∃ l' : Label, (ls ++ [l])[i]? = some l' ∧ l'.req? = some r
  before : ∀ req, σ.reqs r = some req → req.handler.response? = none
  told : Told env (ls ++ [l]) h' r c
  answer : ∃ handler response, σ'.reqs r = some ⟨q, handler⟩ ∧
    handler.response? = some response ∧ response.Same
      (Atomic.request env q c ((Atomic.object env).stateAt h Atomic.start i).1).2

/-- How the request of this step goes on. -/
structure GoesOn (env : Env) (ls : List Label) (h' : List (Option Atomic.Op)) (σ σ' : State)
    (l : Label) (new : Option (ℕ × Atomic.Op)) (r : ℕ) : Prop where
  there : σ'.reqs r ≠ none
  acted : ∀ req, σ'.reqs r = some req → req.handler.response? ≠ none →
    (∃ i q c, new = some (i, .act r q c)) ∨
      ∃ req', σ.reqs r = some req' ∧ req'.handler.response? ≠ none
  pending : ∀ req c, σ'.reqs r = some req → req.handler.Admits c → Told env (ls ++ [l]) h' r c
  idle : ∀ q sid form session, σ'.reqs r = some ⟨q, .scoring sid form session⟩ →
    ∃ i : ℕ, h'[i]? = some none ∧ Waited env (ls ++ [l]) h' r sid session i

/-- The history grows along a step. -/
theorem Lin.grow (hlin : Lin env ls h σ) (hs : step env l σ = some σ')
    (hg : (Atomic.object env).Grows Atomic.start h h' new)
    (hstate : (Atomic.object env).state h' Atomic.start = (σ'.store, σ'.published))
    (htick : ∀ i d, new = some (i, .tick d) ↔ l = .tick d ∧ i = ls.length)
    (hacts : ∀ i r q c, new = some (i, .act r q c) → Acts env ls h h' σ σ' l i r q c)
    (hgoes : ∀ r, l.req? = some r → GoesOn env ls h' σ σ' l new r) :
    Lin env (ls ++ [l]) h' σ' where
  length := by rw [hg.length, hlin.length, List.length_append, List.length_singleton]
  ticks := by
    intro i d
    rw [hg.performed_iff, hlin.ticks, htick]
    rcases Nat.lt_trichotomy i ls.length with hlt | rfl | hgt
    · rw [List.getElem?_append_left hlt]
      simp [hlt.ne]
    · simp
    · rw [List.getElem?_eq_none hgt.le, List.getElem?_eq_none (by simp; omega)]
      simp [hgt.ne']
  own := by
    intro i r q c hi
    rcases hg.performed_iff.mp hi with hold | hnew
    · rcases hlin.own i r q c hold with ⟨l', hl', hr⟩
      exact ⟨l', by rw [List.getElem?_append_left (List.getElem?_eq_some_iff.mp hl').1, hl'], hr⟩
    · exact (hacts i r q c hnew).own
  once := by
    intro i j r q q' c c' hi hj
    -- what acted before has its answer, and what acts now had none
    have hclash : ∀ {i j : ℕ} {q q' c c'}, h[i]? = some (some (Atomic.Op.act r q c)) →
        new = some (j, .act r q' c') → False := by
      intro i j q q' c c' hold hnew
      rcases hlin.acted i r q c hold with ⟨_, handler, response, _, hreq, hresp, _⟩
      have hnone := (hacts j r q' c' hnew).before _ hreq
      rw [hresp] at hnone
      cases hnone
    rcases hg.performed_iff.mp hi with hold | hnew <;> rcases hg.performed_iff.mp hj with hold' | hnew'
    · exact hlin.once i j r q q' c c' hold hold'
    · exact (hclash hold hnew').elim
    · exact (hclash hold' hnew).elim
    · exact (Prod.mk.inj (Option.some.inj (hnew.symm.trans hnew'))).1
  state := hstate
  acted := by
    intro i r q c hi
    rcases hg.performed_iff.mp hi with hold | hnew
    · obtain ⟨htold, handler, response, response', hreq, hresp, hsame, hperf⟩ :=
        hlin.acted i r q c hold
      rcases response_of_step hs hreq hresp with ⟨handler', hreq', hresp'⟩
      have hnot := not_tells_of_response hs hreq (by simp [hresp])
      exact ⟨htold.grow_of_not_tells hlin.length hg hnot, handler', response, response', hreq',
        hresp', hsame, hg.performs hperf⟩
    · have hact := hacts i r q c hnew
      rcases hact.answer with ⟨handler, response, hreq, hresp, hsame⟩
      exact ⟨hact.told, handler, response, _, hreq, hresp, hsame, hg.performs_new hnew⟩
  answered := by
    intro r req hreq hresp
    -- an operation of the history stays in it when it grows
    have hkeep : ∀ {req'}, σ.reqs r = some req' → req'.handler.response? ≠ none →
        ∃ (i : ℕ) (q : Request) (c : Choice), h'[i]? = some (some (Atomic.Op.act r q c)) := by
      intro req' hreq' hresp'
      rcases hlin.answered r req' hreq' hresp' with ⟨i, q, c, hi⟩
      exact ⟨i, q, c, hg.performed_iff.mpr (Or.inl hi)⟩
    by_cases hr : l.req? = some r
    · rcases (hgoes r hr).acted req hreq hresp with ⟨i, q, c, hnew⟩ | ⟨req', hreq', hresp'⟩
      · exact ⟨i, q, c, hg.performed_iff.mpr (Or.inr hnew)⟩
      · exact hkeep hreq' hresp'
    · rw [reqs_of_step_ne hs hr] at hreq
      exact hkeep hreq hresp
  pending := by
    intro r req c hreq hadm
    by_cases hr : l.req? = some r
    · exact (hgoes r hr).pending req c hreq hadm
    · rw [reqs_of_step_ne hs hr] at hreq
      exact (hlin.pending r req c hreq hadm).grow_of_not_tells hlin.length hg
        fun htells => hr htells.req?
  fresh := by
    intro r hnone l' hl'
    by_cases hr : l.req? = some r
    · exact absurd hnone (hgoes r hr).there
    · rw [reqs_of_step_ne hs hr] at hnone
      rcases List.mem_append.mp hl' with hl' | hl'
      · exact hlin.fresh r hnone l' hl'
      · rwa [List.mem_singleton.mp hl']
  idle := by
    intro r q sid form session hreq
    by_cases hr : l.req? = some r
    · exact (hgoes r hr).idle q sid form session hreq
    · rw [reqs_of_step_ne hs hr] at hreq
      rcases hlin.idle r q sid form session hreq with ⟨i, hi, ⟨l', hl', hr'⟩, hstored, hwaiting⟩
      have hilt := (List.getElem?_eq_some_iff.mp hl').1
      have hl'' : (ls ++ [l])[i]? = some l' := by rw [List.getElem?_append_left hilt, hl']
      refine ⟨i, hg.idle_of_idle hi ?_, ⟨l', hl'', hr'⟩, ?_, hwaiting⟩
      · -- the instant belongs to `r`, and another request acts now
        rintro (⟨r', q', c'⟩ | d) hnew
        · have hact := hacts i r' q' c' hnew
          rcases hact.own with ⟨l₁, hl₁, hr₁⟩
          obtain rfl := Option.some.inj (hl''.symm.trans hl₁)
          obtain rfl := Option.some.inj (hr'.symm.trans hr₁)
          exact hr hact.step
        · have hlen := ((htick i d).mp hnew).2
          omega
      · rw [hg.stateAt (by have := hlin.length; omega)]
        exact hstored

theorem Handler.not_admits {handler : Handler} {response : Response}
    (h : handler.response? = some response) (c : Choice) : ¬ handler.Admits c := by
  cases handler <;> first | exact id | cases h

/-- A request that gets its answer in this step, and has acted. -/
theorem goesOn_of_response {i r : ℕ} {q : Request} {c : Choice} {handler : Handler}
    {response : Response} (hreq : σ'.reqs r = some ⟨q, handler⟩)
    (hresp : handler.response? = some response) :
    GoesOn env ls h' σ σ' l (some (i, .act r q c)) r where
  there := by simp [hreq]
  acted := fun _ _ _ => Or.inl ⟨i, q, c, rfl⟩
  pending := by
    intro req c' hreq' hadm
    obtain rfl := Option.some.inj (hreq.symm.trans hreq')
    exact absurd hadm (Handler.not_admits hresp c')
  idle := by
    intro q' sid form session hreq'
    rcases Req.mk.inj (Option.some.inj (hreq.symm.trans hreq')) with ⟨_, rfl⟩
    cases hresp

/-- Nothing acts in this step. -/
theorem Lin.stay (hlin : Lin env ls h σ) (hs : step env l σ = some σ') (htick : ∀ d, l ≠ .tick d)
    (hstore : σ'.store = σ.store) (hpublished : σ'.published = σ.published)
    (hgoes : ∀ r, l.req? = some r → GoesOn env ls (h ++ [none]) σ σ' l none r) :
    Lin env (ls ++ [l]) (h ++ [none]) σ' := by
  refine hlin.grow hs .idle ?_ ?_ ?_ hgoes
  · rw [AtomicObject.state_concat_none, hlin.state, hstore, hpublished]
  · intro i d
    simp [htick d]
  · intro i r q c hnew
    cases hnew

/-- The request acts in this step. -/
theorem Lin.act (hlin : Lin env ls h σ) (hs : step env l σ = some σ') {r : ℕ}
    (hr : l.req? = some r) {q : Request} {c : Choice} {handler : Handler} {response : Response}
    {db : Store} {published : List Message}
    (hbefore : ∀ req, σ.reqs r = some req → req.handler.response? = none)
    (hreq : σ'.reqs r = some ⟨q, handler⟩) (hresp : handler.response? = some response)
    (htold : Told env (ls ++ [l]) (h ++ [some (.act r q c)]) r c)
    (hdoes : (Atomic.request env q c σ.store).1 = (db, published)) (hstore : σ'.store = db)
    (hpublished : σ'.published = σ.published ++ published)
    (hsame : response.Same (Atomic.request env q c σ.store).2) :
    Lin env (ls ++ [l]) (h ++ [some (.act r q c)]) σ' := by
  have htick : ∀ d, l ≠ .tick d := by
    rintro d rfl
    cases hr
  refine hlin.grow hs (.now _) ?_ ?_ ?_ ?_
  · rw [AtomicObject.state_concat_some, hlin.state, hstore, hpublished]
    simp [hdoes]
  · intro i d
    simp [htick d]
  · intro i r' q' c' hnew
    rcases Prod.mk.inj (Option.some.inj hnew) with ⟨rfl, hop⟩
    rcases Atomic.Op.act.inj hop with ⟨rfl, rfl, rfl⟩
    refine ⟨hr, ⟨l, by simp [hlin.length], hr⟩, hbefore, htold, handler, response, hreq, hresp, ?_⟩
    rw [AtomicObject.stateAt_length, hlin.state]
    exact hsame
  · intro r' hr'
    obtain rfl := Option.some.inj (hr.symm.trans hr')
    exact goesOn_of_response hreq hresp

/-- The request is found to have acted at an instant that was kept idle for it. -/
theorem Lin.actAt (hlin : Lin env ls h σ) (hs : step env l σ = some σ') {r j : ℕ}
    (hr : l.req? = some r) {q : Request} {c : Choice} {handler : Handler} {response : Response}
    (hj : h[j]? = some none) (hown : ∃ l' : Label, ls[j]? = some l' ∧ l'.req? = some r)
    (hbefore : ∀ req, σ.reqs r = some req → req.handler.response? = none)
    (hreq : σ'.reqs r = some ⟨q, handler⟩) (hresp : handler.response? = some response)
    (htold : ∀ h', (Atomic.object env).Grows Atomic.start h h' (some (j, .act r q c)) →
      Told env (ls ++ [l]) h' r c)
    (hdoes : ∀ db, db = ((Atomic.object env).stateAt h Atomic.start j).1 →
      (Atomic.request env q c db).1 = (db, []) ∧ response.Same (Atomic.request env q c db).2)
    (hstore : σ'.store = σ.store) (hpublished : σ'.published = σ.published) :
    Lin env (ls ++ [l]) (h.set j (some (.act r q c)) ++ [none]) σ' := by
  have htick : ∀ d, l ≠ .tick d := by
    rintro d rfl
    cases hr
  rcases hdoes _ rfl with ⟨hquiet, hsame⟩
  have hq : (Atomic.object env).Quiet (.act r q c)
      ((Atomic.object env).stateAt h Atomic.start j) := by
    simp [AtomicObject.Quiet, hquiet]
  -- the operation changes nothing at its instant, so every later instant is as it was
  have hg := AtomicObject.Grows.past j (.act r q c) hj hq
  refine hlin.grow hs hg ?_ ?_ ?_ ?_
  · rw [AtomicObject.state_concat_none, AtomicObject.state_set hj hq, hlin.state, hstore, hpublished]
  · intro i d
    simp [htick d]
  · intro i r' q' c' hnew
    rcases Prod.mk.inj (Option.some.inj hnew) with ⟨rfl, hop⟩
    rcases Atomic.Op.act.inj hop with ⟨rfl, rfl, rfl⟩
    rcases hown with ⟨l', hl', hr'⟩
    refine ⟨hr, ⟨l', ?_, hr'⟩, hbefore, htold _ hg, handler, response, hreq, hresp, hsame⟩
    rw [List.getElem?_append_left (List.getElem?_eq_some_iff.mp hl').1, hl']
  · intro r' hr'
    obtain rfl := Option.some.inj (hr.symm.trans hr')
    exact goesOn_of_response hreq hresp

/-- A request that goes on and has not acted. -/
theorem goesOn_of_pending {r : ℕ} {q : Request} {handler : Handler}
    (hreq : σ'.reqs r = some ⟨q, handler⟩) (hresp : handler.response? = none)
    (htold : ∀ c, handler.Admits c → Told env (ls ++ [l]) h' r c)
    (hidle : ∀ sid form session, handler = .scoring sid form session →
      ∃ i : ℕ, h'[i]? = some none ∧ Waited env (ls ++ [l]) h' r sid session i) :
    GoesOn env ls h' σ σ' l new r where
  there := by simp [hreq]
  acted := by
    intro req hreq' hne
    obtain rfl := Option.some.inj (hreq.symm.trans hreq')
    exact absurd hresp hne
  pending := by
    intro req c hreq' hadm
    obtain rfl := Option.some.inj (hreq.symm.trans hreq')
    exact htold c hadm
  idle := by
    intro q' sid form session hreq'
    rcases Req.mk.inj (Option.some.inj (hreq.symm.trans hreq')) with ⟨_, rfl⟩
    exact hidle sid form session rfl

end Grow

/-! ## Label by label -/

section Steps

variable {env : Env} {ls : List Label} {h : List (Option Atomic.Op)} {σ σ' : State}

/-- Where a request stands after its arrival. -/
theorem start_cases (q : Request) : (∃ result, Handler.start q = .replying result) ∨
    ((Handler.start q).response? = none ∧
      (∀ c, (Handler.start q).Admits c → c.limited = false) ∧
      ∀ sid form session, Handler.start q ≠ .scoring sid form session) := by
  cases q with
  | create body =>
    rcases start_create body with ⟨result, hstart, _⟩ | ⟨form, _, hstart⟩
    · exact Or.inl ⟨result, hstart⟩
    · rw [hstart]
      exact Or.inr ⟨rfl, fun _ => id, by simp⟩
  | verify sid body =>
    rcases start_verify sid body with ⟨result, hstart, _⟩ | ⟨form, _, hstart⟩
    · exact Or.inl ⟨result, hstart⟩
    · rw [hstart]
      exact Or.inr ⟨rfl, fun _ => id, by simp⟩
  | get sid => exact Or.inr ⟨rfl, fun _ => id, by simp [Handler.start]⟩
  | delete sid => exact Or.inr ⟨rfl, fun _ => id, by simp [Handler.start]⟩

theorem Lin.request (hlin : Lin env ls h σ) {r : ℕ} {q : Request} {limited : Bool}
    (hs : step env (.request r q limited) σ = some σ') :
    ∃ h', Lin env (ls ++ [.request r q limited]) h' σ' := by
  rcases step_request hs with ⟨hnone, hσ'⟩
  have hreq' : σ'.reqs r = some ⟨q, if limited then .replying (.ok rateLimited) else .start q⟩ := by
    rw [hσ', State.setReq_reqs_self]
  have hstore : σ'.store = σ.store := by rw [hσ', State.setReq_store]
  have hpub : σ'.published = σ.published ++ [] := by
    rw [hσ', State.setReq_published, List.append_nil]
  have hbefore : ∀ req, σ.reqs r = some req → req.handler.response? = none := by
    intro req hreq
    rw [hnone] at hreq
    cases hreq
  -- the arrival is the first thing decided for this request
  have htold : ∀ {h' new} (c : Choice), (Atomic.object env).Grows Atomic.start h h' new →
      c.limited = limited → Told env (ls ++ [.request r q limited]) h' r c := by
    intro h' new c hg hc
    refine (told_of_fresh (hlin.fresh r hnone)).grow hlin.length hg ?_ (by simp) (by simp)
    intro q' limited' heq
    rcases Label.request.inj heq with ⟨_, _, rfl⟩
    exact hc
  cases limited with
  | true =>
    have hdoes : Atomic.request env q ⟨true, none, [], []⟩ σ.store =
        ((σ.store, []), rateLimited) := by
      simp [Atomic.request]
    exact ⟨_, hlin.act hs rfl hbefore hreq' rfl (htold _ (.now _) rfl) (by rw [hdoes]) hstore hpub
      (by rw [hdoes]; exact .refl _)⟩
  | false =>
    rcases start_cases q with ⟨result, hstart⟩ | ⟨hresp, hadmits, hscoring⟩
    · have hdoes : Atomic.request env q ⟨false, none, [], []⟩ σ.store =
          ((σ.store, []), answerOf result) := request_of_start hstart rfl
      have hresp : (Handler.start q).response? = some (answerOf result) := by
        rw [hstart]
        rfl
      exact ⟨_, hlin.act hs rfl hbefore hreq' hresp (htold _ (.now _) rfl) (by rw [hdoes]) hstore
        hpub (by rw [hdoes]; exact .refl _)⟩
    · refine ⟨_, hlin.stay hs (by simp) hstore (by rw [hpub, List.append_nil]) ?_⟩
      intro r' hr'
      obtain rfl := Option.some.inj hr'
      exact goesOn_of_pending hreq' hresp (fun c hadm => htold c .idle (hadmits c hadm))
        fun sid form session heq => absurd heq (hscoring sid form session)

/-- The embedding service returns: a failure makes a verify request act at its snapshot. -/
theorem Lin.embed (hlin : Lin env ls h σ) (hi : Inv env σ)
    (hwf : ∀ r q, σ.request? r = some q → q.WellFormed) {r : ℕ} {result : Option Json}
    (hs : step env (.embed r result) σ = some σ') :
    ∃ h', Lin env (ls ++ [.embed r result]) h' σ' := by
  rcases step_embed hs with ⟨⟨q, old⟩, handler, hreq, hembed, hσ'⟩
  have hok := hi.handlers r _ hreq
  have hreq' : σ'.reqs r = some ⟨q, handler⟩ := by rw [hσ', State.setReq_reqs_self]
  have hstore : σ'.store = σ.store := by rw [hσ', State.setReq_store]
  have hpub : σ'.published = σ.published := by rw [hσ', State.setReq_published]
  have hpub' : σ'.published = σ.published ++ [] := by rw [hpub, List.append_nil]
  have htold : ∀ {h' new} (c : Choice), (Atomic.object env).Grows Atomic.start h h' new →
      old.Admits c → c.embedding = result → Told env (ls ++ [.embed r result]) h' r c := by
    intro h' new c hg hadm hc
    refine (hlin.pending r _ c hreq hadm).grow hlin.length hg (by simp) ?_ (by simp)
    intro result' heq
    rcases Label.embed.inj heq with ⟨_, rfl⟩
    exact hc
  have hbefore : old.response? = none → ∀ req, σ.reqs r = some req →
      req.handler.response? = none := by
    rintro hold req hreq₁
    obtain rfl := Option.some.inj (hreq.symm.trans hreq₁)
    exact hold
  -- a failure found now is put at the snapshot, where it changes nothing
  have hfail : ∀ {sid form session response}, old = .scoring sid form session →
      handler.response? = some response →
      (∀ db deadline, db.db (key sid) = some ⟨session, deadline⟩ →
        session .phase = some waitingForBob →
        Atomic.verify env db sid form result = ((db, []), response)) →
      ∃ h', Lin env (ls ++ [.embed r result]) h' σ' := by
    intro sid form session response hold hresp hverify
    subst hold
    rcases hok with ⟨⟨body, rfl, hform⟩, _⟩
    rcases hlin.idle r _ sid form session hreq with ⟨j, hj, hown, ⟨deadline, hstored⟩, hwaiting⟩
    have hc : (⟨false, result, [], []⟩ : Choice).limited = false := rfl
    refine ⟨_, hlin.actAt hs rfl hj hown (hbefore rfl) hreq' hresp
      (fun h' hg => htold ⟨false, result, [], []⟩ hg rfl rfl) ?_ hstore hpub⟩
    rintro db rfl
    rw [request_verify hform hc, hverify _ deadline hstored hwaiting]
    exact ⟨rfl, .refl _⟩
  cases embedded_of_embed hembed with
  | createFailed form =>
    rcases hok with ⟨body, rfl, hform⟩
    have hc : (⟨false, none, [], []⟩ : Choice).limited = false := rfl
    have hdoes : Atomic.request env (.create body) ⟨false, none, [], []⟩ σ.store =
        ((σ.store, []), embeddingUnavailable) := request_create hform hc
    exact ⟨_, hlin.act hs rfl (hbefore rfl) hreq' rfl
      (htold ⟨false, none, [], []⟩ (.now _) rfl rfl) (by rw [hdoes]) hstore hpub'
      (by rw [hdoes]; exact .refl _)⟩
  | created form v =>
    refine ⟨_, hlin.stay hs (by simp) hstore hpub ?_⟩
    intro r' hr'
    obtain rfl := Option.some.inj hr'
    exact goesOn_of_pending hreq' rfl (fun c hadm => htold c .idle hadm.1 hadm.2) (by simp)
  | verifyFailed sid form session =>
    exact hfail rfl rfl fun db deadline hdb hp => verify_of_not_embedded hdb hp
  | notScored sid form session v e he =>
    exact hfail rfl rfl fun db deadline hdb hp => verify_of_not_scored hdb hp he
  | notEncoded sid form session v score he hw =>
    rcases hok with ⟨⟨body, rfl, hform⟩, _⟩
    have hmine : (Request.verify sid body).WellFormed := hwf r _ (by simp [State.request?, hreq])
    rw [hmine form hform.2] at hw
    cases hw
  | scored sid form session v score he =>
    refine ⟨_, hlin.stay hs (by simp) hstore hpub ?_⟩
    intro r' hr'
    obtain rfl := Option.some.inj hr'
    exact goesOn_of_pending hreq' rfl (fun c hadm => htold c .idle hadm.1 hadm.2) (by simp)

theorem Lin.name (hlin : Lin env ls h σ) (hi : Inv env σ)
    (hwf : ∀ r q, σ.request? r = some q → q.WellFormed) {r : ℕ} {sid : Str}
    (hs : step env (.name r sid) σ = some σ') :
    ∃ h', Lin env (ls ++ [.name r sid]) h' σ' := by
  rcases step_name hs with ⟨⟨q, old⟩, handler, hreq, hname, _, hσ'⟩
  rcases name_cases hname with ⟨form, v, rfl, hnext⟩
  rcases hi.handlers r _ hreq with ⟨body, rfl, hform⟩
  have hreq' : σ'.reqs r = some ⟨.create body, handler⟩ := by
    rw [hσ']
    exact State.setReq_reqs_self _ _ _
  have hstore : σ'.store = σ.store := by rw [hσ', State.setReq_store]
  have hpub : σ'.published = σ.published := by rw [hσ', State.setReq_published]
  rcases hnext with rfl | ⟨hbad, _⟩
  · refine ⟨_, hlin.stay hs (by simp) hstore hpub ?_⟩
    intro r' hr'
    obtain rfl := Option.some.inj hr'
    refine goesOn_of_pending hreq' rfl ?_ (by simp)
    rintro c rfl
    refine (hlin.pending r _ _ hreq ⟨rfl, rfl⟩).grow hlin.length .idle (by simp) (by simp) ?_
    intro sid' heq
    rcases Label.name.inj heq with ⟨_, rfl⟩
    rw [hlin.state]
    exact ⟨rfl, rfl⟩
  · have hmine : (Request.create body).WellFormed := hwf r _ (by simp [State.request?, hreq])
    exact absurd (hmine form hform.2) hbad

/-- A Redis command whose reply arrives: the request acts now, unless it is a snapshot of a session
that waits for Bob. -/
theorem Lin.redis (hlin : Lin env ls h σ) (hi : Inv env σ) {r : ℕ}
    (hs : step env (.redis r .none) σ = some σ') :
    ∃ h', Lin env (ls ++ [.redis r .none]) h' σ' := by
  rcases step_redis hs with ⟨⟨q, old⟩, effect, handler, hreq, hredis, hcases⟩
  have hok := hi.handlers r _ hreq
  have hσ' : σ' = (σ.apply effect).setReq r ⟨q, handler⟩ := by
    rcases hcases with ⟨_, hσ'⟩ | ⟨hfault, _⟩ | ⟨hfault, _⟩
    · exact hσ'
    · cases hfault
    · cases hfault
  have hreq' : σ'.reqs r = some ⟨q, handler⟩ := by rw [hσ', State.setReq_reqs_self]
  have hstore : σ'.store = effect.store := by rw [hσ', State.setReq_store, State.apply_store]
  have hpub : σ'.published = σ.published ++ effect.published := by
    rw [hσ', State.setReq_published, State.apply_published]
  have hcmd := command_of_redis hredis
  have hbefore : ∀ req, σ.reqs r = some req → req.handler.response? = none := by
    intro req hreq₁
    obtain rfl := Option.some.inj (hreq.symm.trans hreq₁)
    exact hcmd.response?_eq_none
  -- whatever the request does in this step, it does as an atomic request
  have hact : ∀ {response response'} (c : Choice), old.Admits c →
      handler.response? = some response →
      Atomic.request env q c σ.store = ((effect.store, effect.published), response') →
      response.Same response' → ∃ h', Lin env (ls ++ [.redis r .none]) h' σ' := by
    intro response response' c hadm hresp hdoes hsame
    refine ⟨_, hlin.act hs rfl hbefore hreq' hresp ?_ (by rw [hdoes]) hstore hpub
      (by rw [hdoes]; exact hsame)⟩
    exact (hlin.pending r _ c hreq hadm).grow hlin.length (.now _) (by simp) (by simp) (by simp)
  cases hcmd with
  | create form v sid createdAt =>
    rcases hok with ⟨⟨body, rfl, hform⟩, _⟩
    exact hact ⟨false, some v, sid, createdAt⟩ rfl rfl (request_create hform rfl) (.refl _)
  | get sid =>
    obtain rfl := hok
    exact hact ⟨false, none, [], []⟩ rfl rfl rfl (.refl _)
  | delete sid =>
    obtain rfl := hok
    exact hact ⟨false, none, [], []⟩ rfl rfl rfl (.refl _)
  | load sid form =>
    rcases hok with ⟨body, rfl, hform⟩
    have hverify : Atomic.request env (.verify sid body) ⟨false, none, [], []⟩ σ.store =
        Atomic.verify env σ.store sid form none := request_verify hform rfl
    rcases verifyLoaded_cases sid form (SessionStore.get σ.store sid) with
      ⟨hsnap, hv⟩ | ⟨session, hsnap, hphase, hv⟩ | ⟨session, phase, hsnap, hphase, hne, hv⟩ |
      ⟨session, hsnap, hphase, hv⟩
    · have hdb : σ.store.db (key sid) = none := by
        simpa [SessionStore.get, Server.hgetall] using hsnap
      exact hact ⟨false, none, [], []⟩ rfl (by rw [hv]; rfl) (hverify.trans (verify_of_none hdb))
        (.refl _)
    · -- a stored session has its phase
      rcases Option.map_eq_some_iff.mp hsnap with ⟨e, hdb, rfl⟩
      rcases hi.entry_of_stored hdb with ⟨c, _, _, rfl⟩
      have hfull := c.fields_full env (σ.winner sid) .phase
      rw [show c.fields env (σ.winner sid) .phase = none from hphase] at hfull
      cases hfull
    · rcases Option.map_eq_some_iff.mp hsnap with ⟨e, hdb, rfl⟩
      have hp : e.fields .phase ≠ some waitingForBob := by simpa [hphase] using hne
      exact hact ⟨false, none, [], []⟩ rfl (by rw [hv]; rfl)
        (hverify.trans (verify_of_completed hdb hp)) (.refl _)
    · -- Bob is to be scored; whether the request has acted here is open
      rcases Option.map_eq_some_iff.mp hsnap with ⟨⟨fields, deadline⟩, hdb, rfl⟩
      have hlen := hlin.length
      refine ⟨_, hlin.stay hs (by simp) hstore (by rw [hpub, List.append_nil]) ?_⟩
      intro r' hr'
      obtain rfl := Option.some.inj hr'
      refine goesOn_of_pending hreq' (by rw [hv]; rfl) ?_ ?_
      · intro c hadm
        rw [hv] at hadm
        exact (hlin.pending _ _ c hreq hadm).grow hlen .idle (by simp) (by simp) (by simp)
      · intro sid' form' session' heq
        rw [hv] at heq
        rcases Handler.scoring.inj heq with ⟨rfl, rfl, rfl⟩
        refine ⟨ls.length, by simp [← hlen], ⟨.redis _ .none, by simp, rfl⟩, ⟨deadline, ?_⟩, hphase⟩
        rw [AtomicObject.stateAt_append hlen.ge, ← hlen, AtomicObject.stateAt_length, hlin.state]
        exact hdb
  | gone sid form session bob score hdb =>
    rcases hok with ⟨⟨body, rfl, hform⟩, _⟩
    -- both say 404, in other words
    have hsame : expiredWhileScoring.Same notFound := errorResponse_same (by decide) _ _
    exact hact ⟨false, some bob, [], []⟩ ⟨rfl, rfl⟩ rfl
      ((request_verify hform rfl).trans (verify_of_none hdb)) hsame
  | completed sid form session bob score e hdb hp =>
    rcases hok with ⟨⟨body, rfl, hform⟩, _⟩
    exact hact ⟨false, some bob, [], []⟩ ⟨rfl, rfl⟩ rfl
      ((request_verify hform rfl).trans (verify_of_completed hdb hp)) (.refl _)
  | won sid form session bob score e hdb hp =>
    rcases hok with ⟨⟨body, rfl, hform⟩, ⟨c, hc, hs, rfl⟩, hscore⟩
    -- the snapshot is still what is stored
    have hwinner := (hi.waiting_iff hdb).mp hp
    rcases hi.entry_of_stored hdb with ⟨c', hc', hs', he⟩
    obtain rfl := hi.creation_unique hc hc' (hs.trans hs'.symm)
    rw [hwinner] at he
    obtain rfl : e = ⟨c.session, c.deadline? env⟩ := he
    refine hact ⟨false, some bob, [], []⟩ ⟨rfl, rfl⟩ ?_
      ((request_verify hform rfl).trans (verify_of_scored hdb hp hscore)) (.refl _)
    rw [c.outcome_eq]
    rfl

theorem Lin.answer (hlin : Lin env ls h σ) {r : ℕ} (hs : step env (.answer r) σ = some σ') :
    ∃ h', Lin env (ls ++ [.answer r]) h' σ' := by
  rcases step_answer hs with ⟨⟨q, old⟩, result, hreq, hold, hσ'⟩
  obtain rfl : old = .replying result := hold
  have hreq' : σ'.reqs r = some ⟨q, .done (answerOf result)⟩ := by
    rw [hσ', State.setReq_reqs_self]
  refine ⟨_, hlin.stay hs (by simp) (by rw [hσ', State.setReq_store])
    (by rw [hσ', State.setReq_published]) ?_⟩
  intro r' hr'
  obtain rfl := Option.some.inj hr'
  refine ⟨by simp [hreq'], fun _ _ _ => Or.inr ⟨_, hreq, by simp [Handler.response?]⟩, ?_, ?_⟩
  · intro req c hreq₁ hadm
    obtain rfl := Option.some.inj (hreq'.symm.trans hreq₁)
    exact hadm.elim
  · intro q' sid form session hreq₁
    rcases Req.mk.inj (Option.some.inj (hreq'.symm.trans hreq₁)) with ⟨_, hh⟩
    cases hh

theorem Lin.tick (hlin : Lin env ls h σ) {d : ℕ} (hs : step env (.tick d) σ = some σ') :
    ∃ h', Lin env (ls ++ [.tick d]) h' σ' := by
  obtain rfl := step_tick hs
  refine ⟨_, hlin.grow hs (.now (.tick d)) ?_ ?_ ?_ ?_⟩
  · rw [AtomicObject.state_concat_some, hlin.state]
    rfl
  · intro i d'
    rw [hlin.length]
    constructor
    · rintro ⟨⟩
      exact ⟨rfl, rfl⟩
    · rintro ⟨heq, rfl⟩
      obtain rfl := Label.tick.inj heq
      rfl
  · intro i r q c hnew
    cases hnew
  · intro r hr
    cases hr

/-- Every step has its instant. -/
theorem Lin.of_step (hlin : Lin env ls h σ) (hi : Inv env σ)
    (hwf : ∀ r q, σ.request? r = some q → q.WellFormed) {l : Label} (hok : replied l σ)
    (hs : step env l σ = some σ') : ∃ h', Lin env (ls ++ [l]) h' σ' := by
  cases l with
  | request r q limited => exact hlin.request hs
  | embed r result => exact hlin.embed hi hwf hs
  | name r sid => exact hlin.name hi hwf hs
  | redis r fault =>
    obtain rfl := hok.1 r fault rfl
    exact hlin.redis hi hs
  | answer r => exact hlin.answer hs
  | tick d => exact hlin.tick hs
  | _ =>
    have hcore := sameCore_of_step rfl hs
    refine ⟨_, hlin.stay hs (by simp) hcore.store hcore.published ?_⟩
    intro r hr
    cases hr

/-- Every request is well-formed. -/
theorem wellFormed_of_step {l : Label} (hok : replied l σ) (hs : step env l σ = some σ')
    (hwf : ∀ r q, σ.request? r = some q → q.WellFormed) :
    ∀ r q, σ'.request? r = some q → q.WellFormed := by
  intro r q hq
  have hrun : (server env).Run Lts.anyStep σ [l] σ' := Lts.Run.single trivial hs
  rcases requested_of_run hrun hq with hold | ⟨limited, hmem⟩
  · exact hwf r q hold
  · exact hok.2 r q limited (List.mem_singleton.mp hmem).symm

/-- Every run has its history. -/
theorem Lin.of_run {ls' : List Label} (hlin : Lin env ls h σ) (hi : Inv env σ)
    (hwf : ∀ r q, σ.request? r = some q → q.WellFormed)
    (hrun : (server env).Run replied σ ls' σ') : ∃ h', Lin env (ls ++ ls') h' σ' := by
  induction hrun generalizing ls h with
  | nil σ => exact ⟨h, by rwa [List.append_nil]⟩
  | @cons σ τ σ' l ls' hok hs _ ih =>
    rcases hlin.of_step hi hwf hok hs with ⟨h₁, hlin₁⟩
    rcases ih hlin₁ (hi.of_step hs) (wellFormed_of_step hok hs hwf) with ⟨h₂, hlin₂⟩
    exact ⟨h₂, by rwa [List.append_assoc] at hlin₂⟩

end Steps

/-! ## The theorem -/

theorem winsArrive_of_replied {l : Label} {σ : State} (h : replied l σ) : winsArrive l σ := by
  rintro ⟨r, _, _, _, _, _, _, rfl, _⟩
  cases h.1 r .after rfl

/-- Every run in which replies arrive and texts are well-formed has a history of atomic requests:
each request acts at one of its own steps, in the order of these steps; responses are the same up to
the wording of errors, and the last store and the messages published are the same. And a verify
request that is answered neither PASS nor FAIL changes nothing in any of its steps. -/
theorem linearizable {env : Env} {ls : List Label} {σ : State}
    (hrun : (server env).Run replied (server env).init ls σ) :
    (∃ h, Linearizes env ls σ h) ∧
    ∀ r sid body response, σ.request? r = some (.verify sid body) → σ.answer? r = some response →
      ¬ response.isPass → ¬ response.isFail →
      ∀ ls₁ l ls₂ σ₁ σ₂, ls = ls₁ ++ l :: ls₂ → l.req? = some r →
        (server env).Run replied (server env).init ls₁ σ₁ → step env l σ₁ = some σ₂ →
        σ₂.store = σ₁.store ∧ σ₂.published = σ₁.published := by
  constructor
  · rcases (Lin.init env).of_run Inv.init (by simp [State.request?, State.init]) hrun with ⟨h, hlin⟩
    exact ⟨h, hlin.linearizes⟩
  · intro r sid body response hreq hans hpass hfail
    have ht := (truthful_of_run (hrun.mono fun _ _ => winsArrive_of_replied)).2
    exact quiet_of_uncommitted hrun hreq (ht.uncommitted hans hpass hfail)

/-- It applies to two racing requests of which the second to finish is told that the session is
completed. -/
theorem linearizable_sample :
    let ls := Sample.create ++ Sample.score 1 (lit "bob") Sample.vector ++
      Sample.score 2 (lit "eve") Sample.otherVector ++
      [.redis 1 .none, .redis 2 .none, .answer 2, .answer 1]
    let σ := (server Sample.config).after ls
    (∃ h, Linearizes Sample.config ls σ h) ∧ σ.answer? 2 = some alreadyCompleted := by
  intro ls σ
  have hcreate : ∀ form, createForm (Sample.createBody (Sample.jwk (lit "alice"))) = some form →
      wellFormed form.aliceName = true ∧ wellFormed form.memoryQuestion = true := by
    rintro form ⟨⟩
    decide
  have hverify : ∀ name, wellFormed name = true → ∀ form,
      verifyForm (Sample.verifyBody name) = some form → wellFormed form.bobName = true := by
    rintro name hname form ⟨⟩
    exact hname
  have hlabels : ∀ l ∈ ls, (∀ r fault, l = .redis r fault → fault = .none) ∧
      (∀ r q limited, l = .request r q limited → q.WellFormed) := by
    have hbob := hverify (lit "bob") (by decide)
    have heve := hverify (lit "eve") (by decide)
    simpa [ls, Sample.create, Sample.score, Request.WellFormed] using
      And.intro hcreate (And.intro hbob heve)
  have hrun : (server Sample.config).Run replied (server Sample.config).init ls σ :=
    ((Lts.run_after _ ls (by decide +kernel)).of_labels hlabels).mono fun _ _ hok => hok.2
  exact ⟨(linearizable hrun).1, by decide +kernel⟩

end Doppelganger
