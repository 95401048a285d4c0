import Doppelganger.Coherence
import Doppelganger.Delivery

/-!
# One stream in any environment

`generate` on its own: one generator with its queue, and an environment that does
anything else. It decides what `terminal_event` answers, which messages reach the
hub, when other streams subscribe and unsubscribe, how the clock moves, whether the
client closes and whether a call or a `yield` raises. The clock is any ordered
monoid, `second` the length of a second on it.

Two facts carry the results: where the generator stands it has yielded exactly the
chunks of `Shape`, and every step of its own lowers `rank`. The streams of the server
are such generators (`Refines`, at the end), their clock counting milliseconds.
-/

open Text Redis

namespace Doppelganger

/-- `HEARTBEAT_SECONDS`. -/
def heartbeatSeconds : ℕ := 15

/-- `MAX_STREAM_SECONDS`. -/
def maxStreamSeconds : ℕ := 15 * 60

namespace Generator

/-- Where the generator stands. -/
inductive Pc (T : Type*) where
  | notStarted
  /-- At the `yield` of the retry line. -/
  | atRetry
  /-- At the `yield` of CONNECTED. -/
  | atConnected
  /-- In the first `terminal_event`. -/
  | checking
  /-- About to set the deadline. -/
  | armed
  /-- At the head of the loop. -/
  | looping (deadline : T)
  /-- In `q.get(timeout=HEARTBEAT_SECONDS)` since `since`. -/
  | waiting (deadline since : T)
  /-- In the `terminal_event` of a heartbeat. -/
  | polling (deadline : T)
  /-- At the `yield` of a message from the queue. -/
  | atMessage (deadline : T) (data : Str)
  /-- At the `yield` of a keepalive comment. -/
  | atKeepalive (deadline : T)
  /-- At the `yield` of an event the generator made. -/
  | atLast
  /-- About to run `finally`. -/
  | leaving
  | closed
deriving DecidableEq

/-- The generator, its queue, the hub of its worker and the clock. -/
@[ext] structure State (T : Type*) where
  hub : Hub
  now : T
  pc : Pc T
  queue : List Str
  out : List Chunk

inductive Label (T : Type*) where
  /-- The generator runs to its next point. -/
  | advance
  /-- `terminal_event` returns. -/
  | check (final : Option Json)
  /-- The call or the `yield` the generator is at raises. -/
  | raise
  /-- The client closes the response. -/
  | close
  /-- The listener takes a message. -/
  | arrive (m : Message)
  /-- Another stream subscribes. -/
  | subscribe (sid : Str) (q : ℕ)
  /-- Another stream unsubscribes. -/
  | unsubscribe (sid : Str) (q : ℕ)
  | tick (d : T)

/-- The steps of the generator itself. -/
def Label.isOwn {T : Type*} : Label T → Bool
  | .advance => true
  | .check _ => true
  | _ => false

variable {T : Type*}

/-- Yield a chunk and stop there. -/
def State.yield (s : State T) (chunk : Chunk) (pc : Pc T) : State T :=
  { s with out := s.out ++ [chunk], pc := pc }

/-- Between `hub.subscribe` and `hub.unsubscribe`. -/
def Pc.subscribed : Pc T → Bool
  | .notStarted => false
  | .closed => false
  | _ => true

/-- At a `yield`, where the client can close the generator. -/
def Pc.atYield : Pc T → Bool
  | .atRetry => true
  | .atConnected => true
  | .atMessage _ _ => true
  | .atKeepalive _ => true
  | .atLast => true
  | _ => false

section

variable [LinearOrder T] [AddCommMonoid T] (sid phase : Str) (q : ℕ) (second : T)

/-- One local step; `none` where the generator is blocked or over. -/
def advance (s : State T) : Option (State T) :=
  match s.pc with
  | .notStarted => some { s.yield .retry .atRetry with hub := EventHub.subscribe s.hub sid q }
  | .atRetry => some (s.yield (.message (connectedEvent phase).dumps) .atConnected)
  | .atConnected => some { s with pc := .checking }
  | .armed => some { s with pc := .looping (s.now + maxStreamSeconds • second) }
  | .looping deadline =>
    if s.now < deadline then some { s with pc := .waiting deadline s.now }
    else some (s.yield (.message SessionStore.expiredEvent.dumps) .atLast)
  | .waiting deadline since =>
    match s.queue with
    | data :: queue => some ({ s with queue }.yield (.message data) (.atMessage deadline data))
    | [] =>
      if since + heartbeatSeconds • second ≤ s.now then some { s with pc := .polling deadline }
      else none
  | .atMessage deadline data =>
    match isTerminal data with
    | some false => some { s with pc := .looping deadline }
    -- done, or `json.loads` has raised
    | _ => some { s with pc := .leaving }
  | .atKeepalive deadline => some { s with pc := .looping deadline }
  | .atLast => some { s with pc := .leaving }
  | .leaving => some { s with pc := .closed, hub := EventHub.unsubscribe s.hub sid q }
  | _ => none

/-- What follows `terminal_event`. -/
def check (final : Option Json) (s : State T) : Option (State T) :=
  match s.pc with
  | .checking =>
    match final with
    | some e => some (s.yield (.message e.dumps) .atLast)
    | none => some { s with pc := .armed }
  | .polling deadline =>
    match final with
    | some e => some (s.yield (.message e.dumps) .atLast)
    | none => some (s.yield .keepalive (.atKeepalive deadline))
  | _ => none

def step : Label T → State T → Option (State T)
  | .advance, s => advance sid phase q second s
  | .check final, s => check final s
  | .raise, s =>
    match s.pc with
    -- `hub.subscribe` raised before it registered the queue
    | .notStarted => some { s with pc := .closed }
    | .leaving => none
    | .closed => none
    | _ => some { s with pc := .leaving }
  | .close, s =>
    match s.pc with
    | .notStarted => some { s with pc := .closed }
    | pc => if pc.atYield then some { s with pc := .leaving } else none
  | .arrive m, s =>
    if q ∈ EventHub.targets s.hub (EventHub.sessionOfChannel m.channel) then
      some { s with queue := EventHub.putNowait s.queue m.data }
    else some s
  | .subscribe sid' q', s =>
    if q' = q then none else some { s with hub := EventHub.subscribe s.hub sid' q' }
  | .unsubscribe sid' q', s =>
    if q' = q then none else some { s with hub := EventHub.unsubscribe s.hub sid' q' }
  | .tick d, s => if 0 ≤ d then some { s with now := s.now + d } else none

/-- A generator made at time `now` in a worker with hub `hub`. -/
def init (hub : Hub) (now : T) : State T := ⟨hub, now, .notStarted, [], []⟩

end

/-- The generator of a stream of session `sid` whose queue is `q`. -/
def lts [LinearOrder T] [AddCommMonoid T] (sid phase : Str) (q : ℕ) (second : T) (hub : Hub)
    (now : T) : Lts (State T) (Label T) :=
  ⟨init hub now, step sid phase q second⟩

/-- The keepalive comments so far. -/
def State.beats (s : State T) : ℕ := s.out.count .keepalive

section

variable (s : State T) (pc : Pc T)

@[simp] theorem beats_retry : (s.yield .retry pc).beats = s.beats := by
  simp [State.yield, State.beats]

@[simp] theorem beats_message (data : Str) : (s.yield (.message data) pc).beats = s.beats := by
  simp [State.yield, State.beats]

@[simp] theorem beats_keepalive : (s.yield .keepalive pc).beats = s.beats + 1 := by
  simp [State.yield, State.beats]

end

/-! ## What a step can do -/

section

variable [LinearOrder T] [AddCommMonoid T] {sid phase : Str} {q : ℕ} {second : T}

/-- The steps, each with the point it leaves and what it changes. -/
inductive Moved (sid phase : Str) (q : ℕ) (second : T) (s : State T) : Label T → State T → Prop
  | retry : s.pc = .notStarted →
      Moved sid phase q second s .advance
        { s.yield .retry .atRetry with hub := EventHub.subscribe s.hub sid q }
  | connected : s.pc = .atRetry →
      Moved sid phase q second s .advance
        (s.yield (.message (connectedEvent phase).dumps) .atConnected)
  | check : s.pc = .atConnected → Moved sid phase q second s .advance { s with pc := .checking }
  | arm : s.pc = .armed →
      Moved sid phase q second s .advance
        { s with pc := .looping (s.now + maxStreamSeconds • second) }
  | wait (deadline : T) : s.pc = .looping deadline → s.now < deadline →
      Moved sid phase q second s .advance { s with pc := .waiting deadline s.now }
  | expire (deadline : T) : s.pc = .looping deadline → deadline ≤ s.now →
      Moved sid phase q second s .advance
        (s.yield (.message SessionStore.expiredEvent.dumps) .atLast)
  | take (deadline since : T) (data : Str) (queue : List Str) : s.pc = .waiting deadline since →
      s.queue = data :: queue →
      Moved sid phase q second s .advance
        ({ s with queue }.yield (.message data) (.atMessage deadline data))
  | timeout (deadline since : T) : s.pc = .waiting deadline since → s.queue = [] →
      since + heartbeatSeconds • second ≤ s.now →
      Moved sid phase q second s .advance { s with pc := .polling deadline }
  | goOn (deadline : T) (data : Str) : s.pc = .atMessage deadline data →
      isTerminal data = some false →
      Moved sid phase q second s .advance { s with pc := .looping deadline }
  | finish (deadline : T) (data : Str) : s.pc = .atMessage deadline data →
      isTerminal data ≠ some false →
      Moved sid phase q second s .advance { s with pc := .leaving }
  | alive (deadline : T) : s.pc = .atKeepalive deadline →
      Moved sid phase q second s .advance { s with pc := .looping deadline }
  | last : s.pc = .atLast → Moved sid phase q second s .advance { s with pc := .leaving }
  | leave : s.pc = .leaving →
      Moved sid phase q second s .advance
        { s with pc := .closed, hub := EventHub.unsubscribe s.hub sid q }
  | final (e : Json) : s.pc = .checking ∨ (∃ deadline, s.pc = .polling deadline) →
      Moved sid phase q second s (.check (some e)) (s.yield (.message e.dumps) .atLast)
  | nothing : s.pc = .checking → Moved sid phase q second s (.check none) { s with pc := .armed }
  | keepalive (deadline : T) : s.pc = .polling deadline →
      Moved sid phase q second s (.check none) (s.yield .keepalive (.atKeepalive deadline))
  | unstarted {l : Label T} : l = .raise ∨ l = .close → s.pc = .notStarted →
      Moved sid phase q second s l { s with pc := .closed }
  | stopped {l : Label T} : l = .raise ∨ l = .close → s.pc.subscribed = true → s.pc ≠ .leaving →
      Moved sid phase q second s l { s with pc := .leaving }
  | received (m : Message) :
      q ∈ EventHub.targets s.hub (EventHub.sessionOfChannel m.channel) →
      Moved sid phase q second s (.arrive m)
        { s with queue := EventHub.putNowait s.queue m.data }
  | missed (m : Message) :
      q ∉ EventHub.targets s.hub (EventHub.sessionOfChannel m.channel) →
      Moved sid phase q second s (.arrive m) s
  | others {l : Label T} (hub : Hub) : l.isOwn = false → l ≠ .raise → l ≠ .close →
      (∀ sid', q ∈ EventHub.targets hub sid' ↔ q ∈ EventHub.targets s.hub sid') →
      Moved sid phase q second s l { s with hub }
  | ticked (d : T) : 0 ≤ d → Moved sid phase q second s (.tick d) { s with now := s.now + d }

theorem moved_of_advance {s s' : State T} (h : advance sid phase q second s = some s') :
    Moved sid phase q second s .advance s' := by
  cases hpc : s.pc with
  | notStarted =>
    simp only [advance, hpc, Option.some.injEq] at h
    subst h
    exact .retry hpc
  | atRetry =>
    simp only [advance, hpc, Option.some.injEq] at h
    subst h
    exact .connected hpc
  | atConnected =>
    simp only [advance, hpc, Option.some.injEq] at h
    subst h
    exact .check hpc
  | armed =>
    simp only [advance, hpc, Option.some.injEq] at h
    subst h
    exact .arm hpc
  | looping deadline =>
    by_cases hlt : s.now < deadline
    · simp only [advance, hpc, hlt, if_true, Option.some.injEq] at h
      subst h
      exact .wait deadline hpc hlt
    · simp only [advance, hpc, hlt, if_false, Option.some.injEq] at h
      subst h
      exact .expire deadline hpc (not_lt.mp hlt)
  | waiting deadline since =>
    cases hq : s.queue with
    | cons data queue =>
      simp only [advance, hpc, hq, Option.some.injEq] at h
      subst h
      exact .take deadline since data queue hpc hq
    | nil =>
      by_cases hle : since + heartbeatSeconds • second ≤ s.now
      · obtain rfl : { s with pc := .polling deadline } = s' := by
          simpa [advance, hpc, hq, hle] using h
        exact .timeout deadline since hpc hq hle
      · simp [advance, hpc, hq, hle] at h
  | atMessage deadline data =>
    by_cases hterm : isTerminal data = some false
    · simp only [advance, hpc, hterm, Option.some.injEq] at h
      subst h
      exact .goOn deadline data hpc hterm
    · obtain rfl : { s with pc := .leaving } = s' := by
        simpa [advance, hpc, hterm] using h
      exact .finish deadline data hpc hterm
  | atKeepalive deadline =>
    simp only [advance, hpc, Option.some.injEq] at h
    subst h
    exact .alive deadline hpc
  | atLast =>
    simp only [advance, hpc, Option.some.injEq] at h
    subst h
    exact .last hpc
  | leaving =>
    simp only [advance, hpc, Option.some.injEq] at h
    subst h
    exact .leave hpc
  | checking => simp [advance, hpc] at h
  | polling deadline => simp [advance, hpc] at h
  | closed => simp [advance, hpc] at h

theorem moved_of_check {s s' : State T} {final : Option Json} (h : check final s = some s') :
    Moved sid phase q second s (.check final) s' := by
  cases hpc : s.pc with
  | checking =>
    cases final with
    | none =>
      simp only [check, hpc, Option.some.injEq] at h
      subst h
      exact .nothing hpc
    | some e =>
      simp only [check, hpc, Option.some.injEq] at h
      subst h
      exact .final e (Or.inl hpc)
  | polling deadline =>
    cases final with
    | none =>
      simp only [check, hpc, Option.some.injEq] at h
      subst h
      exact .keepalive deadline hpc
    | some e =>
      simp only [check, hpc, Option.some.injEq] at h
      subst h
      exact .final e (Or.inr ⟨deadline, hpc⟩)
  | _ => simp [check, hpc] at h

/-- The inversion every fact about the generator starts from. -/
theorem moved_of_step {l : Label T} {s s' : State T} (h : step sid phase q second l s = some s') :
    Moved sid phase q second s l s' := by
  cases l with
  | advance => exact moved_of_advance h
  | check final => exact moved_of_check h
  | raise =>
    cases hpc : s.pc <;> simp only [step, hpc, Option.some.injEq, reduceCtorEq] at h <;> subst h
    · exact .unstarted (Or.inl rfl) hpc
    all_goals exact .stopped (Or.inl rfl) (by rw [hpc]; rfl) (by rw [hpc]; exact nofun)
  | close =>
    cases hpc : s.pc <;>
      simp only [step, hpc, Pc.atYield, if_true, Bool.false_eq_true, if_false, Option.some.injEq,
        reduceCtorEq] at h <;> subst h
    · exact .unstarted (Or.inr rfl) hpc
    all_goals exact .stopped (Or.inr rfl) (by rw [hpc]; rfl) (by rw [hpc]; exact nofun)
  | arrive m =>
    by_cases hq : q ∈ EventHub.targets s.hub (EventHub.sessionOfChannel m.channel)
    · simp only [step, hq, if_true, Option.some.injEq] at h
      subst h
      exact .received m hq
    · simp only [step, hq, if_false, Option.some.injEq] at h
      subst h
      exact .missed m hq
  | subscribe sid' q' =>
    by_cases hq : q' = q
    · simp [step, hq] at h
    · simp only [step, hq, if_false, Option.some.injEq] at h
      subst h
      refine .others _ rfl nofun nofun ?_
      intro sid''
      rw [EventHub.mem_targets_subscribe]
      simp [Ne.symm hq]
  | unsubscribe sid' q' =>
    by_cases hq : q' = q
    · simp [step, hq] at h
    · simp only [step, hq, if_false, Option.some.injEq] at h
      subst h
      refine .others _ rfl nofun nofun ?_
      intro sid''
      rw [EventHub.mem_targets_unsubscribe]
      simp [Ne.symm hq]
  | tick d =>
    by_cases hd : 0 ≤ d
    · simp only [step, hd, if_true, Option.some.injEq] at h
      subst h
      exact .ticked d hd
    · simp [step, hd] at h

/-! ## The hub -/

/-- The queue is registered, for its own session, exactly between subscribing and unsubscribing. -/
def Registered (sid : Str) (q : ℕ) (s : State T) : Prop :=
  ∀ sid', q ∈ EventHub.targets s.hub sid' ↔ sid' = sid ∧ s.pc.subscribed = true

theorem registered_of_step {l : Label T} {s s' : State T}
    (h : step sid phase q second l s = some s') (hs : Registered sid q s) :
    Registered sid q s' := by
  have hkeep : ∀ s' : State T, s'.hub = s.hub → s'.pc.subscribed = s.pc.subscribed →
      Registered sid q s' := by
    intro s' hhub hpc sid'
    rw [hhub, hpc]
    exact hs sid'
  cases moved_of_step h with
  | retry hpc =>
    intro sid'
    have hno := hs sid'
    simp only [hpc, Pc.subscribed, Bool.false_eq_true, and_false, iff_false] at hno
    simp [EventHub.mem_targets_subscribe, State.yield, Pc.subscribed, hno]
  | leave hpc =>
    intro sid'
    have hyes := hs sid'
    rw [hpc] at hyes
    simp [EventHub.mem_targets_unsubscribe, Pc.subscribed, hyes]
  | connected hpc => exact hkeep _ rfl (by rw [hpc]; rfl)
  | check hpc => exact hkeep _ rfl (by rw [hpc]; rfl)
  | arm hpc => exact hkeep _ rfl (by rw [hpc]; rfl)
  | wait deadline hpc _ => exact hkeep _ rfl (by rw [hpc]; rfl)
  | expire deadline hpc _ => exact hkeep _ rfl (by rw [hpc]; rfl)
  | take deadline since data queue hpc _ => exact hkeep _ rfl (by rw [hpc]; rfl)
  | timeout deadline since hpc _ _ => exact hkeep _ rfl (by rw [hpc]; rfl)
  | goOn deadline data hpc _ => exact hkeep _ rfl (by rw [hpc]; rfl)
  | finish deadline data hpc _ => exact hkeep _ rfl (by rw [hpc]; rfl)
  | alive deadline hpc => exact hkeep _ rfl (by rw [hpc]; rfl)
  | last hpc => exact hkeep _ rfl (by rw [hpc]; rfl)
  | final e hpc =>
    refine hkeep _ rfl ?_
    rcases hpc with hpc | ⟨deadline, hpc⟩
    · rw [hpc]
      rfl
    · rw [hpc]
      rfl
  | nothing hpc => exact hkeep _ rfl (by rw [hpc]; rfl)
  | keepalive deadline hpc => exact hkeep _ rfl (by rw [hpc]; rfl)
  | unstarted _ hpc => exact hkeep _ rfl (by rw [hpc]; rfl)
  | stopped _ hsub _ => exact hkeep _ rfl hsub.symm
  | received m _ => exact hkeep _ rfl rfl
  | missed m _ => exact hs
  | others hub _ _ _ hsame =>
    intro sid'
    rw [hsame]
    exact hs sid'
  | ticked d _ => exact hkeep _ rfl rfl

/-! ## What is yielded -/

/-- The retry line, CONNECTED, and `k` keepalive comments. -/
def opened (phase : Str) (k : ℕ) : List Chunk :=
  [.retry, .message (connectedEvent phase).dumps] ++ List.replicate k .keepalive

/-- What has been yielded when the generator is at a point. -/
def Shape (phase : Str) (out : List Chunk) : Pc T → Prop
  | .notStarted => out = []
  | .atRetry => out = [.retry]
  | .atConnected | .checking | .armed => out = opened phase 0
  | .looping _ | .waiting _ _ | .polling _ | .atKeepalive _ => ∃ k, out = opened phase k
  | .atMessage _ data => isTerminal data = some true ∧ ∃ k, out = opened phase k ++ [.message data]
  | .atLast | .leaving | .closed =>
    ∃ k data, isTerminal data = some true ∧ out = opened phase k ++ [.message data]

/-- Everything in the queue ends the stream. -/
def Queued (s : State T) : Prop := ∀ data ∈ s.queue, isTerminal data = some true

/-- A message that `finalize` published. -/
def Finalized (m : Message) : Prop :=
  ∃ env sid form score, m = ⟨channel sid, (event env form score).dumps⟩

/-- The messages come from `finalize`. -/
def fromFinalize : Lts.Guard (State T) (Label T) := fun l _ => ∀ m, l = .arrive m → Finalized m

/-- Nothing raises, the client stays, `terminal_event` answers what it can answer for the session,
and the messages come from `finalize`. -/
def undisturbed (sid : Str) : Lts.Guard (State T) (Label T) := fun l s =>
  l ≠ .raise ∧ l ≠ .close ∧ fromFinalize l s ∧
    ∀ final, l = .check final → ∃ db, SessionStore.terminalEvent db sid = .ok final

theorem isTerminal_event (env : Env) (form : VerifyForm) (score : ℚ) :
    isTerminal (event env form score).dumps = some true := by
  unfold event
  split_ifs
  · exact isTerminal_dumps rfl (by decide)
  · exact isTerminal_dumps rfl (by decide)

theorem isTerminal_expiredEvent : isTerminal SessionStore.expiredEvent.dumps = some true :=
  isTerminal_dumps rfl (by decide)

/-- `terminal_event` rebuilds terminal events only. -/
theorem isTerminal_terminalEvent {db : Store} {sid : Str} {e : Json}
    (h : SessionStore.terminalEvent db sid = .ok (some e)) : isTerminal e.dumps = some true := by
  simp only [SessionStore.terminalEvent] at h
  split at h
  · obtain rfl : SessionStore.expiredEvent = e := by simpa using h
    exact isTerminal_expiredEvent
  · split_ifs at h
    · split at h
      · cases h
      · split at h
        · cases h
        · split at h
          · cases h
          · simp only [Except.ok.injEq, Option.some.injEq] at h
            subst h
            exact isTerminal_dumps rfl (by decide)
    · split at h
      · cases h
      · simp only [Except.ok.injEq, Option.some.injEq] at h
        subst h
        exact isTerminal_dumps rfl (by decide)
    · cases h

theorem opened_succ (k : ℕ) : opened phase k ++ [.keepalive] = opened phase (k + 1) := by
  simp [opened, List.replicate_succ']

theorem queued_of_step {l : Label T} {s s' : State T} (hok : fromFinalize l s)
    (h : step sid phase q second l s = some s') (hs : Queued s) : Queued s' := by
  cases moved_of_step h with
  | received m _ =>
    rcases hok m rfl with ⟨env, sid', form, score, rfl⟩
    intro data hdata
    simp only [EventHub.putNowait] at hdata
    split_ifs at hdata with hroom
    · rcases List.mem_append.mp hdata with hdata | hdata
      · exact hs data hdata
      · obtain rfl := List.mem_singleton.mp hdata
        exact isTerminal_event env form score
    · exact hs data hdata
  | take deadline since data queue _ hqueue =>
    intro data' hdata
    exact hs data' (by rw [hqueue]; exact List.mem_cons_of_mem _ hdata)
  | _ => exact hs

/-- An undisturbed step keeps the shape. -/
theorem shape_of_step {l : Label T} {s s' : State T} (hok : undisturbed sid l s)
    (h : step sid phase q second l s = some s') (hqueued : Queued s)
    (hs : Shape phase s.out s.pc) : Shape phase s'.out s'.pc := by
  rcases hok with ⟨hraise, hclose, _, hcheck⟩
  cases moved_of_step h with
  | retry hpc =>
    rw [hpc] at hs
    have hout : s.out = [] := hs
    simp [State.yield, Shape, hout]
  | connected hpc =>
    rw [hpc] at hs
    have hout : s.out = [.retry] := hs
    simp [State.yield, Shape, hout, opened]
  | check hpc =>
    rw [hpc] at hs
    exact hs
  | arm hpc =>
    rw [hpc] at hs
    exact ⟨0, hs⟩
  | wait deadline hpc _ =>
    rw [hpc] at hs
    exact hs
  | expire deadline hpc _ =>
    rw [hpc] at hs
    rcases hs with ⟨k, hout⟩
    exact ⟨k, _, isTerminal_expiredEvent, by simp [State.yield, hout]⟩
  | take deadline since data queue hpc hqueue =>
    rw [hpc] at hs
    rcases hs with ⟨k, hout⟩
    exact ⟨hqueued data (by simp [hqueue]), k, by simp [State.yield, hout]⟩
  | timeout deadline since hpc _ _ =>
    rw [hpc] at hs
    exact hs
  | goOn deadline data hpc hgoOn =>
    rw [hpc] at hs
    -- a message from the queue ends the stream
    rw [hs.1] at hgoOn
    cases hgoOn
  | finish deadline data hpc _ =>
    rw [hpc] at hs
    rcases hs with ⟨hterm, k, hout⟩
    exact ⟨k, data, hterm, hout⟩
  | alive deadline hpc =>
    rw [hpc] at hs
    exact hs
  | last hpc =>
    rw [hpc] at hs
    exact hs
  | leave hpc =>
    rw [hpc] at hs
    exact hs
  | final e hpc =>
    rcases hcheck _ rfl with ⟨db, hdb⟩
    have hk : ∃ k, s.out = opened phase k := by
      rcases hpc with hpc | ⟨deadline, hpc⟩
      · rw [hpc] at hs
        exact ⟨0, hs⟩
      · rw [hpc] at hs
        exact hs
    rcases hk with ⟨k, hout⟩
    exact ⟨k, _, isTerminal_terminalEvent hdb, by simp [State.yield, hout]⟩
  | nothing hpc =>
    rw [hpc] at hs
    exact hs
  | keepalive deadline hpc =>
    rw [hpc] at hs
    rcases hs with ⟨k, hout⟩
    exact ⟨k + 1, by simp [State.yield, hout, opened_succ]⟩
  | unstarted hl _ => rcases hl with hl | hl <;> contradiction
  | stopped hl _ _ => rcases hl with hl | hl <;> contradiction
  | received m _ => exact hs
  | missed m _ => exact hs
  | others hub _ _ _ _ => exact hs
  | ticked d _ => exact hs

/-! ## How long it takes -/

/-- As many heartbeats as fit into the longest stream. -/
def limit : ℕ := maxStreamSeconds / heartbeatSeconds

theorem limit_mul : limit * heartbeatSeconds = maxStreamSeconds := by decide

/-- `k` heartbeats of a loop that ends at `deadline` are over at `now`. -/
def Counted (second deadline now : T) (k : ℕ) : Prop :=
  ∃ start, deadline = start + maxStreamSeconds • second ∧
    start + k • (heartbeatSeconds • second) ≤ now

/-- The clock at a point that `k` keepalive comments led to. -/
def OnTime (second now : T) (k : ℕ) : Pc T → Prop
  | .notStarted | .atRetry | .atConnected | .checking | .armed => k = 0
  | .looping deadline | .atKeepalive deadline => k ≤ limit ∧ Counted second deadline now k
  | .waiting deadline since => k < limit ∧ Counted second deadline since k ∧ since ≤ now
  | .polling deadline => k < limit ∧ Counted second deadline now (k + 1)
  | .atMessage _ data => k ≤ limit ∧ isTerminal data = some true
  | .atLast | .leaving | .closed => k ≤ limit

/-- An upper bound on the steps the generator has still to take. -/
def rank (s : State T) : ℕ :=
  match s.pc with
  | .notStarted => 4 * limit + 8
  | .atRetry => 4 * limit + 7
  | .atConnected => 4 * limit + 6
  | .checking => 4 * limit + 5
  | .armed => 4 * limit + 4
  | .looping _ => 4 * (limit - s.beats) + 3
  | .waiting _ _ => 4 * (limit - s.beats) + 2
  | .polling _ => 4 * (limit - s.beats) + 1
  | .atKeepalive _ => 4 * (limit - s.beats) + 4
  | .atMessage _ _ => 2
  | .atLast => 2
  | .leaving => 1
  | .closed => 0

/-- The heartbeats are over by the deadline. -/
theorem Counted.lt_limit {deadline now : T} {k : ℕ} (h : Counted second deadline now k)
    (hlt : now < deadline) (hle : k ≤ limit) : k < limit := by
  refine lt_of_le_of_ne hle ?_
  rintro rfl
  rcases h with ⟨start, rfl, hnow⟩
  have hmax : limit • (heartbeatSeconds • second) = maxStreamSeconds • second := by
    rw [← mul_nsmul', limit_mul]
  rw [hmax] at hnow
  exact absurd hlt (not_lt.mpr hnow)

theorem Counted.mono {deadline now now' : T} {k : ℕ} (h : Counted second deadline now k)
    (hle : now ≤ now') : Counted second deadline now' k := by
  rcases h with ⟨start, hdeadline, hnow⟩
  exact ⟨start, hdeadline, hnow.trans hle⟩

theorem OnTime.le_limit {now : T} {k : ℕ} {pc : Pc T} (h : OnTime second now k pc) :
    k ≤ limit := by
  cases pc with
  | looping _ => exact h.1
  | atKeepalive _ => exact h.1
  | waiting _ _ => exact h.1.le
  | polling _ => exact h.1.le
  | atMessage _ _ => exact h.1
  | atLast => exact h
  | leaving => exact h
  | closed => exact h
  | _ =>
    have hzero : k = 0 := h
    omega

theorem OnTime.mono {now now' : T} {k : ℕ} {pc : Pc T} (h : OnTime second now k pc)
    (hle : now ≤ now') : OnTime second now' k pc := by
  cases pc with
  | looping _ => exact ⟨h.1, h.2.mono hle⟩
  | atKeepalive _ => exact ⟨h.1, h.2.mono hle⟩
  | waiting _ _ => exact ⟨h.1, h.2.1, h.2.2.trans hle⟩
  | polling _ => exact ⟨h.1, h.2.mono hle⟩
  | _ => exact h

variable [IsOrderedAddMonoid T]

/-- A timeout is another heartbeat. -/
theorem Counted.timeout {deadline since now : T} {k : ℕ} (h : Counted second deadline since k)
    (hle : since + heartbeatSeconds • second ≤ now) : Counted second deadline now (k + 1) := by
  rcases h with ⟨start, hdeadline, hsince⟩
  refine ⟨start, hdeadline, ?_⟩
  calc start + (k + 1) • (heartbeatSeconds • second)
      = start + k • (heartbeatSeconds • second) + heartbeatSeconds • second := by
        rw [succ_nsmul, add_assoc]
    _ ≤ since + heartbeatSeconds • second := add_le_add_left hsince _
    _ ≤ now := hle

/-- Every step keeps to the time, and the generator's own lower the rank. -/
theorem onTime_of_step {l : Label T} {s s' : State T} (h : step sid phase q second l s = some s')
    (hqueued : Queued s) (hs : OnTime second s.now s.beats s.pc) :
    OnTime second s'.now s'.beats s'.pc ∧ rank s' ≤ rank s ∧
      (l.isOwn = true → rank s' < rank s) := by
  have hle := hs.le_limit
  cases moved_of_step h with
  | retry hpc =>
    rw [hpc] at hs
    have hzero : s.beats = 0 := hs
    have hbeats : (s.yield .retry .atRetry).beats = 0 := by rw [beats_retry, hzero]
    exact ⟨hbeats, by simp [rank, hpc, State.yield], fun _ => by simp [rank, hpc, State.yield]⟩
  | connected hpc =>
    rw [hpc] at hs
    exact ⟨(beats_message s _ _).trans hs, by simp [rank, hpc, State.yield],
      fun _ => by simp [rank, hpc, State.yield]⟩
  | check hpc =>
    rw [hpc] at hs
    exact ⟨hs, by simp [rank, hpc], fun _ => by simp [rank, hpc]⟩
  | arm hpc =>
    rw [hpc] at hs
    have hzero : s.beats = 0 := hs
    have hrank : rank { s with pc := .looping (s.now + maxStreamSeconds • second) } < rank s := by
      simp only [rank, hpc]
      omega
    refine ⟨⟨hle, s.now, rfl, ?_⟩, hrank.le, fun _ => hrank⟩
    show s.now + s.beats • _ ≤ s.now
    rw [hzero, zero_nsmul, add_zero]
  | wait deadline hpc hlt =>
    rw [hpc] at hs
    rcases hs with ⟨_, hcounted⟩
    have hrank : rank { s with pc := .waiting deadline s.now } < rank s := by
      simp only [rank, hpc, State.beats]
      omega
    exact ⟨⟨hcounted.lt_limit hlt hle, hcounted, le_rfl⟩, hrank.le, fun _ => hrank⟩
  | expire deadline hpc _ =>
    have hrank : rank (s.yield (.message SessionStore.expiredEvent.dumps) .atLast) < rank s := by
      simp only [rank, hpc, State.yield]
      omega
    exact ⟨(beats_message s _ _).trans_le hle, hrank.le, fun _ => hrank⟩
  | take deadline since data queue hpc hqueue =>
    rw [hpc] at hs
    have hlt := hs.1
    have hrank : rank ({ s with queue }.yield (.message data) (.atMessage deadline data)) <
        rank s := by
      simp only [rank, hpc, State.yield]
      omega
    exact ⟨⟨(beats_message _ _ _).trans_le hle, hqueued data (by simp [hqueue])⟩, hrank.le,
      fun _ => hrank⟩
  | timeout deadline since hpc _ hover =>
    rw [hpc] at hs
    rcases hs with ⟨hlt, hcounted, _⟩
    have hrank : rank { s with pc := .polling deadline } < rank s := by
      simp only [rank, hpc, State.beats]
      omega
    exact ⟨⟨hlt, hcounted.timeout hover⟩, hrank.le, fun _ => hrank⟩
  | goOn deadline data hpc hgoOn =>
    rw [hpc] at hs
    rw [hs.2] at hgoOn
    cases hgoOn
  | finish deadline data hpc _ =>
    exact ⟨hle, by simp [rank, hpc], fun _ => by simp [rank, hpc]⟩
  | alive deadline hpc =>
    rw [hpc] at hs
    have hrank : rank { s with pc := .looping deadline } < rank s := by
      simp only [rank, hpc, State.beats]
      omega
    exact ⟨hs, hrank.le, fun _ => hrank⟩
  | last hpc => exact ⟨hle, by simp [rank, hpc], fun _ => by simp [rank, hpc]⟩
  | leave hpc => exact ⟨hle, by simp [rank, hpc], fun _ => by simp [rank, hpc]⟩
  | final e hpc =>
    have hrank : rank (s.yield (.message e.dumps) .atLast) < rank s := by
      rcases hpc with hpc | ⟨deadline, hpc⟩
      · simp only [rank, hpc, State.yield]
        omega
      · rw [hpc] at hs
        have hlt := hs.1
        simp only [rank, hpc, State.yield]
        omega
    exact ⟨(beats_message s _ _).trans_le hle, hrank.le, fun _ => hrank⟩
  | nothing hpc =>
    rw [hpc] at hs
    exact ⟨hs, by simp [rank, hpc], fun _ => by simp [rank, hpc]⟩
  | keepalive deadline hpc =>
    rw [hpc] at hs
    rcases hs with ⟨hlt, hcounted⟩
    have hbeats := beats_keepalive s (.atKeepalive deadline)
    have hrank : rank (s.yield .keepalive (.atKeepalive deadline)) < rank s := by
      have hpc' : (s.yield .keepalive (.atKeepalive deadline)).pc = .atKeepalive deadline := rfl
      simp only [rank, hpc, hpc', hbeats]
      omega
    refine ⟨?_, hrank.le, fun _ => hrank⟩
    rw [hbeats]
    exact ⟨hlt, hcounted⟩
  | unstarted hl hpc =>
    refine ⟨hle, by simp [rank, hpc], ?_⟩
    rcases hl with rfl | rfl <;> exact nofun
  | stopped hl hsub hne =>
    refine ⟨hle, ?_, ?_⟩
    · -- nothing but the end of `finally` comes after `leaving`
      cases hpc : s.pc <;> simp [rank, hpc, Pc.subscribed] at hsub hne ⊢
    · rcases hl with rfl | rfl <;> exact nofun
  | received m _ => exact ⟨hs, le_rfl, nofun⟩
  | missed m _ => exact ⟨hs, le_rfl, nofun⟩
  | others hub hown _ _ _ =>
    refine ⟨hs, le_rfl, fun htrue => ?_⟩
    rw [hown] at htrue
    cases htrue
  | ticked d hd => exact ⟨hs.mono (le_add_of_nonneg_right hd), le_rfl, nofun⟩

/-- A generator that is not over goes on once a heartbeat has passed, whatever `terminal_event`
answers then. -/
theorem goes_on {s : State T} (hsecond : 0 ≤ second) (hs : OnTime second s.now s.beats s.pc)
    (hopen : s.pc ≠ .closed) :
    ∃ d s₁, 0 ≤ d ∧ step sid phase q second (.tick d) s = some s₁ ∧
      ((step sid phase q second .advance s₁).isSome = true ∨
        ∀ final, (step sid phase q second (.check final) s₁).isSome = true) := by
  have hbeat : 0 ≤ heartbeatSeconds • second := nsmul_nonneg hsecond _
  refine ⟨heartbeatSeconds • second, _, hbeat, if_pos hbeat, ?_⟩
  cases hpc : s.pc with
  | checking =>
    right
    intro final
    cases final <;> simp [step, check]
  | polling deadline =>
    right
    intro final
    cases final <;> simp [step, check]
  | closed => exact absurd hpc hopen
  | looping deadline =>
    left
    by_cases hlt : s.now + heartbeatSeconds • second < deadline <;> simp [step, advance, hlt]
  | waiting deadline since =>
    left
    rw [hpc] at hs
    have hover : since + heartbeatSeconds • second ≤ s.now + heartbeatSeconds • second :=
      add_le_add_left hs.2.2 _
    cases hqueue : s.queue <;> simp [step, advance, hover]
  | atMessage deadline data =>
    left
    by_cases hterm : isTerminal data = some false <;> simp [step, advance, hterm]
  | _ =>
    left
    simp [step, advance]

end

/-! ## Every run of a generator -/

section Runs

variable [LinearOrder T] [AddCommMonoid T] {sid phase : Str} {q : ℕ} {second now : T} {hub : Hub}
  {ls : List (Label T)} {s : State T}

theorem registered_of_run (hnew : ∀ sid', q ∉ EventHub.targets hub sid')
    {ok : Lts.Guard (State T) (Label T)}
    (h : (lts sid phase q second hub now).Run ok (init hub now) ls s) : Registered sid q s := by
  refine h.preserves (fun l s t _ hs => registered_of_step hs) ?_
  intro sid'
  simp [init, Pc.subscribed, hnew]

theorem shape_of_run
    (h : (lts sid phase q second hub now).Run (undisturbed sid) (init hub now) ls s) :
    Shape phase s.out s.pc := by
  have hboth : Queued s ∧ Shape phase s.out s.pc := by
    refine h.preserves (P := fun s => Queued s ∧ Shape phase s.out s.pc) ?_
      ⟨by simp [init, Queued], rfl⟩
    rintro l s t hok hs ⟨hqueued, hshape⟩
    exact ⟨queued_of_step hok.2.2.1 hs hqueued, shape_of_step hok hs hqueued hshape⟩
  exact hboth.2

variable [IsOrderedAddMonoid T]

theorem onTime_of_run (h : (lts sid phase q second hub now).Run fromFinalize (init hub now) ls s) :
    OnTime second s.now s.beats s.pc ∧ ls.countP Label.isOwn ≤ 4 * limit + 8 := by
  let P : State T → Prop := fun s => Queued s ∧ OnTime second s.now s.beats s.pc
  have hinit : P (init hub now) := ⟨by simp [init, Queued], rfl⟩
  have hpres : ∀ l s t, fromFinalize l s → (lts sid phase q second hub now).step l s = some t →
      P s → P t := by
    rintro l s t hok hs ⟨hqueued, htime⟩
    exact ⟨queued_of_step hok hs hqueued, (onTime_of_step hs hqueued htime).1⟩
  refine ⟨(h.preserves hpres hinit).2, ?_⟩
  have hbound : ls.countP Label.isOwn + rank s ≤ rank (init hub now) :=
    (h.guarded hpres hinit).countP_add_rank_le
    (fun l s t hok hs hown => (onTime_of_step hs hok.2.1 hok.2.2).2.2 hown)
    (fun l s t hok hs => (onTime_of_step hs hok.2.1 hok.2.2).2.1)
  have hrank : rank (init hub now) = 4 * limit + 8 := rfl
  omega

/-- In every environment, for a queue that is new. While the messages come from `finalize`, the
generator takes boundedly many steps, and as long as it is not over it has a next one, at the latest
when a heartbeat has passed. Where in addition nothing raises and the client does not close, its
whole output is the retry line, CONNECTED, at most `MAX_STREAM_SECONDS / HEARTBEAT_SECONDS`
keepalives and one terminal message. However it ended, its queue is not in the hub any more. -/
theorem stream_shape_and_bound (hsecond : 0 < second)
    (hnew : ∀ sid', q ∉ EventHub.targets hub sid') :
    (∀ ls s, (lts sid phase q second hub now).Run fromFinalize (init hub now) ls s →
      ls.countP Label.isOwn ≤ 4 * (maxStreamSeconds / heartbeatSeconds) + 8 ∧
      (s.pc ≠ .closed → ∃ d s₁, 0 ≤ d ∧ step sid phase q second (.tick d) s = some s₁ ∧
        ((step sid phase q second .advance s₁).isSome = true ∨
          ∀ final, (step sid phase q second (.check final) s₁).isSome = true))) ∧
    (∀ ls s, (lts sid phase q second hub now).Run (undisturbed sid) (init hub now) ls s →
      s.pc = .closed →
      ∃ k data, k ≤ maxStreamSeconds / heartbeatSeconds ∧ isTerminal data = some true ∧
        s.out = [.retry, .message (connectedEvent phase).dumps] ++
          List.replicate k .keepalive ++ [.message data]) ∧
    (∀ ls s, (lts sid phase q second hub now).Run Lts.anyStep (init hub now) ls s →
      s.pc = .closed → ∀ sid', q ∉ EventHub.targets s.hub sid') := by
  refine ⟨?_, ?_, ?_⟩
  · intro ls s h
    rcases onTime_of_run h with ⟨htime, hsteps⟩
    exact ⟨hsteps, fun hopen => goes_on hsecond.le htime hopen⟩
  · intro ls s h hclosed
    have hshape := shape_of_run h
    rw [hclosed] at hshape
    rcases hshape with ⟨k, data, hterm, hout⟩
    have hlimit := (onTime_of_run (h.mono fun _ _ hok => hok.2.2.1)).1.le_limit
    have hbeats : s.beats = k := by simp [State.beats, hout, opened]
    exact ⟨k, data, hbeats ▸ hlimit, hterm, hout⟩
  · intro ls s h hclosed sid' hmem
    have hsub := ((registered_of_run hnew h sid').mp hmem).2
    rw [hclosed] at hsub
    cases hsub

end Runs

namespace Sample

/-- Nobody answers, and the session is gone at the second heartbeat. -/
def unanswered : List (Label ℕ) :=
  [.advance, .advance, .advance, .check none, .advance, .advance, .tick 15000, .advance,
    .check none, .advance, .advance, .tick 15000, .advance,
    .check (some SessionStore.expiredEvent), .advance, .advance]

def machine : Lts (State ℕ) (Label ℕ) :=
  lts Doppelganger.Sample.sid waitingForBob 0 1000 EventHub.empty 0

end Sample

/-- It applies to a stream that nobody answers, on a clock of milliseconds. -/
theorem stream_shape_and_bound_sample :
    (Sample.machine.after Sample.unanswered).pc = .closed ∧
    (∃ k data, k ≤ 60 ∧ isTerminal data = some true ∧
      (Sample.machine.after Sample.unanswered).out =
        [.retry, .message (connectedEvent waitingForBob).dumps] ++
          List.replicate k .keepalive ++ [.message data]) ∧
    ∀ sid', 0 ∉ EventHub.targets (Sample.machine.after Sample.unanswered).hub sid' := by
  have hrun := Sample.machine.run_after Sample.unanswered (by decide +kernel)
  have hclosed : (Sample.machine.after Sample.unanswered).pc = .closed := by decide +kernel
  have hbound := @stream_shape_and_bound ℕ _ _ Doppelganger.Sample.sid waitingForBob 0 1000 0
    EventHub.empty _ (by decide) (fun sid' => by simp [EventHub.targets, EventHub.empty])
  have hchecks : ∀ final, .check final ∈ Sample.unanswered →
      ∃ db, SessionStore.terminalEvent db Doppelganger.Sample.sid = .ok final := by
    intro final hmem
    have hfinal : final = none ∨ final = some SessionStore.expiredEvent := by
      simpa [Sample.unanswered] using hmem
    rcases hfinal with rfl | rfl
    · exact ⟨Doppelganger.Sample.waitingStore, rfl⟩
    · exact ⟨Server.init, rfl⟩
  have hlabels : ∀ l ∈ Sample.unanswered,
      undisturbed Doppelganger.Sample.sid l Sample.machine.init := by
    intro l hl
    refine ⟨?_, ?_, ?_, fun final hfinal => hchecks final (hfinal ▸ hl)⟩
    · rintro rfl
      simp [Sample.unanswered] at hl
    · rintro rfl
      simp [Sample.unanswered] at hl
    · rintro m rfl
      simp [Sample.unanswered] at hl
  have hquiet : Sample.machine.Run (undisturbed Doppelganger.Sample.sid) Sample.machine.init
      Sample.unanswered (Sample.machine.after Sample.unanswered) :=
    (hrun.of_labels hlabels).mono fun _ _ hl => hl.2
  exact ⟨hclosed, hbound.2.1 _ _ hquiet hclosed, hbound.2.2 _ _ hrun hclosed⟩

end Generator

end Doppelganger
