import Doppelganger.HubRouting

/-!
# The listener's loop

`_listen_forever`, call by call, with the hub and the queues of its process. Every call can return
or raise, what is caught or what is not. The message that a call to `get_message` returns is offered
to the queues in the same step: `put_nowait` does not wait, and what it raises is caught.

A client and a pubsub are known by a number here. `attempts` and `closed` are histories, the instants
at which a client was asked for and the objects whose `close` was called.
-/

open Text Redis

namespace Doppelganger

namespace ListenForever

/-- How a call ends. -/
inductive Outcome where
  | returns
  /-- With an exception that the thread catches. -/
  | raises
  /-- With one that it does not catch: no `Exception`, or any in the `except`. -/
  | stops
deriving DecidableEq

/-- The call the thread is in. -/
inductive Pc where
  /-- `redis.Redis.from_url`. -/
  | connecting
  /-- `client.pubsub`. -/
  | opening
  /-- `pubsub.psubscribe`. -/
  | subscribing
  /-- `pubsub.get_message`. -/
  | polling
  /-- `time.sleep(2)`, in the `except`. -/
  | sleeping (since : ℕ)
  /-- `pubsub.close`, in the `finally`; `dying` where an exception is on its way through it. -/
  | closingPubsub (dying : Bool)
  /-- `client.close`. -/
  | closingClient (dying : Bool)
  | ended
deriving DecidableEq

structure State where
  /-- The hub and its queues. -/
  hub : HubRouting.State
  now : ℕ
  pc : Pc
  client : Option ℕ
  pubsub : Option ℕ
  /-- The clients and pubsubs that have been made. -/
  made : ℕ
  closed : List ℕ
  attempts : List ℕ

inductive Label where
  /-- The call ends, and if it is `get_message`, without a message for the hub. -/
  | call (outcome : Outcome)
  /-- `get_message` returns a message of session `sid`; `list` of the set it finds is `order`. -/
  | message (sid data : Str) (order : List ℕ)
  /-- A stream calls the hub or reads its queue. -/
  | stream (l : HubRouting.Label)
  | tick (d : ℕ)
deriving DecidableEq

/-- What `sleep(2)` waits for, in milliseconds. -/
def pause : ℕ := 2000

namespace State

def init : State where
  hub := HubRouting.State.init
  now := 0
  pc := .connecting
  client := none
  pubsub := none
  made := 0
  closed := []
  attempts := []

/-- The body of the `try` goes on, or the exception is caught, or not. -/
def goOn (σ : State) (next : Pc) : Outcome → State
  | .returns => { σ with pc := next }
  | .raises => { σ with pc := .sleeping σ.now }
  | .stops => { σ with pc := .closingPubsub true }

/-- The end of the `finally`: the exception goes on, or the next round begins. -/
def leave (σ : State) (dying : Bool) : State :=
  if dying then { σ with pc := .ended }
  else { σ with pc := .connecting, client := none, pubsub := none }

/-- `closable.close()` for `closable`, if there is one; `next` is what follows. -/
def close (σ : State) (closable : Option ℕ) (next : State → State) : Outcome → Option State
  | .returns => some (next { σ with closed := σ.closed ++ closable.toList })
  | .raises => closable.map fun k => next { σ with closed := σ.closed ++ [k] }
  | .stops => closable.map fun k => { σ with closed := σ.closed ++ [k], pc := .ended }

/-- The call of the thread ends. -/
def call (outcome : Outcome) (σ : State) : Option State :=
  match σ.pc with
  | .connecting =>
    let σ := { σ with attempts := σ.attempts ++ [σ.now] }
    match outcome with
    | .returns => some { σ with pc := .opening, client := some σ.made, made := σ.made + 1 }
    | _ => some (σ.goOn .opening outcome)
  | .opening =>
    match outcome with
    | .returns => some { σ with pc := .subscribing, pubsub := some σ.made, made := σ.made + 1 }
    | _ => some (σ.goOn .subscribing outcome)
  | .subscribing => some (σ.goOn .polling outcome)
  -- nothing, or no `pmessage`
  | .polling => some (σ.goOn .polling outcome)
  | .sleeping since =>
    match outcome with
    | .returns => if since + pause ≤ σ.now then some { σ with pc := .closingPubsub false } else none
    | .raises => none
    | .stops => some { σ with pc := .closingPubsub true }
  | .closingPubsub dying => σ.close σ.pubsub (fun σ => { σ with pc := .closingClient dying }) outcome
  | .closingClient dying => σ.close σ.client (fun σ => σ.leave dying) outcome
  | .ended => none

def step : Label → State → Option State
  | .call outcome, σ => σ.call outcome
  | .message sid data order, σ =>
    if σ.pc = .polling then
      (HubRouting.State.step (.message sid data order) σ.hub).map fun hub => { σ with hub }
    else none
  | .stream l, σ =>
    match l with
    | .message _ _ _ => none
    | l => (HubRouting.State.step l σ.hub).map fun hub => { σ with hub }
  | .tick d, σ => some { σ with now := σ.now + d }

end State

def machine : Lts State Label := ⟨State.init, State.step⟩

/-! ## What a step does -/

variable {σ σ' : State} {l : Label}

inductive Moved (σ : State) : Label → State → Prop
  | client : σ.pc = .connecting → Moved σ (.call .returns)
      { σ with
        attempts := σ.attempts ++ [σ.now]
        pc := .opening
        client := some σ.made
        made := σ.made + 1 }
  | noClient (outcome : Outcome) (next : Pc) : σ.pc = .connecting → outcome ≠ .returns →
      Moved σ (.call outcome) (State.goOn { σ with attempts := σ.attempts ++ [σ.now] } next outcome)
  | pubsub : σ.pc = .opening → Moved σ (.call .returns)
      { σ with pc := .subscribing, pubsub := some σ.made, made := σ.made + 1 }
  | noPubsub (outcome : Outcome) (next : Pc) : σ.pc = .opening → outcome ≠ .returns →
      Moved σ (.call outcome) (σ.goOn next outcome)
  /-- `psubscribe` or `get_message`. -/
  | listened (outcome : Outcome) : σ.pc = .subscribing ∨ σ.pc = .polling →
      Moved σ (.call outcome) (σ.goOn .polling outcome)
  | slept (since : ℕ) : σ.pc = .sleeping since → since + pause ≤ σ.now →
      Moved σ (.call .returns) { σ with pc := .closingPubsub false }
  | woken (since : ℕ) : σ.pc = .sleeping since →
      Moved σ (.call .stops) { σ with pc := .closingPubsub true }
  | closedPubsub (outcome : Outcome) (dying : Bool) : σ.pc = .closingPubsub dying →
      outcome ≠ .stops → Moved σ (.call outcome)
        { σ with closed := σ.closed ++ σ.pubsub.toList, pc := .closingClient dying }
  | closedClient (outcome : Outcome) (dying : Bool) : σ.pc = .closingClient dying →
      outcome ≠ .stops → Moved σ (.call outcome)
        (State.leave { σ with closed := σ.closed ++ σ.client.toList } dying)
  /-- `close` is stopped. -/
  | cutPubsub (k : ℕ) (dying : Bool) : σ.pc = .closingPubsub dying → σ.pubsub = some k →
      Moved σ (.call .stops) { σ with closed := σ.closed ++ [k], pc := .ended }
  | cutClient (k : ℕ) (dying : Bool) : σ.pc = .closingClient dying → σ.client = some k →
      Moved σ (.call .stops) { σ with closed := σ.closed ++ [k], pc := .ended }
  | message (sid data : Str) (order : List ℕ) (hub : HubRouting.State) : σ.pc = .polling →
      HubRouting.State.step (.message sid data order) σ.hub = some hub →
      Moved σ (.message sid data order) { σ with hub }
  | stream (l : HubRouting.Label) (hub : HubRouting.State) :
      HubRouting.State.step l σ.hub = some hub → Moved σ (.stream l) { σ with hub }
  | tick (d : ℕ) : Moved σ (.tick d) { σ with now := σ.now + d }

/-- `close` is over, whatever `Exception` it raised, or it is stopped. -/
theorem close_cases {closable : Option ℕ} {next : State → State} {outcome : Outcome}
    (h : σ.close closable next outcome = some σ') :
    (outcome ≠ .stops ∧ σ' = next { σ with closed := σ.closed ++ closable.toList }) ∨
      ∃ k, closable = some k ∧ outcome = .stops ∧
        σ' = { σ with closed := σ.closed ++ [k], pc := .ended } := by
  cases outcome with
  | returns => exact Or.inl ⟨by simp, (Option.some.inj h).symm⟩
  | raises =>
    rcases Option.map_eq_some_iff.mp h with ⟨k, rfl, rfl⟩
    exact Or.inl ⟨by simp, rfl⟩
  | stops =>
    rcases Option.map_eq_some_iff.mp h with ⟨k, rfl, rfl⟩
    exact Or.inr ⟨k, rfl, rfl, rfl⟩

theorem moved_of_call {outcome : Outcome} (h : σ.call outcome = some σ') :
    Moved σ (.call outcome) σ' := by
  unfold State.call at h
  split at h
  case h_1 hpc =>
    cases outcome with
    | returns =>
      obtain rfl := Option.some.inj h
      exact .client hpc
    | _ =>
      obtain rfl := Option.some.inj h
      exact .noClient _ _ hpc (by simp)
  case h_2 hpc =>
    cases outcome with
    | returns =>
      obtain rfl := Option.some.inj h
      exact .pubsub hpc
    | _ =>
      obtain rfl := Option.some.inj h
      exact .noPubsub _ _ hpc (by simp)
  case h_3 hpc =>
    obtain rfl := Option.some.inj h
    exact .listened _ (Or.inl hpc)
  case h_4 hpc =>
    obtain rfl := Option.some.inj h
    exact .listened _ (Or.inr hpc)
  case h_5 since hpc =>
    cases outcome with
    | returns =>
      dsimp only at h
      split_ifs at h with hslept
      obtain rfl := Option.some.inj h
      exact .slept since hpc hslept
    | raises => cases h
    | stops =>
      obtain rfl := Option.some.inj h
      exact .woken since hpc
  case h_6 dying hpc =>
    rcases close_cases h with ⟨hout, rfl⟩ | ⟨k, hk, rfl, rfl⟩
    · exact .closedPubsub _ dying hpc hout
    · exact .cutPubsub k dying hpc hk
  case h_7 dying hpc =>
    rcases close_cases h with ⟨hout, rfl⟩ | ⟨k, hk, rfl, rfl⟩
    · exact .closedClient _ dying hpc hout
    · exact .cutClient k dying hpc hk
  case h_8 => cases h

theorem moved_of_step (h : State.step l σ = some σ') : Moved σ l σ' := by
  cases l with
  | call outcome => exact moved_of_call h
  | message sid data order =>
    simp only [State.step] at h
    split_ifs at h with hpc
    rcases Option.map_eq_some_iff.mp h with ⟨hub, hhub, rfl⟩
    exact .message sid data order hub hpc hhub
  | stream l =>
    have hmap : (HubRouting.State.step l σ.hub).map (fun hub => { σ with hub }) = some σ' := by
      cases l with
      | message sid data order => cases h
      | _ => exact h
    rcases Option.map_eq_some_iff.mp hmap with ⟨hub, hhub, rfl⟩
    exact .stream l hub hhub
  | tick d =>
    obtain rfl := Option.some.inj h
    exact .tick d

/-! ## Connections -/

/-- What has been made is closed or held, and nothing is closed twice. -/
structure Tidy (σ : State) : Prop where
  kept : ∀ k < σ.made, k ∈ σ.closed ∨ σ.client = some k ∨ σ.pubsub = some k
  once : σ.closed.Nodup
  known : ∀ k ∈ σ.closed, k < σ.made
  client : ∀ k, σ.client = some k → k < σ.made ∧ σ.pubsub ≠ some k ∧
    (σ.pc ≠ .ended → k ∉ σ.closed)
  pubsub : ∀ k, σ.pubsub = some k → k < σ.made ∧
    (σ.pc ≠ .ended → (∀ dying, σ.pc ≠ .closingClient dying) → k ∉ σ.closed)
  connecting : σ.pc = .connecting → σ.client = none ∧ σ.pubsub = none
  opening : σ.pc = .opening → σ.pubsub = none
  closing : ∀ dying, σ.pc = .closingClient dying → ∀ k, σ.pubsub = some k → k ∈ σ.closed

namespace Tidy

theorem init : Tidy State.init := by
  constructor <;> simp [State.init]

/-- A step that makes nothing, closes nothing and keeps what it holds. -/
theorem congr (ht : Tidy σ) {pc : Pc} {hub : HubRouting.State} {now : ℕ} {attempts : List ℕ}
    (hended : pc ≠ .ended → σ.pc ≠ .ended)
    (hclosing : ∀ dying, pc = .closingClient dying ↔ σ.pc = .closingClient dying)
    (hconnecting : pc = .connecting → σ.pc = .connecting)
    (hopening : pc = .opening → σ.pc = .opening) :
    Tidy { σ with pc, hub, now, attempts } where
  kept := ht.kept
  once := ht.once
  known := ht.known
  client := by
    intro k hk
    rcases ht.client k hk with ⟨hlt, hne, hopen⟩
    exact ⟨hlt, hne, fun he => hopen (hended he)⟩
  pubsub := by
    intro k hk
    rcases ht.pubsub k hk with ⟨hlt, hopen⟩
    exact ⟨hlt, fun he hc => hopen (hended he) fun dying hpc => hc dying ((hclosing dying).mpr hpc)⟩
  connecting := fun he => ht.connecting (hconnecting he)
  opening := fun he => ht.opening (hopening he)
  closing := fun dying he => ht.closing dying ((hclosing dying).mp he)

theorem goOn (ht : Tidy σ) {next : Pc} {outcome : Outcome} {attempts : List ℕ}
    (hpc : σ.pc ≠ .ended ∧ ∀ dying, σ.pc ≠ .closingClient dying)
    (hnext : outcome = .returns →
      next ≠ .connecting ∧ next ≠ .opening ∧ ∀ dying, next ≠ .closingClient dying) :
    Tidy (State.goOn { σ with attempts } next outcome) := by
  cases outcome with
  | returns =>
    exact ht.congr (fun _ => hpc.1) (fun dying => ⟨fun he => absurd he ((hnext rfl).2.2 dying),
        fun he => absurd he (hpc.2 dying)⟩) (fun he => absurd he (hnext rfl).1)
      (fun he => absurd he (hnext rfl).2.1)
  | raises => exact ht.congr (fun _ => hpc.1) (by simp [hpc.2]) nofun nofun
  | stops => exact ht.congr (fun _ => hpc.1) (by simp [hpc.2]) nofun nofun

/-- A new object takes the place of none. -/
theorem kept_succ (hkept : ∀ k < σ.made, k ∈ σ.closed ∨ σ.client = some k ∨ σ.pubsub = some k)
    {client pubsub : Option ℕ} (hclient : ∀ k, σ.client = some k → client = some k)
    (hpubsub : ∀ k, σ.pubsub = some k → pubsub = some k)
    (hnew : client = some σ.made ∨ pubsub = some σ.made) :
    ∀ k < σ.made + 1, k ∈ σ.closed ∨ client = some k ∨ pubsub = some k := by
  intro k hk
  rcases Nat.lt_succ_iff_lt_or_eq.mp hk with hlt | rfl
  · rcases hkept k hlt with hclosed | hheld | hheld
    · exact Or.inl hclosed
    · exact Or.inr (Or.inl (hclient k hheld))
    · exact Or.inr (Or.inr (hpubsub k hheld))
  · exact Or.inr hnew

/-- Closing what is held and not closed yet. -/
theorem once_close (ht : Tidy σ) {closable : Option ℕ}
    (hopen : ∀ k, closable = some k → k ∉ σ.closed) :
    (σ.closed ++ closable.toList).Nodup := by
  cases closable with
  | none => simpa using ht.once
  | some k =>
    rw [Option.toList_some, List.nodup_append_comm]
    exact List.nodup_cons.mpr ⟨hopen k rfl, ht.once⟩

theorem known_close (ht : Tidy σ) {closable : Option ℕ}
    (hlt : ∀ k, closable = some k → k < σ.made) :
    ∀ k ∈ σ.closed ++ closable.toList, k < σ.made := by
  intro k hk
  rcases List.mem_append.mp hk with hold | hnew
  · exact ht.known k hold
  · exact hlt k (Option.mem_toList.mp hnew)

/-- The thread ends in the middle of a `close`. -/
theorem cut (ht : Tidy σ) {k : ℕ} (hopen : ∀ j, some k = some j → j ∉ σ.closed)
    (hlt : ∀ j, some k = some j → j < σ.made) :
    Tidy { σ with closed := σ.closed ++ [k], pc := .ended } where
  kept := fun j hj => (ht.kept j hj).imp_left (List.mem_append_left _)
  once := ht.once_close hopen
  known := ht.known_close hlt
  client := fun j hj => ⟨(ht.client j hj).1, (ht.client j hj).2.1, fun he => absurd rfl he⟩
  pubsub := fun j hj => ⟨(ht.pubsub j hj).1, fun he => absurd rfl he⟩
  connecting := nofun
  opening := nofun
  closing := nofun

theorem of_step (ht : Tidy σ) (h : Moved σ l σ') : Tidy σ' := by
  cases h with
  | client hpc =>
    rcases ht.connecting hpc with ⟨hclient, hpubsub⟩
    constructor
    · exact kept_succ ht.kept (by simp [hclient]) (fun k hk => hk) (Or.inl rfl)
    · exact ht.once
    · exact fun k hk => (ht.known k hk).trans (Nat.lt_succ_self _)
    · rintro _ ⟨⟩
      refine ⟨Nat.lt_succ_self _, by simp [hpubsub], fun _ hmem => ?_⟩
      exact absurd (ht.known _ hmem) (lt_irrefl _)
    · intro k hk
      rw [hpubsub] at hk
      cases hk
    · nofun
    · exact fun _ => hpubsub
    · nofun
  | noClient outcome next hpc hout =>
    exact ht.goOn (by simp [hpc]) fun he => absurd he hout
  | pubsub hpc =>
    have hpubsub := ht.opening hpc
    constructor
    · exact kept_succ ht.kept (fun k hk => hk) (by simp [hpubsub]) (Or.inr rfl)
    · exact ht.once
    · exact fun k hk => (ht.known k hk).trans (Nat.lt_succ_self _)
    · intro k hk
      rcases ht.client k hk with ⟨hlt, _, hopen⟩
      refine ⟨hlt.trans (Nat.lt_succ_self _), ?_, fun _ => hopen (by simp [hpc])⟩
      rintro ⟨⟩
      exact lt_irrefl _ hlt
    · rintro _ ⟨⟩
      refine ⟨Nat.lt_succ_self _, fun _ _ hmem => ?_⟩
      exact absurd (ht.known _ hmem) (lt_irrefl _)
    · nofun
    · nofun
    · nofun
  | noPubsub outcome next hpc hout =>
    exact ht.goOn (by simp [hpc]) fun he => absurd he hout
  | listened outcome hpc =>
    refine ht.goOn ?_ fun _ => by simp
    rcases hpc with hpc | hpc <;> simp [hpc]
  | slept since hpc _ => exact ht.congr (by simp [hpc]) (by simp [hpc]) nofun nofun
  | woken since hpc => exact ht.congr (by simp [hpc]) (by simp [hpc]) nofun nofun
  | closedPubsub outcome dying hpc _ =>
    have hopen : ∀ k, σ.pubsub = some k → k ∉ σ.closed :=
      fun k hk => (ht.pubsub k hk).2 (by simp [hpc]) (by simp [hpc])
    constructor
    · intro k hk
      rcases ht.kept k hk with hclosed | hheld | hheld
      · exact Or.inl (List.mem_append_left _ hclosed)
      · exact Or.inr (Or.inl hheld)
      · exact Or.inl (List.mem_append_right _ (by simp [hheld]))
    · exact ht.once_close hopen
    · exact ht.known_close fun k hk => (ht.pubsub k hk).1
    · intro k hk
      rcases ht.client k hk with ⟨hlt, hne, hopen'⟩
      refine ⟨hlt, hne, fun _ hmem => ?_⟩
      rcases List.mem_append.mp hmem with hold | hnew
      · exact hopen' (by simp [hpc]) hold
      · exact hne (Option.mem_toList.mp hnew)
    · exact fun k hk => ⟨(ht.pubsub k hk).1, fun _ hno => absurd rfl (hno dying)⟩
    · nofun
    · nofun
    · exact fun _ _ k hk => List.mem_append_right _ (by simpa using hk)
  | closedClient outcome dying hpc _ =>
    have hopen : ∀ k, σ.client = some k → k ∉ σ.closed :=
      fun k hk => (ht.client k hk).2.2 (by simp [hpc])
    have hlt : ∀ k, σ.client = some k → k < σ.made := fun k hk => (ht.client k hk).1
    have hall : ∀ k < σ.made, k ∈ σ.closed ++ σ.client.toList := by
      intro k hk
      rcases ht.kept k hk with hclosed | hheld | hheld
      · exact List.mem_append_left _ hclosed
      · exact List.mem_append_right _ (by simp [hheld])
      · exact List.mem_append_left _ (ht.closing dying hpc k hheld)
    cases dying with
    | true =>
      exact
      { kept := fun k hk => Or.inl (hall k hk)
        once := ht.once_close hopen
        known := ht.known_close hlt
        client := fun k hk => ⟨hlt k hk, (ht.client k hk).2.1, fun he => absurd rfl he⟩
        pubsub := fun k hk => ⟨(ht.pubsub k hk).1, fun he => absurd rfl he⟩
        connecting := nofun
        opening := nofun
        closing := nofun }
    | false =>
      exact
      { kept := fun k hk => Or.inl (hall k hk)
        once := ht.once_close hopen
        known := ht.known_close hlt
        client := nofun
        pubsub := nofun
        connecting := fun _ => ⟨rfl, rfl⟩
        opening := nofun
        closing := nofun }
  | cutPubsub k dying hpc hk =>
    have hopen : ∀ j, some k = some j → j ∉ σ.closed := by
      rintro _ ⟨⟩
      exact (ht.pubsub k hk).2 (by simp [hpc]) (by simp [hpc])
    exact ht.cut hopen fun _ hj => (Option.some.inj hj) ▸ (ht.pubsub k hk).1
  | cutClient k dying hpc hk =>
    have hopen : ∀ j, some k = some j → j ∉ σ.closed := by
      rintro _ ⟨⟩
      exact (ht.client k hk).2.2 (by simp [hpc])
    exact ht.cut hopen fun _ hj => (Option.some.inj hj) ▸ (ht.client k hk).1
  | message | stream | tick =>
    exact ht.congr (fun he => he) (fun _ => Iff.rfl) (fun he => he) fun he => he

end Tidy

/-! ## The pace of the attempts -/

/-- The next attempt can be made as far as the clock is concerned. -/
def State.Rested (σ : State) : Prop :=
  σ.pc = .connecting ∨ σ.pc = .closingPubsub false ∨ σ.pc = .closingClient false

structure Paced (σ : State) : Prop where
  spaced : σ.attempts.Pairwise fun a b => a + pause ≤ b
  past : ∀ a ∈ σ.attempts, a ≤ σ.now
  sleeping : ∀ since, σ.pc = .sleeping since → since ≤ σ.now ∧ ∀ a ∈ σ.attempts, a ≤ since
  rested : σ.Rested → ∀ a ∈ σ.attempts, a + pause ≤ σ.now

namespace Paced

theorem init : Paced State.init := by
  constructor <;> simp [State.init]

theorem goOn (hspaced : σ.attempts.Pairwise fun a b => a + pause ≤ b)
    (hpast : ∀ a ∈ σ.attempts, a ≤ σ.now) {next : Pc} {outcome : Outcome}
    (hnext : outcome = .returns → next = .polling) : Paced (σ.goOn next outcome) := by
  cases outcome with
  | returns =>
    obtain rfl := hnext rfl
    exact ⟨hspaced, hpast, nofun, by simp [State.Rested, State.goOn]⟩
  | raises =>
    refine ⟨hspaced, hpast, ?_, by simp [State.Rested, State.goOn]⟩
    rintro _ ⟨⟩
    exact ⟨le_rfl, hpast⟩
  | stops => exact ⟨hspaced, hpast, nofun, by simp [State.Rested, State.goOn]⟩

/-- Another attempt, where the last one is long enough ago. -/
theorem attempt (hp : Paced σ) (hrested : σ.Rested) :
    (σ.attempts ++ [σ.now]).Pairwise (fun a b => a + pause ≤ b) ∧
      ∀ a ∈ σ.attempts ++ [σ.now], a ≤ σ.now := by
  constructor
  · rw [List.pairwise_append]
    refine ⟨hp.spaced, List.pairwise_singleton _ _, ?_⟩
    intro a ha b hb
    rw [List.mem_singleton.mp hb]
    exact hp.rested hrested a ha
  · intro a ha
    rcases List.mem_append.mp ha with hold | hnew
    · exact hp.past a hold
    · exact (List.mem_singleton.mp hnew).le

theorem of_step (hp : Paced σ) (h : Moved σ l σ') : Paced σ' := by
  cases h with
  | client hpc =>
    rcases hp.attempt (Or.inl hpc) with ⟨hspaced, hpast⟩
    exact ⟨hspaced, hpast, nofun, by simp [State.Rested]⟩
  | noClient outcome next hpc hout =>
    rcases hp.attempt (Or.inl hpc) with ⟨hspaced, hpast⟩
    exact goOn hspaced hpast fun he => absurd he hout
  | pubsub hpc => exact ⟨hp.spaced, hp.past, nofun, by simp [State.Rested]⟩
  | noPubsub outcome next hpc hout => exact goOn hp.spaced hp.past fun he => absurd he hout
  | listened outcome hpc => exact goOn hp.spaced hp.past fun _ => rfl
  | slept since hpc hslept =>
    refine ⟨hp.spaced, hp.past, nofun, ?_⟩
    -- the attempt that failed was made before the pause
    intro _ a ha
    exact (Nat.add_le_add_right ((hp.sleeping since hpc).2 a ha) pause).trans hslept
  | woken since hpc => exact ⟨hp.spaced, hp.past, nofun, by simp [State.Rested]⟩
  | closedPubsub outcome dying hpc _ =>
    refine ⟨hp.spaced, hp.past, nofun, ?_⟩
    intro hrested
    obtain rfl : dying = false := by simpa [State.Rested] using hrested
    exact hp.rested (Or.inr (Or.inl hpc))
  | closedClient outcome dying hpc _ =>
    cases dying with
    | true => exact ⟨hp.spaced, hp.past, nofun, by simp [State.Rested, State.leave]⟩
    | false => exact ⟨hp.spaced, hp.past, nofun, fun _ => hp.rested (Or.inr (Or.inr hpc))⟩
  | cutPubsub | cutClient => exact ⟨hp.spaced, hp.past, nofun, by simp [State.Rested]⟩
  | message | stream => exact ⟨hp.spaced, hp.past, hp.sleeping, hp.rested⟩
  | tick d =>
    refine ⟨hp.spaced, ?_, ?_, ?_⟩
    · exact fun a ha => (hp.past a ha).trans (Nat.le_add_right _ _)
    · exact fun since hpc => (hp.sleeping since hpc).imp_left fun hle => Nat.le_add_right_of_le hle
    · exact fun hrested a ha => (hp.rested hrested a ha).trans (Nat.le_add_right _ _)

end Paced

/-! ## The thread goes on -/

/-- Nothing is raised that the thread does not catch. -/
def caught : Lts.Guard State Label := fun l _ => l ≠ .call .stops

/-- The thread will go on. -/
def State.Alive (σ : State) : Prop :=
  σ.pc ≠ .ended ∧ σ.pc ≠ .closingPubsub true ∧ σ.pc ≠ .closingClient true

theorem alive_goOn {next : Pc} {outcome : Outcome} (hout : outcome ≠ .stops)
    (hnext : outcome = .returns → next = .polling) : (σ.goOn next outcome).Alive := by
  cases outcome with
  | returns =>
    obtain rfl := hnext rfl
    simp [State.Alive, State.goOn]
  | raises => simp [State.Alive, State.goOn]
  | stops => exact absurd rfl hout

theorem alive_of_step (ha : σ.Alive) (hok : caught l σ) (h : Moved σ l σ') : σ'.Alive := by
  have hout : ∀ outcome, l = .call outcome → outcome ≠ .stops := by
    rintro outcome rfl rfl
    exact hok rfl
  cases h with
  | client | pubsub | slept => simp [State.Alive]
  | noClient outcome next hpc hne => exact alive_goOn (hout _ rfl) fun he => absurd he hne
  | noPubsub outcome next hpc hne => exact alive_goOn (hout _ rfl) fun he => absurd he hne
  | listened outcome hpc => exact alive_goOn (hout _ rfl) fun _ => rfl
  | closedPubsub outcome dying hpc _ =>
    cases dying with
    | true => exact absurd hpc ha.2.1
    | false => simp [State.Alive]
  | closedClient outcome dying hpc _ =>
    cases dying with
    | true => exact absurd hpc ha.2.2
    | false => simp [State.Alive, State.leave]
  | woken | cutPubsub | cutClient => exact absurd rfl hok
  | message | stream | tick => exact ha

/-- In at most `n` steps of its own and of the clock the thread is back at `get_message`. -/
def State.Recovers (n : ℕ) (σ : State) : Prop :=
  ∃ ls σ', machine.Run caught σ ls σ' ∧ σ'.pc = .polling ∧ σ'.hub = σ.hub ∧ ls.length ≤ n

theorem State.Recovers.step {n : ℕ} (h : σ'.Recovers n) (hs : State.step l σ = some σ')
    (hok : caught l σ) (hhub : σ'.hub = σ.hub) : σ.Recovers (n + 1) := by
  rcases h with ⟨ls, τ, hrun, hpc, hhub', hlen⟩
  exact ⟨l :: ls, τ, .cons hok hs hrun, hpc, hhub'.trans hhub, Nat.succ_le_succ hlen⟩

/-- A call returns. -/
theorem recovers_of_call {n : ℕ} (h : σ'.Recovers n) (hs : σ.call .returns = some σ')
    (hhub : σ'.hub = σ.hub) : σ.Recovers (n + 1) :=
  h.step (l := .call .returns) hs (by simp [caught]) hhub

theorem recovers_of_subscribing (hpc : σ.pc = .subscribing) : σ.Recovers 1 := by
  have hpolling : (σ.goOn .polling .returns).Recovers 0 := ⟨[], _, .nil _, rfl, rfl, le_rfl⟩
  exact recovers_of_call hpolling (by simp [State.call, hpc]) rfl

theorem recovers_of_opening (hpc : σ.pc = .opening) : σ.Recovers 2 := by
  have hs : σ.call .returns =
      some { σ with pc := .subscribing, pubsub := some σ.made, made := σ.made + 1 } := by
    simp [State.call, hpc]
  exact recovers_of_call (recovers_of_subscribing rfl) hs rfl

theorem recovers_of_connecting (hpc : σ.pc = .connecting) : σ.Recovers 3 := by
  have hs : σ.call .returns =
      some { σ with
        attempts := σ.attempts ++ [σ.now]
        pc := .opening
        client := some σ.made
        made := σ.made + 1 } := by
    simp [State.call, hpc]
  exact recovers_of_call (recovers_of_opening rfl) hs rfl

theorem recovers_of_closingClient (hpc : σ.pc = .closingClient false) : σ.Recovers 4 := by
  have hs : σ.call .returns =
      some (State.leave { σ with closed := σ.closed ++ σ.client.toList } false) := by
    simp [State.call, hpc, State.close]
  exact recovers_of_call (recovers_of_connecting rfl) hs rfl

theorem recovers_of_closingPubsub (hpc : σ.pc = .closingPubsub false) : σ.Recovers 5 := by
  have hs : σ.call .returns =
      some { σ with closed := σ.closed ++ σ.pubsub.toList, pc := .closingClient false } := by
    simp [State.call, hpc, State.close]
  exact recovers_of_call (recovers_of_closingClient rfl) hs rfl

theorem recovers_of_sleeping {since : ℕ} (hpc : σ.pc = .sleeping since) (hpast : since ≤ σ.now) :
    σ.Recovers 7 := by
  have hs : State.call .returns { σ with now := σ.now + pause } =
      some { σ with now := σ.now + pause, pc := .closingPubsub false } := by
    simp [State.call, hpc, hpast]
  have hwoken : State.Recovers 6 { σ with now := σ.now + pause } :=
    recovers_of_call (recovers_of_closingPubsub rfl) hs rfl
  exact hwoken.step (l := .tick pause) rfl (by simp [caught]) rfl

theorem recovers (hp : Paced σ) (ha : σ.Alive) : σ.Recovers 7 := by
  have hmore : ∀ {n}, n ≤ 7 → σ.Recovers n → σ.Recovers 7 := by
    rintro n hn ⟨ls, τ, hrun, hpc, hhub, hlen⟩
    exact ⟨ls, τ, hrun, hpc, hhub, hlen.trans hn⟩
  cases hpc : σ.pc with
  | connecting => exact hmore (by omega) (recovers_of_connecting hpc)
  | opening => exact hmore (by omega) (recovers_of_opening hpc)
  | subscribing => exact hmore (by omega) (recovers_of_subscribing hpc)
  | polling => exact ⟨[], σ, .nil σ, hpc, rfl, Nat.zero_le _⟩
  | sleeping since => exact recovers_of_sleeping hpc (hp.sleeping since hpc).1
  | closingPubsub dying =>
    cases dying with
    | true => exact absurd hpc ha.2.1
    | false => exact hmore (by omega) (recovers_of_closingPubsub hpc)
  | closingClient dying =>
    cases dying with
    | true => exact absurd hpc ha.2.2
    | false => exact hmore (by omega) (recovers_of_closingClient hpc)
  | ended => exact absurd hpc ha.1

/-! ## Any run -/

/-- What the hub and its queues are asked to do at a step. -/
def heard : Label → State → Option HubRouting.Label
  | .message sid data order, _ => some (.message sid data order)
  | .stream l, _ => some l
  | _, _ => none

theorem hub_of_step (h : Moved σ l σ') : (heard l σ = none ∧ σ'.hub = σ.hub) ∨
    ∃ l' hub, heard l σ = some l' ∧ HubRouting.State.step l' σ.hub = some hub ∧ σ'.hub = hub := by
  cases h with
  | message sid data order hub _ hs => exact Or.inr ⟨_, hub, rfl, hs, rfl⟩
  | stream l hub hs => exact Or.inr ⟨l, hub, rfl, hs, rfl⟩
  | noClient outcome | noPubsub outcome | listened outcome =>
    left
    cases outcome <;> exact ⟨rfl, rfl⟩
  | closedClient outcome dying =>
    left
    cases dying <;> exact ⟨rfl, rfl⟩
  | _ => exact Or.inl ⟨rfl, rfl⟩

/-- Instants that are `d` apart are no more than fit. -/
theorem length_le_of_spaced {d now : ℕ} {instants : List ℕ} (hd : 0 < d)
    (hspaced : instants.Pairwise fun a b => a + d ≤ b) (hpast : ∀ a ∈ instants, a ≤ now) :
    instants.length ≤ now / d + 1 := by
  induction instants using List.reverseRecOn generalizing now with
  | nil => exact Nat.zero_le _
  | append_singleton instants b ih =>
    rw [List.pairwise_append] at hspaced
    rcases hspaced with ⟨hspaced, _, hlast⟩
    have hb : b ≤ now := hpast b (by simp)
    rcases instants.eq_nil_or_concat with rfl | ⟨before, a, hlist⟩
    · simp
    · have ha : a + d ≤ b := hlast a (by simp [hlist]) b (by simp)
      have hlen : instants.length ≤ (b - d) / d + 1 := by
        refine ih hspaced fun a' ha' => ?_
        have hle := hlast a' ha' b (by simp)
        omega
      have hdiv : (b - d) / d + 1 ≤ now / d := by
        rw [← Nat.add_div_right _ hd, Nat.sub_add_cancel (by omega)]
        exact Nat.div_le_div_right hb
      rw [List.length_append, List.length_singleton]
      omega

/-- However often Redis is lost, and whatever else happens: nothing that was opened is left open but
the client and the pubsub in hand, and nothing is closed twice; two attempts to connect are at least
two seconds apart, so there are few; the hub and its queues go through a run of the hub alone. And
as long as nothing is raised that the thread does not catch, it can get back to listening within seven
steps, one of them the clock's. -/
theorem keeps_listening {ls : List Label} (h : machine.Run Lts.anyStep State.init ls σ) :
    ((∀ k < σ.made, k ∈ σ.closed ∨ σ.client = some k ∨ σ.pubsub = some k) ∧ σ.closed.Nodup) ∧
    (σ.attempts.Pairwise (fun a b => a + pause ≤ b) ∧ σ.attempts.length ≤ σ.now / pause + 1) ∧
    HubRouting.machine.Run Lts.anyStep HubRouting.State.init
      (machine.project heard ls State.init) σ.hub ∧
    (machine.Run caught State.init ls σ → σ.Recovers 7) := by
  have htidy : Tidy σ := h.invariant .init fun _ _ _ _ hs ht => ht.of_step (moved_of_step hs)
  have hpaced : Paced σ := h.invariant .init fun _ _ _ _ hs hp => hp.of_step (moved_of_step hs)
  refine ⟨⟨htidy.kept, htidy.once⟩, ⟨hpaced.spaced, ?_⟩, ?_, ?_⟩
  · exact length_le_of_spaced (by decide) hpaced.spaced hpaced.past
  · have hstep : ∀ l s t hub, Lts.anyStep l s → machine.step l s = some t → s.hub = hub →
        (heard l s = none ∧ t.hub = hub) ∨ ∃ l' hub', heard l s = some l' ∧
          HubRouting.machine.step l' hub = some hub' ∧ t.hub = hub' := by
      rintro l s t _ _ hs rfl
      exact hub_of_step (moved_of_step hs)
    rcases h.project hstep rfl with ⟨hub, hrun, rfl⟩
    exact hrun
  · intro hrun
    have hinit : State.Alive State.init := by simp [State.Alive, State.init]
    exact recovers hpaced
      (hrun.invariant hinit fun _ _ _ hok hs ha => alive_of_step ha hok (moved_of_step hs))

/-- A stream of session `sid` waits; the listener is lost while it polls, and again while it connects.
-/
def Sample.lost : List Label :=
  [.stream (.subscribe (lit "s1") 0), .call .returns, .call .returns, .call .returns,
    .message (lit "s1") (lit "1") [0], .call .raises, .tick 2500, .call .returns,
    .call .raises, .call .returns, .call .raises]

/-- It applies: the client and the pubsub of the first connection are closed, and the queue has its
message. -/
theorem keeps_listening_sample :
    let σ := machine.after Sample.lost
    σ.made = 2 ∧ σ.attempts = [0, 2500] ∧ σ.hub.content 0 = [lit "1"] ∧
      (∀ k < σ.made, k ∈ σ.closed ∨ σ.client = some k ∨ σ.pubsub = some k) ∧ σ.Recovers 7 := by
  intro σ
  have hrun : machine.Run Lts.anyStep State.init Sample.lost σ :=
    Lts.run_after _ _ (by decide +kernel)
  have hmade : σ.made = 2 ∧ σ.attempts = [0, 2500] ∧ σ.hub.content 0 = [lit "1"] := by
    decide +kernel
  clear_value σ
  have hcaught : machine.Run caught State.init Sample.lost σ := by
    refine (hrun.of_labels (p := fun l => l ≠ .call .stops) ?_).mono fun _ _ h => h.2
    decide
  rcases keeps_listening hrun with ⟨⟨hkept, _⟩, _, _, hrecovers⟩
  exact ⟨hmade.1, hmade.2.1, hmade.2.2, hkept, hrecovers hcaught⟩

end ListenForever

end Doppelganger
