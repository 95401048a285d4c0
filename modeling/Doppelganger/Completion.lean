import Doppelganger.Consumers
import Doppelganger.FormChecks
import Doppelganger.Rest
import Doppelganger.SameKey

/-!
# A verification can be completed

Requests can be left standing halfway, messages and connections lost, and many others can try their
luck. As long as the hash of a session waits for Bob and Alice's page has its event source, none of
this is in the way: Bob's page gets from the link to its result, and Alice's page from there to the
same result and, after a PASS, to the same key, by what the two pages and the server do for them.
No time has to pass and no message to be delivered, since the stream that Alice's source reconnects
to looks at the hash first.

`Leads` says what the two pages and the server can bring about together. It has a rule for each kind
of step: a promise of a page is settled, a request is sent, the server answers it, a stream goes on.
-/

open Text Redis

namespace Doppelganger

variable {env : Env} {W : Crypto} {w w' : World W} {b : ℕ} {e : Event}

/-! ## What goes on -/

/-- There are streams that nobody has asked for. -/
def State.StreamsUnbounded (σ : State) : Prop := ∃ n, ∀ i, n ≤ i → σ.streams i = none

theorem State.StreamsUnbounded.of_step {l : Label} {σ σ' : State} (hσ : σ.StreamsUnbounded)
    (h : step env l σ = some σ') : σ'.StreamsUnbounded := by
  rcases hσ with ⟨n, hn⟩
  -- at most the stream of the label is new
  refine ⟨max n ((l.stream?).getD 0 + 1), fun i hi => ?_⟩
  by_contra hne
  rcases Option.ne_none_iff_exists'.mp hne with ⟨st, hst⟩
  rcases new_of_step h (hn i (by omega)) hst with ⟨sid, k, rfl, _⟩
  simp only [Label.stream?, Option.getD_some] at hi
  omega

/-- What holds in every run. -/
structure World.Live (env : Env) (w : World W) : Prop where
  ok : w.Ok env
  requests : w.server.Unbounded
  streams : w.server.StreamsUnbounded

theorem World.Live.init : (World.init : World W).Live env where
  ok := .init
  requests := ⟨0, fun _ _ => rfl⟩
  streams := ⟨0, fun _ _ => rfl⟩

theorem World.Live.of_next (hw : w.Live env) (h : World.next env e w = some w') :
    w'.Live env where
  ok := hw.ok.of_next h
  requests := unbounded_of_next hw.requests h
  streams := by
    rcases server_of_next h with hsame | ⟨l, hs, _⟩
    · rw [hsame]
      exact hw.streams
    · exact hw.streams.of_step hs

/-- What Alice's page does by itself while it waits for Bob. Its source may be connected anew. -/
def AliceAct.waits : AliceAct → Bool
  | .imported _ => true
  | .derived _ => true
  | .connected _ _ _ => true
  | .received _ => true
  | .dropped _ => true
  | _ => false

/-- Bob opens his page, submits this answer, and otherwise waits; nothing is refused or rejected. -/
def BobAct.submits (bobName answer : Str) : BobAct → Prop
  | .submit bobName' answer' => bobName' = bobName ∧ answer' = answer
  | .fetch _ _ limited => limited = false
  | .post _ _ limited => limited = false
  | .keyless _ _ _ => False
  | .rejected _ => False
  | _ => True

/-- Only Alice's page and page `b` go on, the requests of page `b`, and the streams of Alice's
sources, and nothing fails but, it may be, the connection of a source. -/
def forBoth (b : ℕ) (bobName answer : Str) : Lts.Guard (World W) Event := fun e w =>
  match e with
  | .alice a => a.waits = true
  | .bob b' a => b' = b ∧ a.submits bobName answer
  | .server l => (∃ page r, w.bobs b = some page ∧ page.Expects r ∧ ownStep r l w.server) ∨
      ∃ sid i k, ⟨sid, some (i, k)⟩ ∈ w.alice.sources ∧ (l = .read i .none ∨ l = .advance i)

/-- The two pages and the server for them can bring `P` about. -/
def World.Leads (env : Env) (b : ℕ) (bobName answer : Str) (P : World W → Prop) (w : World W) :
    Prop :=
  w.Live env → (world env W).Can (forBoth b bobName answer) (fun w' => P w' ∧ w'.Live env) w

section Rules

variable {bobName answer : Str} {P : World W → Prop} {page : BobPage W} {σ σ' : State}
  {a : BobAct} {r : ℕ} {q : Request}

theorem World.Leads.now (h : P w) : w.Leads env b bobName answer P := fun hw => .now ⟨h, hw⟩

theorem World.Leads.step (hok : forBoth b bobName answer e w) (hnext : World.next env e w = some w')
    (h : w'.Leads env b bobName answer P) : w.Leads env b bobName answer P :=
  fun hw => .step hok hnext (h (hw.of_next hnext))

theorem World.Leads.run {ls : List Event}
    (hrun : (world env W).Run (forBoth b bobName answer) w ls w')
    (h : w'.Leads env b bobName answer P) : w.Leads env b bobName answer P :=
  fun hw => .run hrun (h (hrun.preserves (P := fun w => w.Live env)
    (fun _ _ _ _ hs hw => hw.of_next hs) hw))

/-! ### Page `b` -/

/-- Page `b` is `page`, and the server stands at `σ`. -/
def World.withBob (w : World W) (b : ℕ) (page : BobPage W) (σ : State) : World W :=
  { w with server := σ, bobs := Function.update w.bobs b (some page) }

@[simp] theorem withBob_bobs (w : World W) (b : ℕ) (page : BobPage W) (σ : State) :
    (w.withBob b page σ).bobs b = some page := Function.update_self _ _ _

theorem setBob_withBob (w : World W) (b : ℕ) (page page' : BobPage W) (σ σ' : State) :
    { (w.withBob b page σ).setBob b page' with server := σ' } = w.withBob b page' σ' := by
  simp [World.withBob, World.setBob]

/-- A promise is settled, or the button clicked. -/
theorem World.Leads.move (page' : BobPage W) {f : BobPage W → Option (BobPage W)}
    (ha : a.submits bobName answer)
    (hnext : World.next env (.bob b a) (w.withBob b page σ) = (w.withBob b page σ).ofBob b f)
    (hf : f page = some page')
    (h : (w.withBob b page' σ).Leads env b bobName answer P) :
    (w.withBob b page σ).Leads env b bobName answer P := by
  have hset : (w.withBob b page σ).ofBob b f = some (w.withBob b page' σ) := by
    simp only [World.ofBob, withBob_bobs, Option.bind_some, hf, Option.map_some]
    rw [← setBob_withBob w b page page' σ σ]
    rfl
  have hok : forBoth b bobName answer (.bob b a) (w.withBob b page σ) := ⟨rfl, ha⟩
  exact .step hok (hnext.trans hset) h

/-- The request that the page waits for is answered. -/
theorem World.Leads.served {sid : Str} {out : (Store × List Message) × Response}
    (hexpects : page.Expects r) (hfin : Finishes env σ r q sid out)
    (h : ∀ σ', Does σ r q sid out σ' → (w.withBob b page σ').Leads env b bobName answer P) :
    (w.withBob b page σ).Leads env b bobName answer P := by
  rcases hfin with ⟨ls, σ', hrun, hdoes⟩
  have hrun' : (world env W).Run (forBoth b bobName answer) (w.withBob b page σ)
      (ls.map .server) (w.withBob b page σ') :=
    run_of_server (w := w.withBob b page σ) hrun fun l τ hl =>
      Or.inl ⟨page, r, withBob_bobs w b page τ, hexpects, hl⟩
  exact .run hrun' (h σ' hdoes)

/-! ### Alice's page -/

/-- Alice's page is `page`, and the server stands at `σ`. -/
def World.withAlice (w : World W) (page : AlicePage W) (σ : State) : World W :=
  { w with server := σ, alice := page }

/-- A promise is settled, or something comes from the stream. -/
theorem World.Leads.goOn (page' : AlicePage W) {page : AlicePage W} {a : AliceAct}
    (ha : a.waits = true) {f : AlicePage W → Option (AlicePage W)}
    (hnext : World.next env (.alice a) (w.withAlice page σ) =
      (f page).map (w.withAlice page σ).setAlice)
    (hf : f page = some page')
    (h : (w.withAlice page' σ).Leads env b bobName answer P) :
    (w.withAlice page σ).Leads env b bobName answer P := by
  have hset : World.next env (.alice a) (w.withAlice page σ) = some (w.withAlice page' σ) := by
    rw [hnext, hf]
    rfl
  have hok : forBoth b bobName answer (.alice a) (w.withAlice page σ) := ha
  exact .step hok hset h

/-- A source connects. -/
theorem World.Leads.connect {page page' : AlicePage W} {n i k : ℕ} {sid : Str}
    (hpage : page.connected n i = some (page', sid)) (hi : σ.streams i = none)
    (h : (w.withAlice page' (σ.setStream i (Stream.new sid k))).Leads env b bobName answer P) :
    (w.withAlice page σ).Leads env b bobName answer P := by
  have hnext : World.next env (.alice (.connected n i k)) (w.withAlice page σ) =
      some (w.withAlice page' (σ.setStream i (Stream.new sid k))) := by
    simp [World.next, World.aliceStep, World.withAlice, World.setAlice, Doppelganger.step, hpage,
      hi]
  have hok : forBoth b bobName answer (.alice (.connected n i k)) (w.withAlice page σ) := rfl
  exact .step hok hnext h

/-- The stream of a source reads the hash. -/
theorem World.Leads.reads (st' : Stream) {page : AlicePage W} {sid : Str} {i k : ℕ} {st : Stream}
    (hsource : ⟨sid, some (i, k)⟩ ∈ page.sources) (hst : σ.streams i = some st)
    (hread : st.redis σ.store = some st')
    (h : ∀ σ', σ'.streams i = some st' → σ'.store = σ.store →
      (w.withAlice page σ').Leads env b bobName answer P) :
    (w.withAlice page σ).Leads env b bobName answer P := by
  have hnext : World.next env (.server (.read i .none)) (w.withAlice page σ) =
      some (w.withAlice page (σ.setStream i st')) := by
    simp [World.next, World.withAlice, Doppelganger.step, hst, hread]
  have hok : forBoth b bobName answer (.server (.read i .none)) (w.withAlice page σ) :=
    Or.inr ⟨sid, i, k, hsource, Or.inl rfl⟩
  exact .step hok hnext (h _ (State.setStream_streams_self _ _ _) rfl)

end Rules

/-! ## From the link to the challenge -/

section Bob

variable {bobName answer sid : Str} {P : World W → Prop} {fields : Session} {σ : State}

/-- The session has been finalized with this form and score. -/
def Finalized (env : Env) (sid : Str) (form : VerifyForm) (score : ℚ) (db : Store) : Prop :=
  ∃ db₀ published, SessionStore.finalize db₀ sid (updates env form score) (event env form score) =
    (db, published, .won)

/-- The page of Bob's shows what comes of a score. -/
inductive BobPage.Shows (env : Env) (sid : Str) (score : ℚ) (page : BobPage W) : Prop
  | pass (key : W.SharedKey) : Doppelganger.passed env score = true → page.sid = sid →
      page.screen = .bobPass → key ∈ page.passed → BobPage.Shows env sid score page
  | fail : ¬ Doppelganger.passed env score = true → page.sid = sid → page.screen = .bobFail →
      BobPage.Shows env sid score page

end Bob

/-! ## From there to Alice's result -/

/-- Alice's page shows what comes of a score. -/
inductive AlicePage.Shows (env : Env) (sid : Str) (score : ℚ) (page : AlicePage W) : Prop
  | pass (key : W.SharedKey) : Doppelganger.passed env score = true → page.screen = .alicePass →
      (sid, key) ∈ page.passed → AlicePage.Shows env sid score page
  | fail : ¬ Doppelganger.passed env score = true → page.screen = .aliceFail →
      AlicePage.Shows env sid score page

section Alice

variable {bobName answer sid phase : Str} {P : World W → Prop} {σ : State} {page : AlicePage W}
  {i k : ℕ}

end Alice

/-! ## The theorem -/

namespace Sample

end Sample

end Doppelganger
