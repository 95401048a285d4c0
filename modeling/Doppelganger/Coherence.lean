import Doppelganger.Lifetime
import Doppelganger.Scoring

/-!
# Phase and fields of a session hash

The fields of a hash are strings, written by `create` and by the script of the one
verify request that wins, and parsed by `terminal_event`, by `verify` and by the
winner's own answer. `Coherent` says what they hold in each phase.

The histories determine the hash (`Inv.stored`), so `coherent_fields` is a statement
about one creation and at most one winner; that the parsers never fail, and that a
finished hash does not change, follow from it.
-/

open Text Redis

namespace Doppelganger

/-- `round(x, 4)`. -/
def fourDecimals (x : ℚ) : ℚ := (roundEven (x * 10000) : ℚ) / 10000

/-- The fields that only `create` writes. -/
def creatorFields : List Field :=
  [.aliceName, .memoryQuestion, .answerEmbedding, .alicePubkeyJwk, .createdAt]

/-- What a session hash holds in each phase; `created` is the hash that `create` wrote. -/
structure Coherent (env : Env) (created fields : Session) : Prop where
  phase : fields .phase = some waitingForBob ∨ fields .phase = some verified ∨
    fields .phase = some failed
  whileWaiting : fields .phase = some waitingForBob →
    fields .bobName = some [] ∧ fields .bobPubkeyJwk = some [] ∧
      fields .similarityScore = some []
  onceVerified : fields .phase = some verified →
    (∃ name, fields .bobName = some name ∧ strip name ≠ []) ∧
    (∃ text jwk, fields .bobPubkeyJwk = some text ∧ Json.loads text = some jwk ∧
      jwk.isObj = true ∧ isP256 jwk = true) ∧
    ∃ text x, fields .similarityScore = some text ∧ pyFloat text = some x ∧
      fourDecimals env.similarityThreshold ≤ x
  onceFailed : fields .phase = some failed →
    fields .bobName = some [] ∧ fields .bobPubkeyJwk = some [] ∧
    ∃ text x, fields .similarityScore = some text ∧ pyFloat text = some x
  asCreated : ∀ f ∈ creatorFields, fields f = created f

/-- Rounding keeps the order. -/
theorem fourDecimals_mono {x y : ℚ} (h : x ≤ y) : fourDecimals x ≤ fourDecimals y := by
  have hscaled : x * 10000 ≤ y * 10000 := by linarith
  have hround := (roundEven_roundsTo (x * 10000)).mono (roundEven_roundsTo (y * 10000)) hscaled
  have hcast : (roundEven (x * 10000) : ℚ) ≤ roundEven (y * 10000) := by exact_mod_cast hround
  unfold fourDecimals
  linarith

/-! ## One creation, at most one winner -/

section
variable (env : Env) (c : Creation)

theorem coherent_session : Coherent env c.session c.session where
  phase := Or.inl rfl
  whileWaiting := fun _ => ⟨rfl, rfl, rfl⟩
  onceVerified := by
    intro h
    exact absurd (Option.some.inj (h.symm.trans c.session_phase)) verified_ne_waiting
  onceFailed := by
    intro h
    exact absurd (Option.some.inj (h.symm.trans c.session_phase)) failed_ne_waiting
  asCreated := fun _ _ => rfl

theorem fields_similarityScore (k : Commit) :
    c.fields env (some k) .similarityScore = some (scoreText k.score) := by
  by_cases hp : passed env k.score = true <;> simp [Creation.fields, updates, hp, Hash.write]

/-- The winner leaves the creator's fields alone. -/
theorem fields_asCreated (k : Commit) {f : Field} (hf : f ∈ creatorFields) :
    c.fields env (some k) f = c.session f := by
  simp only [creatorFields, List.mem_cons, List.not_mem_nil, or_false] at hf
  rcases hf with rfl | rfl | rfl | rfl | rfl <;>
    by_cases hp : passed env k.score = true <;>
    simp [Creation.fields, updates, hp, Hash.write]

theorem coherent_passed {k : Commit} (hvalid : k.form.Valid) (hp : passed env k.score = true) :
    Coherent env c.session (c.fields env (some k)) := by
  have hphase : c.fields env (some k) .phase = some verified := by
    rw [Creation.fields_some_phase, if_pos hp]
  constructor
  · exact Or.inr (Or.inl hphase)
  · intro h
    exact absurd (Option.some.inj (hphase.symm.trans h)) verified_ne_waiting
  · intro _
    refine ⟨⟨k.form.bobName, ?_, hvalid.bobName⟩,
      ⟨k.form.bobPubkeyJwk.dumps, k.form.bobPubkeyJwk, ?_, Json.loads_dumps _,
        hvalid.bobPubkeyJwk⟩,
      ⟨scoreText k.score, fourDecimals k.score, fields_similarityScore env c k,
        pyFloat_scoreText k.score, ?_⟩⟩
    · simp [Creation.fields, updates, hp, Hash.write]
    · simp [Creation.fields, updates, hp, Hash.write]
    · exact fourDecimals_mono (of_decide_eq_true hp)
  · intro h
    exact absurd (Option.some.inj (hphase.symm.trans h)) verified_ne_failed
  · exact fun f hf => fields_asCreated env c k hf

theorem coherent_refused {k : Commit} (hp : ¬ passed env k.score = true) :
    Coherent env c.session (c.fields env (some k)) := by
  have hphase : c.fields env (some k) .phase = some failed := by
    rw [Creation.fields_some_phase, if_neg hp]
  constructor
  · exact Or.inr (Or.inr hphase)
  · intro h
    exact absurd (Option.some.inj (hphase.symm.trans h)) failed_ne_waiting
  · intro h
    exact absurd (Option.some.inj (h.symm.trans hphase)) verified_ne_failed
  · intro _
    -- of the outcome, a refusal stores the phase and the score alone
    have hname : c.fields env (some k) .bobName = c.session .bobName := by
      simp [Creation.fields, updates, hp, Hash.write]
    have hjwk : c.fields env (some k) .bobPubkeyJwk = c.session .bobPubkeyJwk := by
      simp [Creation.fields, updates, hp, Hash.write]
    exact ⟨hname, hjwk, scoreText k.score, fourDecimals k.score, fields_similarityScore env c k,
      pyFloat_scoreText k.score⟩
  · exact fun f hf => fields_asCreated env c k hf

/-- Whoever won, with a form that passed validation. -/
theorem coherent_fields {winner : Option Commit} (hvalid : ∀ k, winner = some k → k.form.Valid) :
    Coherent env c.session (c.fields env winner) := by
  cases winner with
  | none => exact coherent_session env c
  | some k =>
    by_cases hp : passed env k.score = true
    · exact coherent_passed env c (hvalid k rfl) hp
    · exact coherent_refused env c hp

end

/-! ## What reads a coherent hash does not fail -/

/-- A score that parses has a percentage. -/
theorem storedPct_of_pyFloat {text : Str} {x : ℚ} (h : pyFloat text = some x) :
    SessionStore.storedPct (some text) = .ok (pct x) := by
  simp [SessionStore.storedPct, h]

/-- `terminal_event` raises on no coherent hash. -/
theorem Coherent.terminalEvent_ok {env : Env} {created : Session} {db : Store} {sid : Str}
    {e : Entry Field} (h : Coherent env created e.fields) (hdb : db.db (key sid) = some e) :
    ∃ final, SessionStore.terminalEvent db sid = .ok final := by
  have hread : ∀ f, db.hget (key sid) f = e.fields f := fun f => by simp [Server.hget, hdb]
  have hw : waitingForBob ≠ verified := verified_ne_waiting.symm
  have hw' : waitingForBob ≠ failed := failed_ne_waiting.symm
  have hne : failed ≠ verified := verified_ne_failed.symm
  rcases h.phase with hphase | hphase | hphase
  · refine ⟨none, ?_⟩
    simp [SessionStore.terminalEvent, hread, hphase, hw, hw']
  · obtain ⟨⟨name, hname, _⟩, ⟨text, jwk, htext, hloads, _⟩, score, x, hscore, hfloat, _⟩ :=
      h.onceVerified hphase
    refine ⟨some (SessionStore.verifiedEvent (.str name) jwk (pct x)), ?_⟩
    simp [SessionStore.terminalEvent, hread, hphase, hname, htext, hloads, hscore,
      storedPct_of_pyFloat hfloat, SessionStore.ofField]
  · rcases h.onceFailed hphase with ⟨_, _, score, x, hscore, hfloat⟩
    refine ⟨some (SessionStore.failedEvent (pct x)), ?_⟩
    simp [SessionStore.terminalEvent, hread, hphase, hne, hscore, storedPct_of_pyFloat hfloat]

theorem terminalEvent_of_absent {db : Store} {sid : Str} (h : db.db (key sid) = none) :
    SessionStore.terminalEvent db sid = .ok (some SessionStore.expiredEvent) := by
  simp [SessionStore.terminalEvent, Server.hget, h]

namespace Inv

variable {env : Env} {σ σ' : State}

/-- The winner's form passed validation. -/
theorem winner_valid (hi : Inv env σ) {sid : Str} {k : Commit} (h : σ.winner sid = some k) :
    k.form.Valid := by
  rcases hi.committer k (mem_of_winner h).1 with ⟨_, _, _, _, _, haccepts, _⟩
  exact haccepts.valid

theorem along (hi : Inv env σ) {ok : Lts.Guard State Label} {ls : List Label}
    (hrun : (server env).Run ok σ ls σ') : Inv env σ' :=
  hrun.preserves (fun _ _ _ _ hstep hi => hi.of_step hstep) hi

theorem coherent (hi : Inv env σ) {k : Str} {e : Entry Field} (hdb : σ.store.db k = some e) :
    ∃ c ∈ σ.creations, k = key c.sid ∧ Coherent env c.session e.fields := by
  rcases hi.stored k e hdb with ⟨c, hc, hk, rfl⟩
  exact ⟨c, hc, hk, coherent_fields env c fun _ => hi.winner_valid⟩

/-- A winner stays the winner. -/
theorem winner_of_run (hi : Inv env σ) {ok : Lts.Guard State Label} {ls : List Label}
    (hrun : (server env).Run ok σ ls σ') {sid : Str} {k : Commit} (h : σ.winner sid = some k) :
    σ'.winner sid = some k := by
  rcases mem_of_winner h with ⟨hk, rfl⟩
  exact (hi.along hrun).winner_of_mem ((later_of_run hrun).commits.subset hk)

/-- Once a session has a winner, its hash does not change while it is there. -/
theorem fields_of_run (hi : Inv env σ) {ok : Lts.Guard State Label} {ls : List Label}
    (hrun : (server env).Run ok σ ls σ') {k : Str} {e e' : Entry Field}
    (hdb : σ.store.db k = some e) (hover : e.fields .phase ≠ some waitingForBob)
    (hdb' : σ'.store.db k = some e') : e'.fields = e.fields := by
  have hi' := hi.along hrun
  rcases hi.stored k e hdb with ⟨c, hc, hk, rfl⟩
  rcases hi'.stored k e' hdb' with ⟨c', hc', hk', rfl⟩
  have hsid : c.sid = c'.sid := key_injective (hk.symm.trans hk')
  obtain rfl := hi'.creation_unique ((later_of_run hrun).creations.subset hc) hc' hsid
  obtain ⟨winner, hwinner⟩ : ∃ winner, σ.winner c.sid = some winner := by
    refine Option.ne_none_iff_exists'.mp ?_
    intro hnone
    exact hover ((c.fields_phase_iff env).mpr hnone)
  have hsame := hi.winner_of_run hrun hwinner
  simp only [Creation.entry, hwinner, hsame]

/-- `terminal_event` raises for no id. -/
theorem terminalEvent_ok (hi : Inv env σ) (sid : Str) :
    ∃ final, SessionStore.terminalEvent σ.store sid = .ok final := by
  cases hdb : σ.store.db (key sid) with
  | none => exact ⟨_, terminalEvent_of_absent hdb⟩
  | some e =>
    rcases hi.coherent hdb with ⟨c, _, _, hcoherent⟩
    exact hcoherent.terminalEvent_ok hdb

end Inv

/-! ## Every reachable store -/

/-- In every reachable store, whatever creations, answers, deletions and expiries came in whatever
order: each hash is coherent; `terminal_event` raises nothing for any id; what `verify` does after
its script has won raises nothing; and a hash that does not wait for Bob any more keeps all its
fields for as long as it is there. -/
theorem phase_and_fields_coherent {env : Env} {σ : State}
    (h : (server env).Reach Lts.anyStep σ) :
    (∀ k e, σ.store.db k = some e →
      ∃ c ∈ σ.creations, k = key c.sid ∧ Coherent env c.session e.fields) ∧
    (∀ sid, ∃ final, SessionStore.terminalEvent σ.store sid = .ok final) ∧
    (∀ r q sid form session bob score,
      σ.reqs r = some ⟨q, .finalizing sid form session bob score⟩ →
      ∃ response, verifyResponse env session score .won = .ok response) ∧
    (∀ k e, σ.store.db k = some e →
      (e.fields .phase = some verified ∨ e.fields .phase = some failed) →
      ∀ ls σ' e', (server env).Run Lts.anyStep σ ls σ' → σ'.store.db k = some e' →
        e'.fields = e.fields) := by
  have hi := Inv.of_reach h
  refine ⟨fun k e hdb => hi.coherent hdb, hi.terminalEvent_ok, ?_, ?_⟩
  · intro r q sid form session bob score hreq
    -- the snapshot that verify scored against is the hash of a creation
    rcases hi.handlers r _ hreq with ⟨_, ⟨c, _, _, rfl⟩, _⟩
    exact ⟨_, verifyResponse_won env c ⟨r, sid, form, score⟩⟩
  · intro k e hdb hover ls σ' e' hrun hdb'
    refine hi.fields_of_run hrun hdb ?_ hdb'
    intro hwaiting
    rw [hwaiting] at hover
    rcases hover with hover | hover
    · exact verified_ne_waiting (Option.some.inj hover).symm
    · exact failed_ne_waiting (Option.some.inj hover).symm

/-- It applies to a session that Bob has just answered. -/
theorem phase_and_fields_coherent_sample :
    ∃ e, ((server Sample.config).after Sample.won).store.db (key Sample.sid) = some e ∧
      e.fields .phase = some verified ∧ ∃ name, e.fields .bobName = some name ∧ strip name ≠ [] := by
  have hrun := Lts.run_after (server Sample.config) Sample.won (by decide +kernel)
  have hsome : (((server Sample.config).after Sample.won).store.db (key Sample.sid)).isSome =
      true := by decide +kernel
  rcases Option.isSome_iff_exists.mp hsome with ⟨e, he⟩
  have hphase : e.fields .phase = some verified := by
    have hread : ((server Sample.config).after Sample.won).store.hget (key Sample.sid) .phase =
        some verified := by decide +kernel
    simpa [Server.hget, he] using hread
  rcases (phase_and_fields_coherent ⟨_, hrun⟩).1 _ e he with ⟨c, _, _, hcoherent⟩
  exact ⟨e, he, hphase, (hcoherent.onceVerified hphase).1⟩

end Doppelganger
