import Doppelganger.Pages

/-!
# What a step does

`AliceMoved` has a constructor for each way a step of Alice's page can go, with what the step found
and the world it leaves. What has to be known of all steps of the page is read off these cases. The
steps of the others leave her page alone.
-/

open Text

namespace Doppelganger

variable {env : Env} {W : Crypto} {w w' : World W}

/-- A message is not for the page, or its event is handled; either way the page may have heard the
last of the session. -/
theorem AlicePage.onmessage_cases (n : ℕ) (sid data : Str) (page : AlicePage W) :
    ∃ ended, page.onmessage n sid data = { page with ended := ended } ∨
      ∃ event, Json.parse data = some event ∧
        page.onmessage n sid data = onevent n sid event { page with ended := ended } := by
  unfold onmessage
  by_cases hterm : isTerminal data = some true
  · refine ⟨sid :: page.ended, ?_⟩
    simp only [hterm, if_true]
    cases Json.parse data with
    | none => exact Or.inl rfl
    | some event => exact Or.inr ⟨event, rfl, rfl⟩
  · refine ⟨page.ended, ?_⟩
    simp only [hterm, if_false]
    cases Json.parse data with
    | none => exact Or.inl rfl
    | some event => exact Or.inr ⟨event, rfl, rfl⟩

/-! ## Steps of the page -/

/-- `create` waits for it, in a block that catches what is thrown. -/
def AliceTask.creates : AliceTask W → Bool
  | .creating _ _ _ _ => true
  | .posting _ => true
  | .reading _ => true
  | _ => false

/-- A step of Alice's page, by what it finds and what it leaves. -/
inductive AliceMoved (env : Env) (w : World W) : AliceAct → World W → Prop
  | start : w.alice.screen = .landing →
      AliceMoved env w .start (w.setAlice { w.alice with screen := .create })
  /-- A field is blank, or there is no pair. -/
  | unsent (aliceName memoryQuestion memoryAnswer : Str) : w.alice.screen = .create →
      AliceMoved env w (.create aliceName memoryQuestion memoryAnswer) w
  | create (aliceName memoryQuestion memoryAnswer : Str) (p : ℕ) : w.alice.screen = .create →
      w.alice.createDisabled = false → w.alice.aliceKeyPair = some p →
      AliceMoved env w (.create aliceName memoryQuestion memoryAnswer)
        (w.setAlice
          { w.alice with
            createDisabled := true
            tasks := w.alice.tasks ++
              [.creating (trim aliceName) (trim memoryQuestion) (trim memoryAnswer) p] })
  | again : w.alice.screen = .alicePass ∨ w.alice.screen = .aliceFail →
      AliceMoved env w .again (w.setAlice { w.alice.reset with screen := .create })
  | generated (n : ℕ) : w.alice.tasks[n]? = some .generating →
      AliceMoved env w (.generated n)
        { w.setAlice { w.alice.goOn n (.exporting w.pairs) with aliceKeyPair := some w.pairs } with
          pairs := w.pairs + 1 }
  | exported (n p : ℕ) (disabled : Bool) : w.alice.tasks[n]? = some (.exporting p) →
      AliceMoved env w (.exported n)
        (w.setAlice { w.alice.finish n with createDisabled := disabled })
  | post (n r : ℕ) (limited : Bool) (aliceName memoryQuestion memoryAnswer : Str) (p : ℕ)
      (σ' : State) :
      w.alice.tasks[n]? = some (.creating aliceName memoryQuestion memoryAnswer p) →
      step env (.request r (.create (AlicePage.body aliceName memoryQuestion memoryAnswer (W.jwk p)))
        limited) w.server = some σ' →
      AliceMoved env w (.post n r limited)
        { w.setAlice { w.alice.goOn n (.posting r) with posted := (r, p) :: w.alice.posted } with
          server := σ' }
  | answered (n r : ℕ) (response : Response) : w.alice.tasks[n]? = some (.posting r) →
      w.server.answer? r = some response →
      AliceMoved env w (.answered n) (w.setAlice (w.alice.goOn n (.reading response)))
  | read (n : ℕ) (response : Response) : w.alice.tasks[n]? = some (.reading response) →
      AliceMoved env w (.read n) (w.setAlice ((w.alice.finish n).created response))
  | imported (n p : ℕ) (sid : Str) (jwk : Json) (key : W.PublicKey) :
      w.alice.tasks[n]? = some (.importing sid jwk) → W.importPublicKey jwk = some key →
      w.alice.aliceKeyPair = some p →
      AliceMoved env w (.imported n) (w.setAlice (w.alice.goOn n (.derivingKey sid p key)))
  /-- `aliceKeyPair.privateKey` throws. -/
  | keyless (n : ℕ) (sid : Str) (jwk : Json) : w.alice.tasks[n]? = some (.importing sid jwk) →
      w.alice.aliceKeyPair = none →
      AliceMoved env w (.imported n) (w.setAlice (w.alice.finish n))
  | derived (n p : ℕ) (sid : Str) (key : W.PublicKey) :
      w.alice.tasks[n]? = some (.derivingKey sid p key) →
      AliceMoved env w (.derived n)
        (w.setAlice
          { w.alice.finish n with
            screen := .alicePass
            passed := (sid, W.derived p key) :: w.alice.passed })
  /-- `create` enables its button again. -/
  | caught (n : ℕ) (task : AliceTask W) : w.alice.tasks[n]? = some task → task.creates = true →
      AliceMoved env w (.rejected n) (w.setAlice (w.alice.finish n).enable)
  | rejected (n : ℕ) (task : AliceTask W) : w.alice.tasks[n]? = some task →
      task.creates = false → AliceMoved env w (.rejected n) (w.setAlice (w.alice.finish n))
  | connected (n i k : ℕ) (sid : Str) (σ' : State) : w.alice.sources[n]? = some ⟨sid, none⟩ →
      step env (.stream i sid k) w.server = some σ' →
      AliceMoved env w (.connected n i k)
        { w.setAlice { w.alice with sources := w.alice.sources.set n ⟨sid, some (i, 0)⟩ } with
          server := σ' }
  /-- A retry line or a keepalive. -/
  | skipped (n i k : ℕ) (sid : Str) : w.alice.sources[n]? = some ⟨sid, some (i, k)⟩ →
      AliceMoved env w (.received n)
        (w.setAlice { w.alice with sources := w.alice.sources.set n ⟨sid, some (i, k + 1)⟩ })
  | received (n i k : ℕ) (sid data : Str) : w.alice.sources[n]? = some ⟨sid, some (i, k)⟩ →
      ((w.server.streams i).bind fun st => st.out[k]?) = some (.message data) →
      AliceMoved env w (.received n)
        (w.setAlice (AlicePage.onmessage n sid data
          { w.alice with sources := w.alice.sources.set n ⟨sid, some (i, k + 1)⟩ }))
  | dropped (n i k : ℕ) (sid : Str) : w.alice.sources[n]? = some ⟨sid, some (i, k)⟩ →
      AliceMoved env w (.dropped n)
        (w.setAlice { w.alice with sources := w.alice.sources.set n ⟨sid, none⟩ })
  | refused (n i k : ℕ) (sid : Str) (status : ℕ) :
      w.alice.sources[n]? = some ⟨sid, some (i, k)⟩ →
      (w.server.streams i).map Stream.pc = some (.refused status) →
      AliceMoved env w (.refused n) (w.setAlice (w.alice.close n))

/-- Every step is one of them. -/
theorem moved_of_aliceStep {a : AliceAct} (h : w.aliceStep env a = some w') :
    AliceMoved env w a w' := by
  cases a with
  | start =>
    rcases Option.map_eq_some_iff.mp h with ⟨page, hpage, rfl⟩
    unfold AlicePage.start at hpage
    split_ifs at hpage with hscreen
    obtain rfl := Option.some.inj hpage
    exact .start hscreen
  | create aliceName memoryQuestion memoryAnswer =>
    rcases Option.map_eq_some_iff.mp h with ⟨page, hpage, rfl⟩
    unfold AlicePage.create at hpage
    split_ifs at hpage with hready
    · obtain rfl := Option.some.inj hpage
      exact .unsent _ _ _ hready.1
    · split at hpage
      · obtain rfl := Option.some.inj hpage
        exact .unsent _ _ _ hready.1
      · next p hkey =>
        obtain rfl := Option.some.inj hpage
        exact .create _ _ _ p hready.1 hready.2 hkey
  | again =>
    rcases Option.map_eq_some_iff.mp h with ⟨page, hpage, rfl⟩
    unfold AlicePage.again at hpage
    split_ifs at hpage with hscreen
    obtain rfl := Option.some.inj hpage
    exact .again hscreen
  | generated n =>
    rcases Option.bind_eq_some_iff.mp h with ⟨page, hpage, hw'⟩
    obtain rfl := Option.some.inj hw'
    unfold AlicePage.generated at hpage
    split at hpage
    · next ht =>
      obtain rfl := Option.some.inj hpage
      exact .generated n ht
    · cases hpage
  | exported n =>
    rcases Option.map_eq_some_iff.mp h with ⟨page, hpage, rfl⟩
    unfold AlicePage.exported at hpage
    split at hpage
    · next p ht =>
      split_ifs at hpage
      · obtain rfl := Option.some.inj hpage
        exact .exported n p false ht
      · obtain rfl := Option.some.inj hpage
        exact .exported n p w.alice.createDisabled ht
    · cases hpage
  | post n r limited =>
    rcases Option.bind_eq_some_iff.mp h with ⟨⟨page, q⟩, hpage, h⟩
    rcases Option.bind_eq_some_iff.mp h with ⟨σ', hs, hw'⟩
    obtain rfl := Option.some.inj hw'
    unfold AlicePage.post at hpage
    split at hpage
    · next ht =>
      split_ifs at hpage
      rcases Prod.mk.inj (Option.some.inj hpage) with ⟨rfl, rfl⟩
      exact .post n r limited _ _ _ _ σ' ht hs
    · cases hpage
  | answered n =>
    rcases Option.map_eq_some_iff.mp h with ⟨page, hpage, rfl⟩
    unfold AlicePage.answered at hpage
    split at hpage
    · next r ht =>
      rcases Option.map_eq_some_iff.mp hpage with ⟨response, hans, rfl⟩
      exact .answered n r response ht hans
    · cases hpage
  | read n =>
    rcases Option.map_eq_some_iff.mp h with ⟨page, hpage, rfl⟩
    unfold AlicePage.read at hpage
    split at hpage
    · next response ht =>
      obtain rfl := Option.some.inj hpage
      exact .read n response ht
    · cases hpage
  | imported n =>
    rcases Option.map_eq_some_iff.mp h with ⟨page, hpage, rfl⟩
    unfold AlicePage.imported at hpage
    split at hpage
    · next sid jwk ht =>
      split at hpage
      · cases hpage
      · next himport =>
        split at hpage
        · next hnone =>
          obtain rfl := Option.some.inj hpage
          exact .keyless n sid jwk ht hnone
        · next p hkey =>
          obtain rfl := Option.some.inj hpage
          exact .imported n p sid jwk _ ht himport hkey
    · cases hpage
  | derived n =>
    rcases Option.map_eq_some_iff.mp h with ⟨page, hpage, rfl⟩
    unfold AlicePage.derived at hpage
    split at hpage
    · next ht =>
      obtain rfl := Option.some.inj hpage
      exact .derived n _ _ _ ht
    · cases hpage
  | rejected n =>
    rcases Option.map_eq_some_iff.mp h with ⟨page, hpage, rfl⟩
    unfold AlicePage.rejected at hpage
    split at hpage
    case h_1 ht | h_2 ht | h_3 ht =>
      obtain rfl := Option.some.inj hpage
      exact .caught n _ ht rfl
    case h_4 task hcreating hposting hreading ht =>
      obtain rfl := Option.some.inj hpage
      refine .rejected n task ht ?_
      cases task with
      | creating aliceName memoryQuestion memoryAnswer p => exact absurd rfl (hcreating _ _ _ _)
      | posting r => exact absurd rfl (hposting _)
      | reading response => exact absurd rfl (hreading _)
      | _ => rfl
    case h_5 => cases hpage
  | connected n i k =>
    rcases Option.bind_eq_some_iff.mp h with ⟨⟨page, sid⟩, hpage, h⟩
    rcases Option.bind_eq_some_iff.mp h with ⟨σ', hs, hw'⟩
    obtain rfl := Option.some.inj hw'
    unfold AlicePage.connected at hpage
    split at hpage
    · next hsrc =>
      rcases Prod.mk.inj (Option.some.inj hpage) with ⟨rfl, rfl⟩
      exact .connected n i k _ σ' hsrc hs
    · cases hpage
  | received n =>
    rcases Option.map_eq_some_iff.mp h with ⟨page, hpage, rfl⟩
    unfold AlicePage.received at hpage
    split at hpage
    · next sid i k hsrc =>
      split at hpage
      · cases hpage
      · next chunk hchunk =>
        split at hpage
        · obtain rfl := Option.some.inj hpage
          exact .received n i k sid _ hsrc hchunk
        · obtain rfl := Option.some.inj hpage
          exact .skipped n i k sid hsrc
    · cases hpage
  | dropped n =>
    rcases Option.map_eq_some_iff.mp h with ⟨page, hpage, rfl⟩
    unfold AlicePage.dropped at hpage
    split at hpage
    · next hsrc =>
      obtain rfl := Option.some.inj hpage
      exact .dropped n _ _ _ hsrc
    · cases hpage
  | refused n =>
    rcases Option.map_eq_some_iff.mp h with ⟨page, hpage, rfl⟩
    unfold AlicePage.refused at hpage
    split at hpage
    · next hsrc =>
      split at hpage
      · next hpc =>
        obtain rfl := Option.some.inj hpage
        exact .refused n _ _ _ _ hsrc hpc
      · cases hpage
    · cases hpage

/-! ## Steps of anyone -/

theorem moved_of_next {a : AliceAct} (h : World.next env (.alice a) w = some w') :
    AliceMoved env w a w' :=
  moved_of_aliceStep h

theorem setBob_bobs (b : ℕ) (page : BobPage W) (b' : ℕ) :
    (w.setBob b page).bobs b' = if b' = b then some page else w.bobs b' := by
  simp [World.setBob, Function.update_apply]

/-- A step of a page of Bob's that sends nothing. -/
theorem ofBob_eq_some {b : ℕ} {f : BobPage W → Option (BobPage W)} (h : w.ofBob b f = some w') :
    ∃ page page', w.bobs b = some page ∧ f page = some page' ∧ w' = w.setBob b page' := by
  rcases Option.map_eq_some_iff.mp h with ⟨page', hpage', rfl⟩
  rcases Option.bind_eq_some_iff.mp hpage' with ⟨page, hpage, hf⟩
  exact ⟨page, page', hpage, hf, rfl⟩

/-- And of one that sends request `r`. -/
theorem ofBobSending_eq_some {b r : ℕ} {limited : Bool} {f : BobPage W → Option (BobPage W × Request)}
    (h : w.ofBobSending env b r limited f = some w') :
    ∃ page page' q σ', w.bobs b = some page ∧ f page = some (page', q) ∧
      step env (.request r q limited) w.server = some σ' ∧
      w' = { w.setBob b page' with server := σ' } := by
  rcases Option.bind_eq_some_iff.mp h with ⟨page, hpage, h⟩
  rcases Option.bind_eq_some_iff.mp h with ⟨⟨page', q⟩, hf, h⟩
  rcases Option.bind_eq_some_iff.mp h with ⟨σ', hs, h⟩
  exact ⟨page, page', q, σ', hpage, hf, hs, (Option.some.inj h).symm⟩

/-- A page of Bob's leaves Alice's alone, and sends the server a request at most. -/
theorem bobStep_frame {b : ℕ} {a : BobAct} (h : w.bobStep env b a = some w') :
    w'.alice = w.alice ∧ (w'.server = w.server ∨
      ∃ r q limited, step env (.request r q limited) w.server = some w'.server) := by
  cases a with
  | init sid =>
    simp only [World.bobStep] at h
    split at h
    · cases h
    · obtain rfl := Option.some.inj h
      exact ⟨rfl, Or.inl rfl⟩
  | generated n =>
    rcases Option.map_eq_some_iff.mp h with ⟨w₁, hw₁, rfl⟩
    rcases ofBob_eq_some hw₁ with ⟨_, page', _, _, rfl⟩
    exact ⟨rfl, Or.inl rfl⟩
  | fetch n r limited | keyless n r limited | post n r limited =>
    rcases ofBobSending_eq_some h with ⟨_, page', q, σ', _, _, hs, rfl⟩
    exact ⟨rfl, Or.inr ⟨r, q, limited, hs⟩⟩
  | _ =>
    rcases ofBob_eq_some h with ⟨_, page', _, _, rfl⟩
    exact ⟨rfl, Or.inl rfl⟩

/-- The steps of the server and of Bob's pages leave Alice's page alone. -/
theorem alice_of_next {e : Event} (h : World.next env e w = some w') :
    w'.alice = w.alice ∨ ∃ a, e = .alice a ∧ w.aliceStep env a = some w' := by
  cases e with
  | alice a => exact Or.inr ⟨a, rfl, h⟩
  | server l =>
    rcases Option.map_eq_some_iff.mp h with ⟨σ', _, rfl⟩
    exact Or.inl rfl
  | bob b a => exact Or.inl (bobStep_frame h).1

/-- A step of anyone leaves the server alone, or is a step of its: its own, a request that is sent,
or a stream that Alice's page connects to. -/
theorem server_of_next {e : Event} (h : World.next env e w = some w') :
    w'.server = w.server ∨ ∃ l, step env l w.server = some w'.server ∧
      (e = .server l ∨ (∃ r q limited, l = .request r q limited) ∨
        ∃ n i k sid, e = .alice (.connected n i k) ∧ l = .stream i sid k) := by
  cases e with
  | server l =>
    rcases Option.map_eq_some_iff.mp h with ⟨σ', hs, rfl⟩
    exact Or.inr ⟨l, hs, Or.inl rfl⟩
  | bob b a =>
    rcases (bobStep_frame h).2 with hsame | ⟨r, q, limited, hs⟩
    · exact Or.inl hsame
    · exact Or.inr ⟨_, hs, Or.inr (Or.inl ⟨r, q, limited, rfl⟩)⟩
  | alice a =>
    cases moved_of_next h with
    | post n r limited _ _ _ p σ' ht hs => exact Or.inr ⟨_, hs, Or.inr (Or.inl ⟨_, _, _, rfl⟩)⟩
    | connected n i k sid σ' hsrc hs =>
      exact Or.inr ⟨_, hs, Or.inr (Or.inr ⟨n, i, k, sid, rfl, rfl⟩)⟩
    | _ => exact Or.inl rfl

end Doppelganger
