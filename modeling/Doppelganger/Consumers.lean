import Doppelganger.Handlers
import Doppelganger.Pages
import Doppelganger.Scoring

/-!
# What the pages make of a key

The validators ask of a public key that it is an object with the right `kty` and `crv`. The pages
read the answer or the event with `JSON.parse` and show the first 16 characters of `x`. A key
that is `Consumable` gets through, any other accepted key stops the page it is sent to.
-/

open Text

namespace Doppelganger

/-- What the pages need of a key: no `NaN` or `Infinity` anywhere in it, and an `x` with `slice`. -/
def Consumable (jwk : Json) : Prop :=
  jwk.standard = true ∧ Json.sliceable (jwk.get? (lit "x")) = true

theorem parse_dumps (j : Json) : Json.parse j.dumps = if j.standard then some j else none := by
  unfold Json.parse
  rw [Json.loads_dumps]
  cases h : j.standard <;> simp [h]

theorem standard_verifiedEvent (bobName : Str) (jwk : Json) (p : ℤ) :
    (SessionStore.verifiedEvent (.str bobName) jwk p).standard = jwk.standard := by
  simp [SessionStore.verifiedEvent, Json.standard, Json.standardMembers]

theorem standard_passResponse (score : ℚ) (jwk : Json) :
    (passResponse score jwk).body.standard = jwk.standard := by
  simp [passResponse, Json.standard, Json.standardMembers]

theorem isTerminal_verifiedEvent (bobName : Str) (jwk : Json) (p : ℤ) :
    isTerminal (SessionStore.verifiedEvent (.str bobName) jwk p).dumps = some true :=
  isTerminal_dumps rfl (by decide)

section
variable (bobName : Str) (jwk : Json) (p : ℤ)

theorem verifiedEvent_event :
    (SessionStore.verifiedEvent (.str bobName) jwk p).get? (lit "event") =
      some (.str verified) := rfl

theorem verifiedEvent_jwk :
    (SessionStore.verifiedEvent (.str bobName) jwk p).get? (lit "bob_pubkey_jwk") = some jwk := rfl

theorem verifiedEvent_score :
    (SessionStore.verifiedEvent (.str bobName) jwk p).get? (lit "score") = some (.int p) := rfl

/-- The log shows a VERIFIED event when `x` can be sliced. -/
theorem sseEvent_verifiedEvent (hobj : jwk.isObj = true) :
    ProtocolLog.sseEvent (SessionStore.verifiedEvent (.str bobName) jwk p) =
      Json.sliceable (jwk.get? (lit "x")) := by
  have htruthy := Json.jsTruthy_of_isObj hobj
  have hnull : SessionStore.verifiedEvent (.str bobName) jwk p ≠ .null := by
    simp [SessionStore.verifiedEvent]
  simp [ProtocolLog.sseEvent, verifiedEvent_event, verifiedEvent_jwk, verifiedEvent_score,
    hnull, htruthy, Json.printable]

end

section
variable {W : Crypto}

/-- Alice's page gets through to the import of the key. -/
def AlicePage.importsKey (page : AlicePage W) (n : ℕ) (sid : Str) (jwk : Json) : AlicePage W :=
  { page.close n with ended := sid :: page.ended, tasks := page.tasks ++ [.importing sid jwk] }

/-- `onmessage` with a VERIFIED event, live or replayed. -/
theorem onmessage_verifiedEvent {jwk : Json} (hobj : jwk.isObj = true) (page : AlicePage W) (n : ℕ)
    (sid bobName : Str) (p : ℤ) :
    page.onmessage n sid (SessionStore.verifiedEvent (.str bobName) jwk p).dumps =
        page.importsKey n sid jwk ↔ Consumable jwk := by
  unfold AlicePage.onmessage Consumable
  rw [isTerminal_verifiedEvent, parse_dumps, standard_verifiedEvent]
  cases hstandard : jwk.standard with
  | false =>
    -- `JSON.parse` throws
    simp [AlicePage.importsKey, AlicePage.close]
  | true =>
    -- the log comes before the handler, and throws where `x` has no `slice`
    simp only [if_true, AlicePage.onevent, sseEvent_verifiedEvent bobName jwk p hobj,
      verifiedEvent_event, verifiedEvent_jwk]
    cases hx : Json.sliceable (jwk.get? (lit "x")) with
    | false => simp [AlicePage.importsKey, AlicePage.close]
    | true => simp [AlicePage.importsKey, AlicePage.close]

/-- A task that goes on is not over. -/
theorem BobPage.goOn_ne_finish {page : BobPage W} {n : ℕ} {task task' : BobTask W}
    (ht : page.tasks[n]? = some task) : (page.goOn n task').tasks ≠ (page.finish n).tasks := by
  rcases List.getElem?_eq_some_iff.mp ht with ⟨hn, _⟩
  intro heq
  have hlength := congrArg List.length heq
  simp only [goOn, finish, List.length_set, List.length_eraseIdx, hn, if_true] at hlength
  omega

/-- `submitAnswer` with a PASS. -/
theorem read_passResponse {page : BobPage W} {n : ℕ} {score : ℚ} {jwk : Json}
    (ht : page.tasks[n]? = some (.reading (passResponse score jwk))) :
    page.read n = some (page.goOn n (.importing jwk)) ↔ Consumable jwk := by
  have hover : ∀ {page' : BobPage W}, page'.tasks = (page.finish n).tasks →
      page' ≠ page.goOn n (.importing jwk) := by
    intro page' htasks heq
    exact BobPage.goOn_ne_finish ht ((congrArg BobPage.tasks heq).symm.trans htasks)
  have hok : (passResponse score jwk).ok = true := rfl
  have hstatus : (passResponse score jwk).status = 200 := rfl
  have hresult : (passResponse score jwk).body.get? (lit "result") = some (.str (lit "PASS")) := rfl
  have hjwk : (passResponse score jwk).body.get? (lit "alice_pubkey_jwk") = some jwk := rfl
  unfold BobPage.read Consumable
  simp only [ht, Option.some.injEq, Response.json, standard_passResponse, BobPage.verified, hok,
    hstatus]
  cases hstandard : jwk.standard with
  | false =>
    -- the promise of `resp.json()` is rejected, and `data` is an empty object
    have hnone : (Json.obj []).get? (lit "result") = none := rfl
    simp only [Bool.false_eq_true, if_false, Option.getD_none, hnone, false_and, iff_false]
    exact hover rfl
  | true =>
    simp only [if_true, Option.getD_some, hresult, hjwk, true_and]
    cases hx : Json.sliceable (jwk.get? (lit "x")) with
    | false =>
      simp only [Bool.false_eq_true, if_false, iff_false]
      exact hover rfl
    | true => simp

end

/-- For every body that the validators accept: Alice's page imports the key from the VERIFIED event
(with the live or the replayed percentage) exactly when it is consumable, and so does Bob's page with
the key in his PASS. -/
theorem accepted_keys_consumed_iff (W : Crypto) (body : Json) :
    (∀ (env : Env) (form : VerifyForm) (score : ℚ) (p : ℤ), AcceptsVerify body form →
      passed env score = true → ∀ (page : AlicePage W) (n : ℕ) (sid : Str),
        (page.onmessage n sid (outcomeEvent env form score p).dumps =
            page.importsKey n sid form.bobPubkeyJwk ↔ Consumable form.bobPubkeyJwk)) ∧
    (∀ (form : CreateForm) (score : ℚ), AcceptsCreate body form →
      ∀ (page : BobPage W) (n : ℕ),
        page.tasks[n]? = some (.reading (passResponse score form.alicePubkeyJwk)) →
          (page.read n = some (page.goOn n (.importing form.alicePubkeyJwk)) ↔
            Consumable form.alicePubkeyJwk)) := by
  constructor
  · intro env form score p haccepts hpass page n sid
    have hevent : outcomeEvent env form score p =
        SessionStore.verifiedEvent (.str form.bobName) form.bobPubkeyJwk p := by
      simp [outcomeEvent, hpass]
    rw [hevent]
    exact onmessage_verifiedEvent haccepts.valid.bobPubkeyJwk.1 page n sid form.bobName p
  · intro form score _ page n ht
    exact read_passResponse ht

namespace Sample

/-- Keys do not matter here. -/
abbrev anyCrypto : Crypto where
  PublicKey := Unit
  PrivateKey := Unit
  SharedKey := Unit
  publicKey := fun _ => ()
  privateKey := fun _ => ()
  exportPublicKey := fun _ => .null
  importPublicKey := fun _ => none
  deriveSharedKey := fun _ _ => ()

/-- Alice waits for the session, and has read nothing yet. -/
def waitingPage : AlicePage anyCrypto :=
  { AlicePage.init with screen := .waiting, tasks := [], sources := [⟨sid, some (0, 0)⟩] }

/-- An EC P-256 key to the validators, without coordinates. -/
def emptyJwk : Json := .obj [(lit "kty", .str (lit "EC")), (lit "crv", .str (lit "P-256"))]

def verifyBodyWith (jwk : Json) : Json :=
  .obj [(lit "bob_name", .str (lit "Bob")), (lit "answer", .str (lit "porto")),
    (lit "bob_pubkey_jwk", jwk)]

end Sample

theorem accepted_keys_consumed_sample :
    Sample.waitingPage.onmessage 0 Sample.sid
        (outcomeEvent Sample.config ⟨lit "Bob", lit "porto", Sample.jwk (lit "bob")⟩ 1 100).dumps =
      Sample.waitingPage.importsKey 0 Sample.sid (Sample.jwk (lit "bob")) := by
  have haccepts : AcceptsVerify (Sample.verifyBodyWith (Sample.jwk (lit "bob")))
      ⟨lit "Bob", lit "porto", Sample.jwk (lit "bob")⟩ := by
    constructor <;> decide +kernel
  have hpass : passed Sample.config 1 = true := by decide +kernel
  refine ((accepted_keys_consumed_iff Sample.anyCrypto _).1 Sample.config _ 1 100 haccepts hpass
    Sample.waitingPage 0 Sample.sid).mpr ?_
  constructor <;> decide +kernel

/-- A key without `x` is accepted and wins; then Alice's page throws in the log and goes on waiting,
and Bob's page does not get to the import of such a key either. -/
theorem accepted_key_not_consumed :
    AcceptsVerify (Sample.verifyBodyWith Sample.emptyJwk) ⟨lit "Bob", lit "porto", Sample.emptyJwk⟩ ∧
    passed Sample.config 1 = true ∧
    (let page := Sample.waitingPage.onmessage 0 Sample.sid
      (event Sample.config ⟨lit "Bob", lit "porto", Sample.emptyJwk⟩ 1).dumps
    page.screen = .waiting ∧ page.tasks.length = 0 ∧ page.sources = Sample.waitingPage.sources) ∧
    ¬ Consumable Sample.emptyJwk := by
  refine ⟨by constructor <;> decide +kernel, by decide +kernel, ?_, ?_⟩
  · refine ⟨?_, ?_, ?_⟩ <;> decide +kernel
  · rintro ⟨_, hx⟩
    revert hx
    decide +kernel

end Doppelganger
