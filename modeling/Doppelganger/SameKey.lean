import Doppelganger.BobSteps
import Doppelganger.PageSteps

/-!
# Both ends hold the same key

Alice's page takes its key pair from a variable when the VERIFIED arrives, long after it was posted.
The invariant of the pages says that it still is the pair its session was created with; Bob's page
has one pair for good, and a PASS tells it that this pair has won. So each page imports the public
half of the pair the other one derives with.
-/

open Text

namespace Doppelganger

variable {env : Env} {W : Crypto} {w w' : World W}

/-! ## Where pairs are posted -/

theorem AlicePage.created_posted (response : Response) (page : AlicePage W) :
    (page.created response).posted = page.posted := by
  unfold AlicePage.created
  split_ifs
  · rfl
  · split
    · rfl
    · split
      · split_ifs <;> rfl
      · rfl

theorem AlicePage.onmessage_posted (n : ℕ) (sid data : Str) (page : AlicePage W) :
    (page.onmessage n sid data).posted = page.posted := by
  have hevent : ∀ (page : AlicePage W) event, (page.onevent n sid event).posted = page.posted := by
    intro page event
    unfold AlicePage.onevent
    split_ifs
    · rfl
    · split
      · split_ifs <;> rfl
      · rfl
    all_goals rfl
  rcases page.onmessage_cases n sid data with ⟨ended, hpage | ⟨event, _, hpage⟩⟩
  · rw [hpage]
  · rw [hpage, hevent]

/-- Only the step that sends a create request posts a pair. -/
theorem posted_of_aliceStep {a : AliceAct} (h : w.aliceStep env a = some w') :
    w'.alice.posted = w.alice.posted ∨ ∃ (n r : ℕ) (aliceName memoryQuestion memoryAnswer : Str) (p : ℕ),
      w.alice.tasks[n]? = some (.creating aliceName memoryQuestion memoryAnswer p) ∧
        w'.alice.posted = (r, p) :: w.alice.posted := by
  cases moved_of_aliceStep h with
  | post n r limited aliceName memoryQuestion memoryAnswer p σ' ht hs =>
    exact Or.inr ⟨n, r, _, _, _, p, ht, rfl⟩
  | read n response ht => exact Or.inl (AlicePage.created_posted _ _)
  | received n i k sid data hsrc hdata => exact Or.inl (AlicePage.onmessage_posted _ _ _ _)
  | _ => exact Or.inl rfl

namespace World.Ok

/-- A session is created with one pair. -/
theorem postedFor_unique (hw : w.Ok env) {sid : Str} {p p' : ℕ} (h : w.PostedFor sid p)
    (h' : w.PostedFor sid p') : p = p' := by
  rcases h with ⟨c, hc, hs, hmem⟩
  -- the session has one creator, and a request carries one pair
  rcases h' with ⟨c', hc', hs', hmem'⟩
  obtain rfl := hw.server.creation_unique hc hc' (hs.trans hs'.symm)
  exact hw.once _ _ _ hmem hmem'

/-- The key a session is created with is the public half of the pair posted for it. -/
theorem jwk_of_postedFor (hw : w.Ok env) {sid : Str} {p : ℕ} (h : w.PostedFor sid p)
    {c : Creation} (hc : c ∈ w.server.creations) (hs : c.sid = sid) :
    c.form.alicePubkeyJwk = W.jwk p := by
  rcases h with ⟨c', hc', hs', hmem⟩
  obtain rfl := hw.server.creation_unique hc hc' (hs.trans hs'.symm)
  rcases hw.posted _ _ hmem with ⟨_, body, hreq, hjwk⟩
  exact Option.some.inj ((hw.server.key_of_creation hc hreq).symm.trans hjwk)

/-- A pair that is posted has no session that has ended. -/
theorem unspent_of_posted (hw : w.Ok env) {e : Event} (h : World.next env e w = some w')
    {r p : ℕ} (hnew : (r, p) ∈ w'.alice.posted) (hold : (r, p) ∉ w.alice.posted) :
    w.Unspent p := by
  rcases alice_of_next h with hsame | ⟨a, rfl, hstep⟩
  · exact absurd (hsame ▸ hnew) hold
  rcases posted_of_aliceStep hstep with hsame | ⟨n, r', _, _, _, p', ht, hposted⟩
  · exact absurd (hsame ▸ hnew) hold
  -- the pair that `create` goes on with is unspent
  rcases hw.alice with ⟨act, hawaits, hact⟩
  rcases hawaits.of_task ht with ⟨rfl, rfl⟩
  rw [hposted] at hnew
  rcases List.mem_cons.mp hnew with heq | hmem
  · rcases Prod.mk.inj heq with ⟨rfl, rfl⟩
    exact hact.2.2.2
  · exact absurd hmem hold

/-- The handler of a VERIFIED reads the pair that was posted for its session. -/
theorem pair_of_verified (hw : w.Ok env) {sid : Str} {jwk : Json}
    (htask : .importing sid jwk ∈ w.alice.tasks) :
    ∃ p, w.alice.aliceKeyPair = some p ∧ ∀ p', w.PostedFor sid p' ↔ p' = p := by
  rcases List.getElem_of_mem htask with ⟨n, _, ht⟩
  rcases hw.alice with ⟨act, hawaits, hact⟩
  rcases hawaits.of_task (List.getElem?_eq_some_iff.mpr ⟨_, ht⟩) with ⟨rfl, rfl⟩
  rcases hact with ⟨_, _, ⟨p, hkey, hp⟩, _⟩
  refine ⟨p, hkey, fun p' => ⟨fun hp' => hw.postedFor_unique hp' hp, ?_⟩⟩
  rintro rfl
  exact hp

/-- What the two ends of a session derive is the same. -/
theorem derived_eq (hw : w.Ok env) (hW : W.Lawful) {sid : Str} {key key' : W.SharedKey}
    (halice : (sid, key) ∈ w.alice.passed) {b : ℕ} {page : BobPage W}
    (hpage : w.bobs b = some page) (hsid : page.sid = sid) (hbob : key' ∈ page.passed) :
    key = key' := by
  subst hsid
  obtain ⟨p, jwk, k, hposted, ⟨winner, hwinner, hws, hwin⟩, himport, rfl⟩ :=
    hw.passed _ key halice
  obtain ⟨q, jwk', k', ⟨⟨winner', hwinner', hws', hwin'⟩, c, hc, hcs, hjwk'⟩, himport', rfl⟩ :=
    (hw.bobs b page hpage).passed key' hbob
  -- Alice has imported the key of Bob's pair, and Bob the one of hers
  obtain rfl := hw.server.commit_unique hwinner hwinner' (hws.trans hws'.symm)
  have hk : k = W.publicKey q := by
    rw [← hwin, hwin', Crypto.jwk, hW.import_export] at himport
    exact (Option.some.inj himport).symm
  have hk' : k' = W.publicKey p := by
    rw [← hjwk', hw.jwk_of_postedFor hposted hc hcs, Crypto.jwk, hW.import_export] at himport'
    exact (Option.some.inj himport').symm
  subst hk hk'
  exact hW.symmetric p q

end World.Ok

/-- In every run of Alice's page with the server, any pages of Bob's and anyone else: the handler of
a VERIFIED reads from `aliceKeyPair` the one pair whose public half its session was created with;
what `step-alice-pass` and a `step-bob-pass` of the same session were shown with is the same key;
and a pair is never posted once a session it was posted for has delivered a terminal event. -/
theorem same_key (hW : W.Lawful) (h : (world env W).Reach Lts.anyStep w) :
    (∀ sid jwk, .importing sid jwk ∈ w.alice.tasks →
      ∃ p, w.alice.aliceKeyPair = some p ∧ (∀ p', w.PostedFor sid p' ↔ p' = p) ∧
        ∃ c ∈ w.server.creations, c.sid = sid ∧ c.form.alicePubkeyJwk = W.jwk p) ∧
    (∀ sid key key' b page, (sid, key) ∈ w.alice.passed → w.bobs b = some page →
      page.sid = sid → key' ∈ page.passed → key = key') ∧
    (∀ e w' r p, World.next env e w = some w' → (r, p) ∈ w'.alice.posted →
      (r, p) ∉ w.alice.posted → ∀ sid ∈ w.alice.ended, ¬ w.PostedFor sid p) := by
  have hw := World.Ok.of_reach h
  refine ⟨?_, ?_, ?_⟩
  · intro sid jwk htask
    rcases hw.pair_of_verified htask with ⟨p, hkey, hiff⟩
    rcases (hiff p).mpr rfl with ⟨c, hc, hs, hmem⟩
    exact ⟨p, hkey, hiff, c, hc, hs, hw.jwk_of_postedFor ⟨c, hc, hs, hmem⟩ hc hs⟩
  · intro sid key key' b page halice hpage hsid hbob
    exact hw.derived_eq hW halice hpage hsid hbob
  · intro e w' r p hstep hnew hold
    exact hw.unspent_of_posted hstep hnew hold

namespace Sample

/-- Keys are numbers, an agreement is a product, and a JWK spells its number in unary. -/
abbrev crypto : Crypto where
  PublicKey := ℕ
  PrivateKey := ℕ
  SharedKey := ℕ
  publicKey p := p + 2
  privateKey p := p + 2
  exportPublicKey k := .obj [(lit "kty", .str (lit "EC")), (lit "crv", .str (lit "P-256")),
    (lit "x", .str (List.replicate k (unit 'x'))), (lit "y", .str [])]
  importPublicKey jwk :=
    match jwk.get? (lit "x") with
    | some (.str s) => some s.length
    | _ => none
  deriveSharedKey m n := m * n

theorem crypto_lawful : crypto.Lawful where
  import_export := by
    intro k
    have hx : (crypto.exportPublicKey k).get? (lit "x") =
        some (.str (List.replicate k (unit 'x'))) := rfl
    simp only [crypto] at hx ⊢
    rw [hx]
    exact congrArg some List.length_replicate
  symmetric := fun p q => Nat.mul_comm (p + 2) (q + 2)

/-- Alice creates a session, Bob answers it in another page, and her stream, connected only
afterwards, tells her. -/
def session : List Event :=
  [.alice (.generated 0), .alice (.exported 0), .alice .start,
    .alice (.create (lit "Alice") (lit "Where?") (lit " Porto")), .alice (.post 0 0 false)] ++
  [.embed 0 (some vector), .name 0 sid, .redis 0 .none, .answer 0].map Event.server ++
  [.alice (.answered 0), .alice (.read 0),
    .bob 0 (.init sid), .bob 0 (.generated 0), .bob 0 (.fetch 0 1 false)] ++
  [.redis 1 .none, .answer 1].map Event.server ++
  [.bob 0 (.answered 0), .bob 0 (.read 0), .bob 0 (.submit (lit "Bob") (lit "porto")),
    .bob 0 (.post 0 2 false)] ++
  [.redis 2 .none, .embed 2 (some vector), .redis 2 .none, .answer 2].map Event.server ++
  [.bob 0 (.answered 0), .bob 0 (.read 0), .bob 0 (.imported 0), .bob 0 (.derived 0),
    .alice (.connected 0 0 0)] ++
  [.read 0 .none, .advance 0, .advance 0, .advance 0, .read 0 .none].map Event.server ++
  [.alice (.received 0), .alice (.received 0), .alice (.received 0), .alice (.imported 0),
    .alice (.derived 0)]

end Sample

/-- It applies to a session that both pages show as passed. -/
theorem same_key_sample :
    let w := (world Sample.config Sample.crypto).after Sample.session
    w.alice.screen = .alicePass ∧ ∃ page key key', w.bobs 0 = some page ∧ page.screen = .bobPass ∧
      (Sample.sid, key) ∈ w.alice.passed ∧ key' ∈ page.passed ∧ key = key' := by
  intro w
  have hreach : (world Sample.config Sample.crypto).Reach Lts.anyStep w :=
    ⟨_, Lts.run_after _ Sample.session (by decide +kernel)⟩
  obtain ⟨hshown, halice, hbob⟩ : w.alice.screen = .alicePass ∧
      w.alice.passed = [(Sample.sid, (6 : ℕ))] ∧
      (w.bobs 0).map (fun page => (page.sid, page.screen, page.passed)) =
        some (Sample.sid, .bobPass, [(6 : ℕ)]) := by decide +kernel
  clear_value w
  rcases Option.map_eq_some_iff.mp hbob with ⟨page, hpage, heq⟩
  obtain ⟨hsid, hscreen, hpassed⟩ : page.sid = Sample.sid ∧ page.screen = .bobPass ∧
      page.passed = [(6 : ℕ)] := by simpa using heq
  have halice' : (Sample.sid, (6 : ℕ)) ∈ w.alice.passed := by simp [halice]
  have hbob' : (6 : ℕ) ∈ page.passed := by simp [hpassed]
  exact ⟨hshown, page, _, _, hpage, hscreen, halice', hbob',
    (same_key Sample.crypto_lawful hreach).2.1 Sample.sid _ _ 0 page halice' hpage hsid hbob'⟩

end Doppelganger
