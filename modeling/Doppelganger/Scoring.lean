import Doppelganger.Server

/-!
# What becomes of a score

A verify request compares the score itself with the threshold, reports the score rounded to
percent, and stores it rounded to four decimals; `terminal_event` reads the stored text back and
rounds that to percent. `replayedPct` is what comes out of the second way.

* `replay_eq_live_iff` — when the event rebuilt from the hash is the event that was published;
* `verdict_agrees_iff` — when the percentages and the stored score tell the verdict.
-/

open Text Redis

namespace Doppelganger

/-! ## Reading a stored score back -/

/-- The number that the decimals `ds` spell after a point. -/
def decimals (ds : Str) : ℚ := natOfDigits ds / 10 ^ ds.length

theorem natOfDigits_append_zero (ds : Str) :
    natOfDigits (ds ++ [unit '0']) = natOfDigits ds * 10 := by
  have hzero : digitValue (unit '0') = 0 := by decide
  simp [natOfDigits, hzero]

/-- Zeros at the end do not count. -/
theorem decimals_rdropWhile (ds : Str) :
    decimals (ds.rdropWhile (· == unit '0')) = decimals ds := by
  induction ds using List.reverseRecOn with
  | nil => rfl
  | append_singleton ds d ih =>
    by_cases hd : d = unit '0'
    · subst hd
      rw [List.rdropWhile_concat_pos _ _ _ (by simp), ih, decimals, decimals,
        natOfDigits_append_zero]
      simp only [List.length_append, List.length_singleton, pow_succ]
      push_cast
      field_simp
    · rw [List.rdropWhile_concat_neg _ _ _ (by simpa using hd)]

/-- The four digits of a number below ten thousand. -/
def fourDigits (m : ℕ) : Str := (List.range 4).map fun i => (48 + m / 10 ^ (3 - i) % 10).toUInt16

theorem fourDigits_all (m : ℕ) : (fourDigits m).all isDigit = true := by
  rw [List.all_eq_true]
  intro u hu
  rcases List.mem_map.mp hu with ⟨i, _, rfl⟩
  exact Json.isDigit_digit (Nat.mod_lt _ (by decide))

theorem decimals_fourDigits {m : ℕ} (h : m < 10000) : decimals (fourDigits m) = m / 10000 := by
  have hdigit : ∀ k, digitValue (48 + k % 10).toUInt16 = k % 10 := fun k =>
    Json.digitValue_digit (Nat.mod_lt _ (by decide))
  have hvalue : natOfDigits (fourDigits m) = m := by
    simp only [fourDigits, natOfDigits, List.range, List.range.loop, List.map_cons, List.map_nil,
      List.foldl_cons, List.foldl_nil, hdigit]
    omega
  rw [decimals, hvalue]
  norm_num [fourDigits]

theorem fractionText_cases (m : ℕ) :
    (fractionText m = lit "0" ∧ (fourDigits m).rdropWhile (· == unit '0') = []) ∨
      fractionText m = (fourDigits m).rdropWhile (· == unit '0') := by
  cases hds : (fourDigits m).rdropWhile (· == unit '0') with
  | nil =>
    rw [fourDigits] at hds
    exact Or.inl ⟨by simp only [fractionText, hds], rfl⟩
  | cons d ds =>
    rw [fourDigits] at hds
    exact Or.inr (by simp only [fractionText, hds])

theorem fractionText_all (m : ℕ) : (fractionText m).all isDigit = true := by
  rcases fractionText_cases m with ⟨hzero, _⟩ | hstripped
  · rw [hzero]
    decide
  · rw [hstripped, List.all_eq_true]
    intro u hu
    exact List.all_eq_true.mp (fourDigits_all m) u ((List.rdropWhile_prefix _ _).subset hu)

theorem decimals_fractionText {m : ℕ} (h : m < 10000) : decimals (fractionText m) = m / 10000 := by
  have hstrip := decimals_rdropWhile (fourDigits m)
  rw [decimals_fourDigits h] at hstrip
  rw [← hstrip]
  rcases fractionText_cases m with ⟨hzero, hnil⟩ | hstripped
  · rw [hzero, hnil]
    have hread : natOfDigits (lit "0") = 0 := by decide
    have hempty : natOfDigits [] = 0 := rfl
    simp [decimals, hread, hempty]
  · rw [hstripped]

/-- A number written with a point is read back. -/
theorem pyFloat_decimal {whole ds : Str} (neg : Bool) (hw : isNatToken whole = true)
    (hds : ds.all isDigit = true) :
    pyFloat ((if neg then lit "-" else []) ++ whole ++ lit "." ++ ds) =
      some ((if neg then -1 else 1) * (natOfDigits whole + decimals ds)) := by
  have hall := List.all_eq_true.mp (Json.isNatToken_all hw)
  obtain ⟨c, rest, rfl⟩ : ∃ c rest, whole = c :: rest := by
    cases whole with
    | nil => cases hw
    | cons c rest => exact ⟨c, rest, rfl⟩
  have hc : c ≠ unit '-' := Json.isDigit_ne (hall c List.mem_cons_self) (by decide)
  have hpoint : isDigit (unit '.') = false := by decide
  have htake : ((c :: rest) ++ (unit '.' :: ds)).takeWhile isDigit = c :: rest := by
    rw [List.takeWhile_append_of_pos hall]
    simp [hpoint]
  have hdrop : ((c :: rest) ++ (unit '.' :: ds)).dropWhile isDigit = unit '.' :: ds := by
    rw [List.dropWhile_append_of_pos hall]
    simp [hpoint]
  have hlit : lit "." = [unit '.'] := by decide
  have hminus : lit "-" = [unit '-'] := by decide
  cases neg with
  | false =>
    have htext : (if false = true then lit "-" else []) ++ (c :: rest) ++ lit "." ++ ds =
        (c :: rest) ++ (unit '.' :: ds) := by simp [hlit]
    have hhead : (((c :: rest) ++ (unit '.' :: ds)).head? == some (unit '-')) = false := by
      simpa using hc
    rw [htext, pyFloat]
    simp only [hhead, Bool.false_eq_true, if_false, htake, hdrop]
    simp [hds, decimals]
  | true =>
    have htext : (if true = true then lit "-" else []) ++ (c :: rest) ++ lit "." ++ ds =
        unit '-' :: ((c :: rest) ++ (unit '.' :: ds)) := by simp [hlit, hminus]
    rw [htext, pyFloat]
    simp only [List.head?_cons, beq_self_eq_true, if_true, List.tail_cons, htake, hdrop]
    simp [hds, decimals]

/-- What is stored of a score is the score rounded to four decimals. -/
theorem pyFloat_scoreText (score : ℚ) :
    pyFloat (scoreText score) = some ((roundEven (score * 10000) : ℚ) / 10000) := by
  have hpos : 0 ≤ roundEven (|score| * 10000) :=
    roundEven_nonneg (mul_nonneg (abs_nonneg score) (by norm_num))
  rcases Int.eq_ofNat_of_zero_le hpos with ⟨m, hm⟩
  have hsplit : ((m / 10000 : ℕ) : ℚ) + ((m % 10000 : ℕ) : ℚ) / 10000 = m / 10000 := by
    have hdiv : m / 10000 * 10000 + m % 10000 = m := Nat.div_add_mod' m 10000
    have hcast : ((m / 10000 : ℕ) : ℚ) * 10000 + ((m % 10000 : ℕ) : ℚ) = m := by exact_mod_cast hdiv
    field_simp
    linarith
  have hread := pyFloat_decimal (decide (score < 0)) (Json.isNatToken_natText (m / 10000))
    (fractionText_all (m % 10000))
  rw [Json.natOfDigits_natText, decimals_fractionText (Nat.mod_lt m (by decide)), hsplit] at hread
  have htext : scoreText score = (if decide (score < 0) = true then lit "-" else []) ++
      natText (m / 10000) ++ lit "." ++ fractionText (m % 10000) := by
    simp [scoreText, hm]
  rw [htext, hread]
  by_cases hneg : score < 0
  · have hround : roundEven (score * 10000) = -m := by
      rw [abs_of_neg hneg, neg_mul, roundEven_neg] at hm
      omega
    simp [hneg, hround]
    ring
  · rw [abs_of_nonneg (not_lt.mp hneg)] at hm
    simp [hneg, hm]

/-! ## The event rebuilt from the hash -/

/-- The percentage that `terminal_event` computes from the stored score. -/
def replayedPct (score : ℚ) : ℤ := pct ((roundEven (score * 10000) : ℚ) / 10000)

theorem storedPct_scoreText (score : ℚ) :
    SessionStore.storedPct (some (scoreText score)) = .ok (replayedPct score) := by
  simp [SessionStore.storedPct, pyFloat_scoreText, replayedPct]

/-- The event of an outcome, with percentage `p`. -/
def outcomeEvent (env : Env) (form : VerifyForm) (score : ℚ) (p : ℤ) : Json :=
  if passed env score then SessionStore.verifiedEvent (.str form.bobName) form.bobPubkeyJwk p
  else SessionStore.failedEvent p

theorem event_eq (env : Env) (form : VerifyForm) (score : ℚ) :
    event env form score = outcomeEvent env form score (pct score) := rfl

theorem outcomeEvent_inj {env : Env} {form : VerifyForm} {score : ℚ} {p q : ℤ} :
    outcomeEvent env form score p = outcomeEvent env form score q ↔ p = q := by
  constructor
  · intro h
    unfold outcomeEvent at h
    split_ifs at h
    · simpa [SessionStore.verifiedEvent] using h
    · simpa [SessionStore.failedEvent] using h
  · rintro rfl
    rfl

/-- The `score` member of an event or an answer. -/
def reportedScore (j : Json) : Option ℤ :=
  match j.get? (lit "score") with
  | some (.int n) => some n
  | _ => none

theorem reportedScore_outcomeEvent (env : Env) (form : VerifyForm) (score : ℚ) (p : ℤ) :
    reportedScore (outcomeEvent env form score p) = some p := by
  unfold outcomeEvent
  split_ifs <;> rfl

/-- The stored score, as a number. -/
def storedScore (db : Store) (sid : Str) : Option ℚ :=
  (db.hget (key sid) .similarityScore).bind pyFloat

section
variable {env : Env} {db db' : Store} {sid : Str} {form : VerifyForm} {score : ℚ}
  {published : List Message}

/-- A call of `finalize` that won wrote its outcome over the hash and published its event. -/
theorem of_won (h : SessionStore.finalize db sid (updates env form score) (event env form score) =
      (db', published, .won)) :
    (∃ session : Session, ∀ f,
      db'.hget (key sid) f = Hash.write session (updates env form score) f) ∧
    published = [⟨channel sid, (event env form score).dumps⟩] := by
  cases hdb : db.db (key sid) with
  | none => simp [SessionStore.finalize_of_none hdb] at h
  | some e =>
    by_cases hp : e.fields .phase = some waitingForBob
    · rw [SessionStore.finalize_of_waiting hdb hp] at h
      simp only [Prod.mk.injEq] at h
      rcases h with ⟨rfl, rfl, _⟩
      exact ⟨⟨e.fields, fun f => by simp [Server.hget]⟩, rfl⟩
    · simp [SessionStore.finalize_of_completed hdb hp] at h

variable (h : SessionStore.finalize db sid (updates env form score) (event env form score) =
  (db', published, .won))
include h

theorem getPhase_of_won :
    SessionStore.getPhase db' sid = some (if passed env score then verified else failed) := by
  rcases of_won h with ⟨⟨session, hread⟩, _⟩
  rw [SessionStore.getPhase, hread]
  by_cases hp : passed env score = true <;> simp [updates, hp, Hash.write]

theorem getPhase_of_won_iff :
    SessionStore.getPhase db' sid = some verified ↔ passed env score = true := by
  have hne : failed ≠ verified := verified_ne_failed.symm
  rw [getPhase_of_won h]
  by_cases hp : passed env score = true <;> simp [hp, hne]

theorem hget_similarityScore_of_won :
    db'.hget (key sid) .similarityScore = some (scoreText score) := by
  rcases of_won h with ⟨⟨session, hread⟩, _⟩
  rw [hread]
  by_cases hp : passed env score = true <;> simp [updates, hp, Hash.write]

theorem storedScore_of_won : storedScore db' sid = some ((roundEven (score * 10000) : ℚ) / 10000) := by
  simp [storedScore, hget_similarityScore_of_won h, pyFloat_scoreText]

/-- The event rebuilt from the hash differs from the published one in the percentage at most. -/
theorem terminalEvent_of_won :
    SessionStore.terminalEvent db' sid =
      .ok (some (outcomeEvent env form score (replayedPct score))) := by
  have hphase := getPhase_of_won h
  have hscore := hget_similarityScore_of_won h
  rcases of_won h with ⟨⟨session, hread⟩, _⟩
  unfold SessionStore.getPhase at hphase
  by_cases hp : passed env score = true
  · have hname : db'.hget (key sid) .bobName = some form.bobName := by
      simp [hread, updates, hp, Hash.write]
    have hjwk : db'.hget (key sid) .bobPubkeyJwk = some form.bobPubkeyJwk.dumps := by
      simp [hread, updates, hp, Hash.write]
    simp only [hp, if_true] at hphase
    simp [SessionStore.terminalEvent, hphase, hname, hjwk, hscore, Json.loads_dumps,
      storedPct_scoreText, outcomeEvent, hp, SessionStore.ofField]
  · have hne : failed ≠ verified := verified_ne_failed.symm
    simp only [hp] at hphase
    simp [SessionStore.terminalEvent, hphase, hne, hscore, storedPct_scoreText, outcomeEvent, hp]

end

/-- Bob is told the percentage that is published. -/
theorem reportedScore_verifyResponse {env : Env} {session : Session} {score : ℚ}
    {response : Response} (h : verifyResponse env session score .won = .ok response) :
    reportedScore response.body = some (pct score) := by
  unfold verifyResponse at h
  by_cases hp : passed env score = true
  · simp only [hp, if_true] at h
    cases hjwk : session .alicePubkeyJwk with
    | none => simp [field, hjwk, bind, Except.bind] at h
    | some text =>
      cases hload : Json.loads text with
      | none => simp [field, hjwk, hload, bind, Except.bind] at h
      | some jwk =>
        simp only [field, hjwk, hload, bind, Except.bind, Except.ok.injEq] at h
        rw [← h]
        rfl
  · simp only [hp, Bool.false_eq_true, if_false, Except.ok.injEq] at h
    rw [← h]
    rfl

theorem pct_roundsTo (score : ℚ) : RoundsTo (score * 100) (pct score) := roundEven_roundsTo _

theorem replayedPct_roundsTo (score : ℚ) :
    RoundsTo ((roundEven (score * 10000) : ℚ) / (100 : ℤ)) (replayedPct score) := by
  have hscale : (roundEven (score * 10000) : ℚ) / 10000 * 100 =
      (roundEven (score * 10000) : ℚ) / (100 : ℤ) := by
    push_cast
    ring
  rw [← hscale]
  exact roundEven_roundsTo _

theorem storedScore_roundsTo (score : ℚ) :
    RoundsTo ((100 : ℤ) * (score * 100)) (roundEven (score * 10000)) := by
  have hscale : ((100 : ℤ) : ℚ) * (score * 100) = score * 10000 := by
    push_cast
    ring
  rw [hscale]
  exact roundEven_roundsTo _

/-! The percentages below an integer: the replayed one turns half a unit of the fourth decimal
before or after the live one. -/

section
variable {t : ℤ} {score : ℚ}

theorem pct_lt_iff_of_even (ht : Even t) : pct score < t ↔ score * 100 < t - 1 / 2 := by
  rw [← not_le, (pct_roundsTo score).le_iff_of_even ht, not_le]

theorem pct_lt_iff_of_odd (ht : Odd t) : pct score < t ↔ score * 100 ≤ t - 1 / 2 := by
  rw [← not_le, (pct_roundsTo score).le_iff_of_odd ht, not_lt]

theorem replayedPct_lt_iff_of_even (ht : Even t) :
    replayedPct score < t ↔ score * 100 < t - 1 / 2 - 1 / 200 := by
  rw [← not_le, RoundsTo.twice_le_iff_of_even (by norm_num) (by norm_num)
    (storedScore_roundsTo score) (replayedPct_roundsTo score) ht, not_le]
  norm_num

theorem replayedPct_lt_iff_of_odd (ht : Odd t) :
    replayedPct score < t ↔ score * 100 ≤ t - 1 / 2 + 1 / 200 := by
  rw [← not_le, RoundsTo.twice_le_iff_of_odd (by norm_num) (by norm_num)
    (storedScore_roundsTo score) (replayedPct_roundsTo score) ht, not_lt]
  norm_num

end

/-! ## The replayed event is the live event, away from the half percents

Rounding to four decimals first moves a score that is at most a half unit of the fourth decimal
off a half percent onto it, and from there it goes to the even percentage. -/

theorem replay_eq_live_iff {env : Env} {db db' : Store} {sid : Str} {form : VerifyForm} {score : ℚ}
    {published : List Message}
    (h : SessionStore.finalize db sid (updates env form score) (event env form score) =
      (db', published, .won)) :
    published = [⟨channel sid, (event env form score).dumps⟩] ∧
    (∀ session response, verifyResponse env session score .won = .ok response →
      reportedScore response.body = reportedScore (event env form score)) ∧
    (SessionStore.terminalEvent db' sid = .ok (some (event env form score)) ↔
      ∀ m, ¬ RoundsTo.Apart 100 (score * 100) m) := by
  refine ⟨(of_won h).2, ?_, ?_⟩
  · intro session response hanswer
    rw [reportedScore_verifyResponse hanswer, event_eq, reportedScore_outcomeEvent]
  · rw [terminalEvent_of_won h, event_eq, Except.ok.injEq, Option.some.injEq, outcomeEvent_inj]
    exact RoundsTo.eq_twice_iff (by norm_num) (by norm_num) (pct_roundsTo score)
      (storedScore_roundsTo score) (replayedPct_roundsTo score)

namespace Sample

/-- Alice's session, before anyone answered. -/
def waitingStore : Store :=
  (SessionStore.create Server.init sid
    ⟨lit "Alice", lit "Where?", lit "Porto", jwk (lit "alice")⟩ vector (lit "0") 600).1

def bobForm : VerifyForm := ⟨lit "Bob", lit "porto", jwk (lit "bob")⟩

/-- What `finalize` makes of it when Bob's answer scores `score`. -/
def finalized (score : ℚ) : Store × List Message × SessionStore.Outcome :=
  SessionStore.finalize waitingStore sid (updates config bobForm score)
    (event config bobForm score)

end Sample

/-- A full score is far from a half percent. -/
theorem replay_eq_live_sample :
    SessionStore.terminalEvent (Sample.finalized 1).1 Sample.sid =
        .ok (some (event Sample.config Sample.bobForm 1)) := by
  have hwon : Sample.finalized 1 = ((Sample.finalized 1).1, (Sample.finalized 1).2.1, .won) := by
    have houtcome : (Sample.finalized 1).2.2 = .won := by decide +kernel
    rw [← houtcome]
  refine (replay_eq_live_iff hwon).2.2.mpr ?_
  -- no integer lies that close to 100.5
  rintro m (⟨_, hlo, hhi⟩ | ⟨_, hlo, hhi⟩)
  · have h₁ : ((2 * m : ℤ) : ℚ) > (201 : ℤ) := by
      push_cast
      linarith
    have h₂ : ((200 * m : ℤ) : ℚ) ≤ (20101 : ℤ) := by
      push_cast at hlo ⊢
      linarith
    have h₁' : 2 * m > 201 := by exact_mod_cast h₁
    have h₂' : 200 * m ≤ 20101 := by exact_mod_cast h₂
    omega
  · have h₁ : ((2 * m : ℤ) : ℚ) < (201 : ℤ) := by
      push_cast
      linarith
    have h₂ : ((200 * m : ℤ) : ℚ) ≥ (20099 : ℤ) := by
      push_cast at hhi ⊢
      linarith
    have h₁' : 2 * m < 201 := by exact_mod_cast h₁
    have h₂' : 200 * m ≥ 20099 := by exact_mod_cast h₂
    omega

/-- A score of 0.75499 is reported as 75 percent, and replayed as 76 percent. -/
theorem replay_ne_live :
    (Sample.finalized (75499 / 100000)).2.2 = .won ∧
    event Sample.config Sample.bobForm (75499 / 100000) =
      SessionStore.verifiedEvent (.str (lit "Bob")) (Sample.jwk (lit "bob")) 75 ∧
    SessionStore.terminalEvent (Sample.finalized (75499 / 100000)).1 Sample.sid =
      .ok (some (SessionStore.verifiedEvent (.str (lit "Bob")) (Sample.jwk (lit "bob")) 76)) := by
  decide +kernel

/-! ## The reported scores and the verdict

The verdict compares the score itself. On a pass every rounded value meets the threshold as well; a
failed score can be rounded up to it. -/

/-- The percentage in `event` and the stored score tell whether the session is verified. -/
structure Agrees (env : Env) (db : Store) (sid : Str) (event : Json) : Prop where
  reported : SessionStore.getPhase db sid = some verified ↔
    ∃ p : ℤ, reportedScore event = some p ∧ 100 * env.similarityThreshold ≤ p
  stored : SessionStore.getPhase db sid = some verified ↔
    ∃ x, storedScore db sid = some x ∧ env.similarityThreshold ≤ x

section
variable {env : Env} {t : ℤ} (ht : env.similarityThreshold = t / 100)
include ht

theorem passed_iff (score : ℚ) : passed env score = true ↔ (t : ℚ) ≤ score * 100 := by
  rw [passed, ht, decide_eq_true_iff, div_le_iff₀ (by norm_num)]

/-- The stored score meets the threshold from half a unit of the fourth decimal below it on. -/
theorem stored_meets_iff (score : ℚ) :
    env.similarityThreshold ≤ (roundEven (score * 10000) : ℚ) / 10000 ↔
      (t : ℚ) - 1 / 200 ≤ score * 100 := by
  have hgrid : (t : ℚ) / 100 ≤ (roundEven (score * 10000) : ℚ) / 10000 ↔
      t * 100 ≤ roundEven (score * 10000) := by
    rw [div_le_div_iff₀ (by norm_num) (by norm_num)]
    constructor
    · intro hx
      have hcast : ((t * 100 : ℤ) : ℚ) ≤ roundEven (score * 10000) := by
        push_cast
        linarith
      exact_mod_cast hcast
    · intro hx
      have hcast : ((t * 100 : ℤ) : ℚ) ≤ roundEven (score * 10000) := by exact_mod_cast hx
      push_cast at hcast
      linarith
  have heven : Even (t * 100) := Even.mul_left (by decide) t
  rw [ht, hgrid, (storedScore_roundsTo score).le_iff_of_even heven]
  push_cast
  constructor
  · intro hx
    linarith
  · intro hx
    linarith

variable {db db' : Store} {sid : Str} {form : VerifyForm} {score : ℚ} {published : List Message}
  (h : SessionStore.finalize db sid (updates env form score) (event env form score) =
    (db', published, .won))
include h

/-- An outcome event with percentage `p` tells the verdict when `p` and the stored score meet the
threshold only if the score does. -/
theorem agrees_iff {p : ℤ} (hp : (t : ℚ) ≤ score * 100 → t ≤ p) :
    Agrees env db' sid (outcomeEvent env form score p) ↔
      (t : ℚ) ≤ score * 100 ∨ p < t ∧ score * 100 < t - 1 / 200 := by
  have hcast : 100 * env.similarityThreshold ≤ (p : ℚ) ↔ t ≤ p := by
    rw [ht, mul_div_cancel₀ _ (by norm_num), Int.cast_le]
  have hphase := getPhase_of_won_iff h
  have hpass := passed_iff ht score
  have hstored := stored_meets_iff ht score
  constructor
  · rintro ⟨hreported, hstore⟩
    simp only [hphase, hpass, reportedScore_outcomeEvent, Option.some.injEq, exists_eq_left',
      hcast] at hreported
    simp only [hphase, hpass, storedScore_of_won h, Option.some.injEq, exists_eq_left',
      hstored] at hstore
    by_cases hs : (t : ℚ) ≤ score * 100
    · exact Or.inl hs
    · exact Or.inr ⟨not_le.mp fun hx => hs (hreported.mpr hx),
        not_le.mp fun hx => hs (hstore.mpr hx)⟩
  · intro hcond
    constructor
    · simp only [hphase, hpass, reportedScore_outcomeEvent, Option.some.injEq, exists_eq_left',
        hcast]
      rcases hcond with hs | ⟨hlt, _⟩
      · exact ⟨fun _ => hp hs, fun _ => hs⟩
      · exact ⟨hp, fun hx => absurd hx (not_le.mpr hlt)⟩
    · simp only [hphase, hpass, storedScore_of_won h, Option.some.injEq, exists_eq_left', hstored]
      rcases hcond with hs | ⟨_, hlt⟩
      · exact ⟨fun _ => by linarith, fun _ => hs⟩
      · exact ⟨fun hx => by linarith, fun hx => absurd hx (not_le.mpr hlt)⟩

end

/-- The reported percentage, and the one replayed later, agree with the verdict exactly when the
score is not rounded up to a threshold that it misses. -/
theorem verdict_agrees_iff {env : Env} {t : ℤ} (ht : env.similarityThreshold = t / 100)
    {db db' : Store} {sid : Str} {form : VerifyForm} {score : ℚ} {published : List Message}
    (h : SessionStore.finalize db sid (updates env form score) (event env form score) =
      (db', published, .won)) :
    (SessionStore.getPhase db' sid = some verified ↔ passed env score = true) ∧
    (Agrees env db' sid (event env form score) ↔
      (t : ℚ) ≤ score * 100 ∨ score * 100 < t - 1 / 2 ∨ Odd t ∧ score * 100 = t - 1 / 2) ∧
    ((Agrees env db' sid (event env form score) ∧
        ∃ replayed, SessionStore.terminalEvent db' sid = .ok (some replayed) ∧
          Agrees env db' sid replayed) ↔
      (t : ℚ) ≤ score * 100 ∨ Odd t ∧ score * 100 ≤ t - 1 / 2 ∨
        Even t ∧ score * 100 < t - 1 / 2 - 1 / 200) := by
  have hlive : (t : ℚ) ≤ score * 100 → t ≤ pct score := fun hs =>
    (RoundsTo.intCast t).mono (pct_roundsTo score) hs
  have hgrid : (t : ℚ) ≤ score * 100 → t ≤ replayedPct score := by
    intro hs
    refine (RoundsTo.intCast t).mono (replayedPct_roundsTo score) ?_
    have hr : t * 100 ≤ roundEven (score * 10000) := by
      refine (RoundsTo.intCast (α := ℚ) (t * 100)).mono (storedScore_roundsTo score) ?_
      push_cast
      linarith
    have hcast : ((t * 100 : ℤ) : ℚ) ≤ roundEven (score * 10000) := by exact_mod_cast hr
    rw [le_div_iff₀ (by norm_num)]
    exact_mod_cast hr
  rw [event_eq, terminalEvent_of_won h]
  simp only [Except.ok.injEq, Option.some.injEq, exists_eq_left']
  rw [agrees_iff ht h hlive, agrees_iff ht h hgrid]
  refine ⟨getPhase_of_won_iff h, ?_, ?_⟩
  · rcases Int.even_or_odd t with hparity | hparity
    · have hodd : ¬ Odd t := Int.not_odd_iff_even.mpr hparity
      simp only [pct_lt_iff_of_even hparity, hodd, false_and, or_false]
      refine or_congr_right ⟨fun hx => hx.1, fun hx => ⟨hx, by linarith⟩⟩
    · simp only [pct_lt_iff_of_odd hparity, hparity, true_and, ← le_iff_lt_or_eq]
      refine or_congr_right ⟨fun hx => hx.1, fun hx => ⟨hx, by linarith⟩⟩
  · rcases Int.even_or_odd t with hparity | hparity
    · have hodd : ¬ Odd t := Int.not_odd_iff_even.mpr hparity
      simp only [pct_lt_iff_of_even hparity, replayedPct_lt_iff_of_even hparity, ← or_and_left,
        hparity, hodd, false_and, true_and, false_or]
      refine or_congr_right ⟨fun hx => hx.2.1, fun hx => ?_⟩
      exact ⟨⟨by linarith, by linarith⟩, hx, by linarith⟩
    · have heven : ¬ Even t := Int.not_even_iff_odd.mpr hparity
      simp only [pct_lt_iff_of_odd hparity, replayedPct_lt_iff_of_odd hparity, ← or_and_left,
        hparity, heven, false_and, true_and, or_false]
      refine or_congr_right ⟨fun hx => hx.1.1, fun hx => ?_⟩
      exact ⟨⟨hx, by linarith⟩, by linarith, by linarith⟩

/-- With a threshold of 75 percent, half a point below it is far enough and less is not. -/
theorem verdict_agrees_sample :
    Agrees Sample.config (Sample.finalized (745 / 1000)).1 Sample.sid
      (event Sample.config Sample.bobForm (745 / 1000)) := by
  have houtcome : (Sample.finalized (745 / 1000)).2.2 = .won := by decide +kernel
  have hwon : Sample.finalized (745 / 1000) =
      ((Sample.finalized (745 / 1000)).1, (Sample.finalized (745 / 1000)).2.1, .won) := by
    rw [← houtcome]
  have hthreshold : Sample.config.similarityThreshold = ((75 : ℤ) : ℚ) / 100 := by
    norm_num [Sample.config]
  refine (verdict_agrees_iff hthreshold hwon).2.1.mpr ?_
  exact Or.inr (Or.inr ⟨by decide, by norm_num⟩)

/-- A score of 0.746 fails, and is reported as 75 percent. -/
theorem failed_session_reports_threshold :
    (Sample.finalized (746 / 1000)).2.2 = .won ∧
    SessionStore.getPhase (Sample.finalized (746 / 1000)).1 Sample.sid = some failed ∧
    reportedScore (event Sample.config Sample.bobForm (746 / 1000)) = some 75 ∧
    100 * Sample.config.similarityThreshold ≤ 75 ∧
    ¬ Agrees Sample.config (Sample.finalized (746 / 1000)).1 Sample.sid
      (event Sample.config Sample.bobForm (746 / 1000)) := by
  have hphase : SessionStore.getPhase (Sample.finalized (746 / 1000)).1 Sample.sid = some failed := by
    decide +kernel
  have hreported : reportedScore (event Sample.config Sample.bobForm (746 / 1000)) = some 75 := by
    decide +kernel
  have hmeets : 100 * Sample.config.similarityThreshold ≤ 75 := by norm_num [Sample.config]
  refine ⟨by decide +kernel, hphase, hreported, hmeets, ?_⟩
  intro hagrees
  have hverified := hagrees.reported.mpr ⟨75, hreported, hmeets⟩
  rw [hphase] at hverified
  exact verified_ne_failed (Option.some.inj hverified).symm

end Doppelganger
