import Doppelganger.Delivery
import Doppelganger.Faults

/-!
# Streams and answers agree

Alice hears about an outcome on two paths: the message a winner published, and the
event `terminal_event` rebuilds from the hash. Both name the one call that won, so
whatever her streams report, and whenever, is what that call was answered.
-/

open Text Redis

namespace Doppelganger

variable {env : Env} {σ : State}

/-- Stream `st` has yielded event `ev`, of kind `kind`. -/
def Stream.Emitted (st : Stream) (kind : Str) (ev : Json) : Prop :=
  ∃ data, .message data ∈ st.out ∧ Json.loads data = some ev ∧
    ev.get? (lit "event") = some (.str kind)

/-- The phase a winner moved its session to. -/
def Commit.outcome (env : Env) (k : Commit) : Str := if passed env k.score then verified else failed

/-- A verify request that was answered an outcome has won its session. -/
theorem Inv.won_of_answer (hi : Inv env σ) {r : ℕ} {sid : Str} {body : Json} {response : Response}
    (hreq : σ.request? r = some (.verify sid body)) (hans : σ.answer? r = some response)
    (hok : ¬ response.isError) :
    ∃ k ∈ σ.commits, k.req = r ∧ k.sid = sid ∧
      ∃ c ∈ σ.creations, c.sid = sid ∧ response = c.response env k := by
  rcases (State.answer?_eq_some _).mp hans with ⟨q, hdone⟩
  rcases (State.request?_eq_some _).mp hreq with ⟨handler, hreq⟩
  rcases Req.mk.inj (Option.some.inj (hdone.symm.trans hreq)) with ⟨rfl, rfl⟩
  rcases hi.handlers r _ hdone with h | h
  · exact h
  · exact absurd h hok

/-- What an outcome reports. -/
theorem event_of_reports {k : Commit} {data kind : Str} {ev : Json} (h : Reports env k data)
    (hload : Json.loads data = some ev) (hkind : ev.get? (lit "event") = some (.str kind)) :
    kind = k.outcome env ∧ (kind = verified →
      ev.get? (lit "bob_name") = some (.str k.form.bobName) ∧
      ev.get? (lit "bob_pubkey_jwk") = some k.form.bobPubkeyJwk) := by
  rcases h with ⟨score, rfl⟩
  rw [Json.loads_dumps] at hload
  obtain rfl := Option.some.inj hload
  by_cases hp : passed env k.score = true
  · simp only [hp, if_true] at hkind ⊢
    have hverified : kind = verified := by
      have hget : (SessionStore.verifiedEvent (.str k.form.bobName) k.form.bobPubkeyJwk score).get?
          (lit "event") = some (.str verified) := rfl
      simpa [hget] using hkind.symm
    exact ⟨by simp [Commit.outcome, hp, hverified], fun _ => ⟨rfl, rfl⟩⟩
  · simp only [hp] at hkind ⊢
    have hfailed : kind = failed := by
      have hget : (SessionStore.failedEvent score).get? (lit "event") = some (.str failed) := rfl
      simpa [hget] using hkind.symm
    refine ⟨by simp [Commit.outcome, hp, hfailed], fun hv => ?_⟩
    exact absurd (hv.symm.trans hfailed) verified_ne_failed

/-- An outcome that a stream emits is the outcome of the one winner of its session. -/
theorem winner_of_emitted (hf : Flow env σ) {i : ℕ} {st : Stream}
    (hst : σ.streams i = some st) {kind : Str} {ev : Json} (hev : st.Emitted kind ev)
    (hkind : kind = verified ∨ kind = failed) :
    ∃ k ∈ σ.commits, k.sid = st.sid ∧ kind = k.outcome env ∧ (kind = verified →
      ev.get? (lit "bob_name") = some (.str k.form.bobName) ∧
      ev.get? (lit "bob_pubkey_jwk") = some k.form.bobPubkeyJwk) := by
  rcases hev with ⟨data, hout, hload, hget⟩
  rcases (hf.streams i st hst).said data hout with ⟨phase, rfl⟩ | rfl | ⟨k, hk, hs, hrep⟩
  · -- CONNECTED is no outcome
    exfalso
    rw [Json.loads_dumps] at hload
    obtain rfl := Option.some.inj hload
    have hc : (connectedEvent phase).get? (lit "event") = some (.str (lit "CONNECTED")) := rfl
    have heq : kind = lit "CONNECTED" := by simpa [hc] using hget.symm
    subst heq
    rcases hkind with h | h <;> exact absurd h (by decide)
  · -- nor is EXPIRED
    exfalso
    rw [Json.loads_dumps] at hload
    obtain rfl := Option.some.inj hload
    have hc : SessionStore.expiredEvent.get? (lit "event") = some (.str expired) := rfl
    have heq : kind = expired := by simpa [hc] using hget.symm
    subst heq
    rcases hkind with h | h <;> exact absurd h (by decide)
  · exact ⟨k, hk, hs, event_of_reports hrep hload hget⟩

/-- Every VERIFIED or FAILED event that a stream of a session has emitted, live or replayed, carries
the outcome of the one verify request that finalized the session, with its name and key; no other
request of the session was answered an outcome, and, unless that request's own reply was lost, it
was answered what the stream reports. So two streams of a session never disagree. -/
theorem outcome_agreement (h : (server env).Reach Lts.anyStep σ) :
    (∀ i st kind ev, σ.streams i = some st → st.Emitted kind ev → kind = verified ∨ kind = failed →
      ∃ k ∈ σ.commits, k.sid = st.sid ∧ (∀ k' ∈ σ.commits, k'.sid = st.sid → k' = k) ∧
        kind = k.outcome env ∧
        (kind = verified → ev.get? (lit "bob_name") = some (.str k.form.bobName) ∧
          ev.get? (lit "bob_pubkey_jwk") = some k.form.bobPubkeyJwk) ∧
        (∃ body, σ.request? k.req = some (.verify st.sid body) ∧ verifyForm body = some k.form) ∧
        (∀ r body response, σ.request? r = some (.verify st.sid body) →
          σ.answer? r = some response →
          (response.isPass → r = k.req ∧ kind = verified) ∧
          (response.isFail → r = k.req ∧ kind = failed)) ∧
        ((server env).Reach winsArrive σ → ∀ response, σ.answer? k.req = some response →
          (kind = verified → response.isPass) ∧ (kind = failed → response.isFail))) ∧
    (∀ i j st st' kind kind' ev ev', σ.streams i = some st → σ.streams j = some st' →
      st.sid = st'.sid → st.Emitted kind ev → st'.Emitted kind' ev' →
      (kind = verified ∨ kind = failed) → (kind' = verified ∨ kind' = failed) →
      kind = kind' ∧ (kind = verified →
        ev.get? (lit "bob_name") = ev'.get? (lit "bob_name") ∧
        ev.get? (lit "bob_pubkey_jwk") = ev'.get? (lit "bob_pubkey_jwk"))) := by
  rcases Flow.of_reach h with ⟨hi, hf⟩
  constructor
  · intro i st kind ev hst hev hkind
    rcases winner_of_emitted hf hst hev hkind with ⟨k, hk, hs, houtcome, hdata⟩
    have hunique : ∀ k' ∈ σ.commits, k'.sid = st.sid → k' = k := fun k' hk' hs' =>
      hi.commit_unique hk' hk (hs'.trans hs.symm)
    rcases hi.committer k hk with ⟨body, handler, _, _, hreq, hacc, _⟩
    refine ⟨k, hk, hs, hunique, houtcome, hdata,
      ⟨body, (State.request?_eq_some _).mpr ⟨handler, hs ▸ hreq⟩, hacc.2⟩, ?_, ?_⟩
    · intro r body' response hreq' hans
      constructor
      · intro hpass
        rcases hi.won_of_answer hreq' hans hpass.not_isError with ⟨k', hk', hr, hs', c, _, _, rfl⟩
        obtain rfl := hunique k' hk' hs'
        have hp := (c.response_isPass_iff k').mp hpass
        exact ⟨hr.symm, by simp [houtcome, Commit.outcome, hp]⟩
      · intro hfail
        rcases hi.won_of_answer hreq' hans hfail.not_isError with ⟨k', hk', hr, hs', c, _, _, rfl⟩
        obtain rfl := hunique k' hk' hs'
        have hp := (c.response_isFail_iff k').mp hfail
        exact ⟨hr.symm, by simp [houtcome, Commit.outcome, hp]⟩
    · rintro ⟨ls, hrun⟩ response hans
      rcases (truthful_of_run hrun).2 k hk with ⟨req, c, _, hreq', _, hresp⟩
      rcases (State.answer?_eq_some _).mp hans with ⟨q, hdone⟩
      obtain rfl := Option.some.inj (hreq'.symm.trans hdone)
      obtain rfl := Option.some.inj hresp
      rw [c.response_isPass_iff k, c.response_isFail_iff k, houtcome, Commit.outcome]
      have hne := verified_ne_failed
      by_cases hp : passed env k.score = true <;> simp [hp, hne, hne.symm]
  · intro i j st st' kind kind' ev ev' hst hst' hsid hev hev' hkind hkind'
    rcases winner_of_emitted hf hst hev hkind with ⟨k, hk, hs, houtcome, hdata⟩
    rcases winner_of_emitted hf hst' hev' hkind' with ⟨k', hk', hs', houtcome', hdata'⟩
    obtain rfl := hi.commit_unique hk hk' (hs.trans (hsid.trans hs'.symm))
    have hsame : kind = kind' := houtcome.trans houtcome'.symm
    refine ⟨hsame, fun hv => ?_⟩
    rcases hdata hv with ⟨hname, hjwk⟩
    rcases hdata' (hsame ▸ hv) with ⟨hname', hjwk'⟩
    exact ⟨hname.trans hname'.symm, hjwk.trans hjwk'.symm⟩

/-- It applies to a session whose outcome was forwarded live. -/
theorem outcome_agreement_sample :
    let σ := (server Sample.config).after Sample.delivered
    ∃ st ev, σ.streams 0 = some st ∧ st.Emitted verified ev ∧
      ∃ k ∈ σ.commits, k.sid = st.sid ∧ ev.get? (lit "bob_name") = some (.str k.form.bobName) := by
  intro σ
  have hrun := Lts.run_after (server Sample.config) Sample.delivered (by decide +kernel)
  let ev := SessionStore.verifiedEvent (.str (lit "bob")) (Sample.jwk (lit "bob")) 100
  have hst : σ.streams 0 = some ⟨Sample.sid, 0, .atMessage 900000 ev.dumps, [],
      [.retry, .message (connectedEvent waitingForBob).dumps, .message ev.dumps]⟩ := by
    decide +kernel
  have hev : Stream.Emitted ⟨Sample.sid, 0, .atMessage 900000 ev.dumps, [],
      [.retry, .message (connectedEvent waitingForBob).dumps, .message ev.dumps]⟩ verified ev :=
    ⟨ev.dumps, by simp, Json.loads_dumps ev, rfl⟩
  obtain ⟨k, hk, hs, _, _, hdata, _⟩ :=
    (outcome_agreement ⟨_, hrun⟩).1 0 _ verified ev hst hev (Or.inl rfl)
  exact ⟨_, ev, hst, hev, k, hk, hs, (hdata rfl).1⟩

end Doppelganger
