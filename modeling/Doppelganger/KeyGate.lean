import Doppelganger.Faults
import Doppelganger.TwoRuns

/-!
# The key gate

Alice's public key leaves the server in one place, the PASS that answers the one
verify request that finalized her session with a score at the threshold or above.
Two runs that differ in the key she posted are told apart by nothing else.
-/

open Text Redis

namespace Doppelganger

variable {env : Env} {ls : List Label} {σ σ' : State}

/-- Create request `r` posts the key `jwk` instead. -/
def Label.postKey (r : ℕ) (jwk : Json) : Label → Label
  | .request r' (.create body) limited =>
    if r' = r then .request r' (.create (body.set (lit "alice_pubkey_jwk") jwk)) limited
    else .request r' (.create body) limited
  | l => l

/-- A key that both validators accept. -/
def ValidKey (jwk : Json) : Prop := jwk.isObj = true ∧ isP256 jwk = true

/-- What the outside can tell apart of two states is the key in the hash of session `s`, and the key
in the PASS of a verify request on it. -/
structure SameButKey (s : Str) (jwk : Json) (σ σ' : State) : Prop where
  published : σ'.published = σ.published
  streams : σ'.streams = σ.streams
  answers : ∀ r, σ'.answer? r = σ.answer? r ∨
    ∃ body score k, σ.request? r = some (.verify s body) ∧
      σ.answer? r = some (passResponse score k) ∧ σ'.answer? r = some (passResponse score jwk)
  fields : ∀ k f, k ≠ key s ∨ f ≠ .alicePubkeyJwk → σ'.store.hget k f = σ.store.hget k f
  present : ∀ k, (σ'.store.db k).map Entry.expiresAt = (σ.store.db k).map Entry.expiresAt

/-- Request `r` posts `jwk` for session `s`. -/
def keyTwin (r : ℕ) (s : Str) (jwk : Json) : Twin where
  postedKey r' k := if r' = r then jwk else k
  postedVector _ v := v
  storedKey s' k := if s' = s then jwk else k
  storedVector _ v := v

/-- A valid body with another valid key in it is valid, and read the same otherwise. -/
theorem acceptsCreate_set_key {body jwk : Json} {form : CreateForm} (h : AcceptsCreate body form)
    (hjwk : ValidKey jwk) : AcceptsCreate (body.set (lit "alice_pubkey_jwk") jwk)
      { form with alicePubkeyJwk := jwk } := by
  rcases validateSessionCreate_eq_none.mp h.1 with ⟨hobj, form', hform', hvalid⟩
  obtain rfl := Option.some.inj (h.2.symm.trans hform')
  rcases createForm_eq_some.mp h.2 with ⟨hname, hquestion, hanswer, _⟩
  have hother : ∀ name, name ≠ lit "alice_pubkey_jwk" →
      stringMember (body.set (lit "alice_pubkey_jwk") jwk) name = stringMember body name := by
    intro name hne
    simp only [stringMember, Json.get?_set_ne hne]
  have hset : createForm (body.set (lit "alice_pubkey_jwk") jwk) =
      some { form with alicePubkeyJwk := jwk } := by
    refine createForm_eq_some.mpr ⟨?_, ?_, ?_, Json.get?_set_self hobj _ _⟩
    · rw [hother _ (by decide)]
      exact hname
    · rw [hother _ (by decide)]
      exact hquestion
    · rw [hother _ (by decide)]
      exact hanswer
  refine ⟨validateSessionCreate_eq_none.mpr ⟨by rw [Json.isObj_set]; exact hobj, _, hset, ?_⟩, hset⟩
  exact ⟨hvalid.aliceName, hvalid.memoryQuestion, hvalid.memoryAnswer, hjwk⟩

theorem start_of_accepts {body : Json} {form : CreateForm} (h : AcceptsCreate body form) :
    Handler.start (.create body) = .embedding form := by
  simp [Handler.start, h.1, h.2]

/-- The labels of a run and those with the other key are related. -/
theorem keyTwin_labels {ok : Lts.Guard State Label}
    (hrun : (server env).Run ok (server env).init ls σ) {r : ℕ} {s : Str} {jwk : Json}
    (hname : .name r s ∈ ls) (hjwk : ValidKey jwk) {ls₁ : List Label} (hsub : ∀ l ∈ ls₁, l ∈ ls) :
    List.Forall₂ ((keyTwin r s jwk).Labels env) ls₁ (ls₁.map (Label.postKey r jwk)) := by
  rcases accepted_of_name hrun hname with ⟨body₀, form, hbody₀, hform⟩
  have hself : ∀ r', r' ≠ r → ∀ q, (keyTwin r s jwk).Handlers env r' q (.start q) (.start q) :=
    fun r' hr q => Twin.Handlers.start_self (fun k => by simp [keyTwin, hr]) q
  rw [List.forall₂_map_right_iff, List.forall₂_same]
  intro l hl
  cases l with
  | request r' q limited =>
    have hq := request_of_mem hrun (hsub _ hl)
    by_cases hr : r' = r
    · subst hr
      obtain rfl := Option.some.inj (hbody₀.symm.trans hq)
      simp only [Label.postKey, if_true]
      refine .request _ _ _ _ (.create _ _ ?_)
      rw [start_of_accepts hform, start_of_accepts (acceptsCreate_set_key hform hjwk)]
      exact .embedding _ _ ⟨rfl, rfl, by simp [keyTwin]⟩
    · cases q with
      | create body =>
        simp only [Label.postKey, if_neg hr]
        exact .request _ _ _ _ (.same _ (hself r' hr _))
      | _ => exact .request _ _ _ _ (.same _ (hself r' hr _))
  | embed r' result =>
    cases result with
    | some v => exact .embed r' v
    | none => exact .same _ (by simp) (by simp)
  | _ => exact .same _ (by simp) (by simp)

/-- The other key is posted for session `s` and for no other. -/
theorem keyTwin_allows (hrun : (server env).Run Lts.anyStep (server env).init ls σ) {r : ℕ} {s : Str}
    {jwk : Json} (hname : .name r s ∈ ls) {ls₁ : List Label} (hsub : ∀ l ∈ ls₁, l ∈ ls) {σ₁ : State}
    (hrun₁ : (server env).Run Lts.anyStep (server env).init ls₁ σ₁) :
    (server env).Run ((keyTwin r s jwk).Allows env) (server env).init ls₁ σ₁ := by
  refine (hrun₁.of_labels (p := (· ∈ ls)) hsub).mono ?_
  rintro l τ ⟨_, hl⟩
  cases l with
  | name r' s' =>
    have hiff := named_once hrun hl hname
    refine ⟨?_, rfl⟩
    funext k
    simp only [keyTwin, hiff]
  | embed r' result =>
    cases result with
    | some v => exact fun _ _ _ _ _ => ⟨rfl, fun _ => rfl⟩
    | none => trivial
  | _ => trivial

/-- What the relation of the two states says to the outside. -/
theorem Twin.States.sameButKey {r : ℕ} {s : Str} {jwk : Json}
    (h : (keyTwin r s jwk).States env σ σ') : SameButKey s jwk σ σ' where
  published := h.published
  streams := h.streams
  answers := by
    intro r'
    cases hreq : σ.reqs r' with
    | none =>
      have hnone' := h.req_none hreq
      exact Or.inl (by simp [State.answer?, hreq, hnone'])
    | some req =>
      rcases req with ⟨q, old⟩
      rcases h.req hreq with ⟨q', old', hreq', hh⟩
      cases hh with
      | done result result' hres =>
        cases hres with
        | same _ _ => exact Or.inl (by simp [State.answer?, hreq, hreq'])
        | created body sid v => exact Or.inl (by simp [State.answer?, hreq, hreq', keyTwin])
        | passed sid body score k =>
          by_cases hs : sid = s
          · subst hs
            refine Or.inr ⟨body, score, k, by simp [State.request?, hreq], ?_, ?_⟩
            · simp [State.answer?, hreq, Handler.sent?, answerOf]
            · simp [State.answer?, hreq', Handler.sent?, answerOf, keyTwin]
          · exact Or.inl (by simp [State.answer?, hreq, hreq', keyTwin, hs])
      | _ => exact Or.inl (by simp [State.answer?, hreq, hreq', Handler.sent?])
  fields := by
    intro k f hkf
    have he := h.store.entries k
    cases hdb : σ.store.db k <;> cases hdb' : σ'.store.db k <;> rw [hdb, hdb'] at he <;> cases he
    case none.none => rw [Server.hget_of_none hdb, Server.hget_of_none hdb']
    case some.some sid session session' deadline hk hs =>
      rw [Server.hget_eq hdb, Server.hget_eq hdb']
      by_cases hv : f = .answerEmbedding
      · subst hv
        rcases hs.embedding with ⟨v, hv, hv'⟩
        exact hv'.trans hv.symm
      by_cases hf : f = .alicePubkeyJwk
      · subst hf
        have hsid : sid ≠ s := by
          rintro rfl
          exact hkf.elim (absurd hk) (absurd rfl)
        rcases hs.key with ⟨jwk', hj, hj'⟩
        have hkeep : (keyTwin r s jwk).storedKey sid jwk' = jwk' := if_neg hsid
        rw [hkeep] at hj'
        exact hj'.trans hj.symm
      · exact hs.same f hv hf
  present := by
    intro k
    have he := h.store.entries k
    generalize σ.store.db k = o, σ'.store.db k = o' at he ⊢
    cases he <;> rfl

/-- A PASS answers a request that finalized its session with a score at the threshold or above, and
carries the key that the session's creator posted. -/
theorem Inv.pass_of_answer (hi : Inv env σ) {r : ℕ} {s : Str} {body : Json} {response : Response}
    (hreq : σ.request? r = some (.verify s body)) (hans : σ.answer? r = some response)
    (hpass : response.isPass) :
    ∃ k ∈ σ.commits, k.req = r ∧ k.sid = s ∧ env.similarityThreshold ≤ k.score ∧
      ∃ c ∈ σ.creations, c.sid = s ∧ ∃ createBody posted,
        σ.request? c.req = some (.create createBody) ∧
        createBody.get? (lit "alice_pubkey_jwk") = some posted ∧
        response = passResponse k.score posted := by
  rcases (State.request?_eq_some _).mp hreq with ⟨handler, hr⟩
  rcases (State.answer?_eq_some _).mp hans with ⟨q, hdone⟩
  rcases Req.mk.inj (Option.some.inj (hr.symm.trans hdone)) with ⟨rfl, rfl⟩
  rcases hi.handlers r _ hdone with ⟨k, hk, hkr, hks, c, hc, hcs, rfl⟩ | herr
  · have hp : passed env k.score = true := (c.response_isPass_iff k).mp hpass
    rcases hi.creator c hc with ⟨createBody, handler, hcreator, haccepts, _⟩
    refine ⟨k, hk, hkr, hks, by simpa [passed] using hp, c, hc, hcs, createBody,
      c.form.alicePubkeyJwk, by simp [State.request?, hcreator],
      (createForm_eq_some.mp haccepts.2).2.2.2, ?_⟩
    simp [Creation.response, hp]
  · exact absurd herr hpass.not_isError

/-- In every run, whatever is interleaved and whatever expires: had the request that created session
`s` posted another valid key, every prefix of the run would have published the same messages, put
out the same on every stream, stored the same in every other field, and answered the same, but for
the key in a PASS on `s`. There is at most one such PASS; it answers a request that finalized `s`
with a score at the threshold or above, and the key in it is the one that was posted. -/
theorem key_gate (hrun : (server env).Run Lts.anyStep (server env).init ls σ) :
    (∀ r s jwk, .name r s ∈ ls → ValidKey jwk → ∀ ls₁ ls₂ σ₁, ls = ls₁ ++ ls₂ →
      (server env).Run Lts.anyStep (server env).init ls₁ σ₁ →
      ∃ σ₁', (server env).Run Lts.anyStep (server env).init (ls₁.map (Label.postKey r jwk)) σ₁' ∧
        SameButKey s jwk σ₁ σ₁') ∧
    (∀ s r body response, σ.request? r = some (.verify s body) → σ.answer? r = some response →
      response.isPass →
      ∃ k ∈ σ.commits, k.req = r ∧ k.sid = s ∧ env.similarityThreshold ≤ k.score ∧
        ∃ c ∈ σ.creations, c.sid = s ∧ ∃ createBody posted,
          σ.request? c.req = some (.create createBody) ∧
          createBody.get? (lit "alice_pubkey_jwk") = some posted ∧
          response = passResponse k.score posted) ∧
    (∀ s r r' body body' response response', σ.request? r = some (.verify s body) →
      σ.request? r' = some (.verify s body') → σ.answer? r = some response →
      σ.answer? r' = some response' → response.isPass → response'.isPass → r = r') := by
  have hi := Inv.of_run hrun
  refine ⟨?_, fun s r body response => hi.pass_of_answer, ?_⟩
  · rintro r s jwk hname hjwk ls₁ ls₂ σ₁ rfl hrun₁
    have hsub : ∀ l ∈ ls₁, l ∈ ls₁ ++ ls₂ := fun l => List.mem_append_left ls₂
    obtain ⟨σ₁', hrun₁', hstates⟩ := Twin.run_of_run (keyTwin_allows hrun hname hsub hrun₁)
      (keyTwin_labels hrun hname hjwk hsub)
    exact ⟨σ₁', hrun₁', hstates.sameButKey⟩
  · intro s r r' body body' response response' hreq hreq' hans hans' hpass hpass'
    rcases hi.pass_of_answer hreq hans hpass with ⟨k, hk, rfl, hks, _⟩
    rcases hi.pass_of_answer hreq' hans' hpass' with ⟨k', hk', rfl, hks', _⟩
    rw [hi.commit_unique hk hk' (hks.trans hks'.symm)]

/-- It applies to a session whose key was handed out: with another key posted, request 1 gets that
one, and nothing else changes. -/
theorem key_gate_sample :
    let ls := Sample.won ++ [.answer 1]
    let σ := (server Sample.config).after ls
    let jwk := Sample.jwk (lit "mallory")
    ∃ σ', (server Sample.config).Run Lts.anyStep (server Sample.config).init
        (ls.map (Label.postKey 0 jwk)) σ' ∧ SameButKey Sample.sid jwk σ σ' ∧
      σ.answer? 1 = some (passResponse 1 (Sample.jwk (lit "alice"))) := by
  intro ls σ jwk
  have hrun := Lts.run_after (server Sample.config) ls (by decide +kernel)
  obtain ⟨σ', hrun', hsame⟩ := (key_gate hrun).1 0 Sample.sid jwk (by decide +kernel)
    ⟨by decide, by decide⟩ ls [] σ (by simp) hrun
  exact ⟨σ', hrun', hsame, by decide +kernel⟩

end Doppelganger
