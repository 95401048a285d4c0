import Doppelganger.History

/-!
# The life of a session hash

A hash appears in one transaction, with all its fields and its deadline, and every
other writer tests that it is still there in the same atomic step. So no hash is
partial, none lives beyond its time, and none comes back. The one way out is a time
to live that the store refuses: EXEC has written the fields by then, and no deadline
follows.
-/

open Text Redis

namespace Doppelganger

variable {env : Env} {σ σ' : State}

/-- A step brings a hash back only under an id that was never used. -/
theorem Inv.unused_of_appears (hi : Inv env σ) {l : Label} (h : step env l σ = some σ') {sid : Str}
    {e' : Entry Field} (habsent : σ.store.db (key sid) = none)
    (hdb : σ'.store.db (key sid) = some e') : ∀ c ∈ σ.creations, c.sid ≠ sid := by
  have hsame : σ'.store ≠ σ.store := by
    intro heq
    rw [heq, habsent] at hdb
    cases hdb
  cases l with
  | request _ _ _ | embed _ _ | name _ _ | answer _ =>
    exact absurd (sameData_of_step rfl h).store hsame
  | tick d =>
    obtain rfl := step_tick h
    exact absurd hdb (by simp [Server.tick_db_of_none habsent d])
  | redis r fault =>
    rcases step_redis h with ⟨req, effect, handler, hreq, hcmd, hcases⟩
    have hstore : σ'.store = effect.store := by
      rcases hcases with ⟨_, rfl⟩ | ⟨_, rfl⟩ | ⟨_, rfl⟩
      · rfl
      · exact absurd rfl hsame
      · rfl
    rcases req with ⟨q, old⟩
    rw [hstore] at hdb hsame
    cases command_of_redis hcmd with
    | create form v s createdAt =>
      by_cases hs : sid = s
      · subst hs
        exact hi.fresh _ _ _ _ _ _ hreq
      · have hne : key sid ≠ key s := by simpa using hs
        rw [SessionStore.create_of_absent (hi.absent_of_creating hreq), Server.put_db_ne hne,
          habsent] at hdb
        cases hdb
    | won s form session bob score e he hphase =>
      have hne : key sid ≠ key s := by
        intro heq
        rw [heq, he] at habsent
        cases habsent
      rw [Server.put_db_ne hne, habsent] at hdb
      cases hdb
    | delete s =>
      by_cases hs : sid = s
      · subst hs
        simp [SessionStore.delete] at hdb
      · have hne : key sid ≠ key s := by simpa using hs
        rw [SessionStore.delete, Server.del_db_ne hne, habsent] at hdb
        cases hdb
    | _ => exact absurd rfl hsame
  | _ => exact absurd (sameCore_of_step rfl h).store hsame

/-- A deadline never moves. -/
theorem Inv.expiresAt_of_step (hi : Inv env σ) {l : Label} (h : step env l σ = some σ') {k : Str}
    {e e' : Entry Field} (hdb : σ.store.db k = some e) (hdb' : σ'.store.db k = some e') :
    e'.expiresAt = e.expiresAt := by
  have hi' := hi.of_step h
  rcases hi.stored k e hdb with ⟨c, hc, hk, rfl⟩
  rcases hi'.stored k e' hdb' with ⟨c', hc', hk', rfl⟩
  have hs : c.sid = c'.sid := key_injective (hk.symm.trans hk')
  obtain rfl := hi'.creation_unique ((histories_of_step h).1.subset hc) hc' hs
  rfl

/-- A session that is gone stays gone. -/
theorem Inv.gone_of_run (hi : Inv env σ) {sid : Str} (hc : ∃ c ∈ σ.creations, c.sid = sid)
    (hgone : σ.store.db (key sid) = none) {ok : Lts.Guard State Label} {ls : List Label}
    (hrun : (server env).Run ok σ ls σ') : σ'.store.db (key sid) = none := by
  have hinv : Inv env σ' ∧ (∃ c ∈ σ'.creations, c.sid = sid) ∧ σ'.store.db (key sid) = none := by
    refine hrun.preserves
      (P := fun σ => Inv env σ ∧ (∃ c ∈ σ.creations, c.sid = sid) ∧
        σ.store.db (key sid) = none) ?_ ⟨hi, hc, hgone⟩
    rintro l σ₁ σ₂ _ hstep ⟨hi₁, ⟨c, hc, hs⟩, hgone₁⟩
    refine ⟨hi₁.of_step hstep, ⟨c, (histories_of_step hstep).1.subset hc, hs⟩, ?_⟩
    by_contra hne
    rcases Option.ne_none_iff_exists'.mp hne with ⟨e, he⟩
    exact hi₁.unused_of_appears hstep hgone₁ he c hc hs
  exact hinv.2.2

/-- A session that is gone gets no winner any more. -/
theorem Inv.commits_of_gone (hi : Inv env σ) {sid : Str} (hc : ∃ c ∈ σ.creations, c.sid = sid)
    (hgone : σ.store.db (key sid) = none) {ok : Lts.Guard State Label} {ls : List Label}
    (hrun : (server env).Run ok σ ls σ') : ∀ k ∈ σ'.commits, k.sid = sid → k ∈ σ.commits := by
  induction hrun with
  | nil σ => exact fun k hk _ => hk
  | @cons σ₁ σ₂ σ₃ l ls hok hstep hrest ih =>
    have hgone₂ := hi.gone_of_run hc hgone (Lts.Run.single hok hstep)
    rcases hc with ⟨c, hcm, hs⟩
    have hc₂ : ∃ c ∈ σ₂.creations, c.sid = sid :=
      ⟨c, (histories_of_step hstep).1.subset hcm, hs⟩
    intro k hk hks
    have hk₂ := ih (hi.of_step hstep) hc₂ hgone₂ k hk hks
    rcases win_of_step hstep with ⟨hsame, _⟩ | ⟨k', _, _, _, _, e, _, _, _, hdb, _, rfl⟩
    · exact hsame ▸ hk₂
    · rcases List.mem_append.mp hk₂ with hk₂ | hk₂
      · exact hk₂
      · -- the script that won found a hash
        obtain rfl : k = k' := by simpa using hk₂
        rw [hks, hgone] at hdb
        cases hdb

/-- In every reachable state, whatever replies were lost on the way: a session hash holds all nine
fields and dies at its creation instant plus the time to live, if that is a number of milliseconds
the store can hold, and else never; no step moves a deadline; once a session is gone no later step
brings it back; and no handler misses a field. -/
theorem sessions_whole_and_mortal (hpos : 0 < env.sessionTtlSeconds)
    (h : (server env).Reach Lts.anyStep σ) :
    (∀ k e, σ.store.db k = some e → ∃ c ∈ σ.creations, k = key c.sid ∧
      (∀ f, (e.fields f).isSome = true) ∧
      (c.instant + env.sessionTtlSeconds * 1000 ≤ longLongMax →
        e.expiresAt = some (c.instant + env.sessionTtlSeconds.toNat * 1000)) ∧
      (longLongMax < c.instant + env.sessionTtlSeconds * 1000 → e.expiresAt = none)) ∧
    (∀ l σ' k e e', step env l σ = some σ' → σ.store.db k = some e → σ'.store.db k = some e' →
      e'.expiresAt = e.expiresAt) ∧
    (∀ c ∈ σ.creations, σ.store.db (key c.sid) = none → ∀ ls σ',
      (server env).Run Lts.anyStep σ ls σ' → σ'.store.db (key c.sid) = none) ∧
    (∀ r req, σ.reqs r = some req → req.handler ≠ .replying (.error .keyError)) := by
  have hi := Inv.of_reach h
  refine ⟨?_, ?_, ?_, ?_⟩
  · intro k e hdb
    rcases hi.stored k e hdb with ⟨c, hc, hk, rfl⟩
    refine ⟨c, hc, hk, c.fields_full env _, ?_, ?_⟩
    · intro hfits
      exact deadline?_of_expirable ((expirable_iff_of_pos hpos).mpr hfits)
    · intro hlate
      refine deadline?_of_refused ?_
      rw [expirable_iff_of_pos hpos]
      exact not_le.mpr hlate
  · intro l σ' k e e' hstep hdb hdb'
    exact hi.expiresAt_of_step hstep hdb hdb'
  · intro c hc hgone ls σ' hrun
    exact hi.gone_of_run ⟨c, hc, rfl⟩ hgone hrun
  · intro r req hreq hkey
    have hok := hi.handlers r req hreq
    rw [hkey] at hok
    exact hok.1 rfl

/-- It applies to a session that was answered a minute after it was created. -/
theorem sessions_whole_and_mortal_sample :
    ∃ e, ((server Sample.config).after (Sample.won ++ [.tick 60000])).store.db (key Sample.sid) =
        some e ∧
      (∀ f, (e.fields f).isSome = true) ∧ e.expiresAt = some 600000 := by
  have hrun := Lts.run_after (server Sample.config) (Sample.won ++ [.tick 60000])
    (by decide +kernel)
  have hsome : (((server Sample.config).after (Sample.won ++ [.tick 60000])).store.db
      (key Sample.sid)).isSome = true := by decide +kernel
  have hinstant : ((server Sample.config).after (Sample.won ++ [.tick 60000])).creations.map
      Creation.instant = [0] := by decide +kernel
  rcases Option.isSome_iff_exists.mp hsome with ⟨e, he⟩
  rcases (sessions_whole_and_mortal (by decide) ⟨_, hrun⟩).1 _ e he with
    ⟨c, hc, _, hfull, hdeadline, _⟩
  have h0 : c.instant = 0 := by
    have hmem := List.mem_map_of_mem (f := Creation.instant) hc
    rw [hinstant] at hmem
    simpa using hmem
  exact ⟨e, he, hfull, by rw [hdeadline (by rw [h0]; decide), h0]; rfl⟩

/-- With a time to live of a few hundred million years the deadline is refused, the request is
answered 503, and the session stays for good. -/
theorem session_without_deadline :
    0 < ({ Sample.config with sessionTtlSeconds := 9223372036854776 } : Env).sessionTtlSeconds ∧
    ∃ σ e, (server { Sample.config with sessionTtlSeconds := 9223372036854776 }).Run Lts.anyStep
        (server Sample.config).init Sample.create σ ∧
      σ.store.db (key Sample.sid) = some e ∧ e.expiresAt = none ∧
      σ.answer? 0 = some storeUnavailable := by
  set env : Env := { Sample.config with sessionTtlSeconds := 9223372036854776 }
  have hrun := Lts.run_after (server env) Sample.create (by decide +kernel)
  have hanswer : ((server env).after Sample.create).answer? 0 = some storeUnavailable := by
    decide +kernel
  have hsome : (((server env).after Sample.create).store.db (key Sample.sid)).map Entry.expiresAt =
      some none := by
    decide +kernel
  rcases Option.map_eq_some_iff.mp hsome with ⟨e, he, hnone⟩
  exact ⟨by decide, _, e, hrun, he, hnone, hanswer⟩

end Doppelganger
