import Doppelganger.Embedding

/-!
# Deciding a session

A verify request whose embedding call has returned either raises there and then, or waits for the
script with a score; from there every run answers it 200, 404 or 409 (`onTrack_step`). Which of
the two happens is decided by the two embeddings, and, where the score passes, by whether the name
can be encoded (`embeddings_decide`).
-/

open Text Redis

namespace Doppelganger

/-- Redis does not fail. -/
def redisUp : Lts.Guard State Label := fun l _ =>
  match l with
  | .redis _ fault => fault = .none
  | _ => True

/-- The answers of a verify request that reached the script. -/
def Response.settles (response : Response) : Prop :=
  response.status = 200 ∨ response.status = 404 ∨ response.status = 409

/-- Request `r` can be answered from wherever the run leads, and is answered 200, 404 or 409. -/
structure Decided (env : Env) (σ : State) (r : ℕ) : Prop where
  answered : ∀ ls τ, (server env).Run redisUp σ ls τ →
    ∃ ls' υ response, (server env).Run redisUp τ ls' υ ∧ υ.answer? r = some response
  settled : ∀ ls τ response, (server env).Run redisUp σ ls τ → τ.answer? r = some response →
    response.settles

/-- Request `r` has its score, or an answer that settles it. -/
inductive OnTrack (σ : State) (r : ℕ) : Prop
  | finalizing (q : Request) (sid : Str) (form : VerifyForm) (c : Creation) (bob : Json) (score : ℚ) :
      σ.reqs r = some ⟨q, .finalizing sid form c.session bob score⟩ → OnTrack σ r
  | replying (q : Request) (response : Response) :
      σ.reqs r = some ⟨q, .replying (.ok response)⟩ → response.settles → OnTrack σ r
  | done (q : Request) (response : Response) :
      σ.reqs r = some ⟨q, .done response⟩ → response.settles → OnTrack σ r

section
variable {env : Env} {l : Label} {σ σ' : State} {r : ℕ}

theorem Creation.response_settles (c : Creation) (k : Commit) : (c.response env k).settles := by
  left
  unfold Creation.response
  split_ifs <;> rfl

/-- The script of a verify request that snapshot a whole session settles it. -/
theorem settles_of_finalizing {db : Store} {sid : Str} {form : VerifyForm} {c : Creation} {bob : Json}
    {score : ℚ} {effect : Effect} {handler : Handler}
    (h : (Handler.finalizing sid form c.session bob score).redis env r db =
      some (effect, handler)) :
    ∃ response, handler = .replying (.ok response) ∧ response.settles := by
  cases command_of_redis h with
  | gone => exact ⟨_, rfl, Or.inr (Or.inl rfl)⟩
  | completed => exact ⟨_, rfl, Or.inr (Or.inr rfl)⟩
  | won =>
    exact ⟨_, by rw [verifyResponse_won env c ⟨r, sid, form, score⟩], c.response_settles _⟩

/-- What its handler is at. -/
theorem OnTrack.handler (ht : OnTrack σ r) {req : Req} (hreq : σ.reqs r = some req) :
    (∃ sid form c bob score, req.handler = .finalizing sid form (Creation.session c) bob score) ∨
      ∃ response, response.settles ∧
        (req.handler = .replying (.ok response) ∨ req.handler = .done response) := by
  cases ht with
  | finalizing q sid form c bob score hreq' =>
    obtain rfl := Option.some.inj (hreq.symm.trans hreq')
    exact Or.inl ⟨sid, form, c, bob, score, rfl⟩
  | replying q response hreq' hsettles =>
    obtain rfl := Option.some.inj (hreq.symm.trans hreq')
    exact Or.inr ⟨response, hsettles, Or.inl rfl⟩
  | done q response hreq' hsettles =>
    obtain rfl := Option.some.inj (hreq.symm.trans hreq')
    exact Or.inr ⟨response, hsettles, Or.inr rfl⟩

theorem onTrack_step (hup : redisUp l σ) (h : step env l σ = some σ') (ht : OnTrack σ r) :
    OnTrack σ' r := by
  by_cases hr : l.req? = some r
  swap
  · -- a step of somebody else
    have hsame := reqs_of_step_ne h hr
    cases ht with
    | finalizing q sid form c bob score hreq => exact .finalizing q sid form c bob score (hsame.trans hreq)
    | replying q response hreq hsettles => exact .replying q response (hsame.trans hreq) hsettles
    | done q response hreq hsettles => exact .done q response (hsame.trans hreq) hsettles
  cases l with
  | request r' q limited =>
    rcases step_request h with ⟨hnone, _⟩
    obtain rfl := Option.some.inj hr
    cases ht <;> simp_all
  | embed r' result =>
    -- it no longer waits for an embedding, nor for a name
    rcases step_embed h with ⟨⟨q, handler⟩, _, hreq, hembed, _⟩
    obtain rfl := Option.some.inj hr
    rcases ht.handler hreq with ⟨_, _, _, _, _, rfl⟩ | ⟨_, _, rfl | rfl⟩ <;> cases hembed
  | name r' sid =>
    rcases step_name h with ⟨⟨q, handler⟩, _, hreq, hname, _⟩
    obtain rfl := Option.some.inj hr
    rcases ht.handler hreq with ⟨_, _, _, _, _, rfl⟩ | ⟨_, _, rfl | rfl⟩ <;> cases hname
  | redis r' fault =>
    rcases step_redis h with ⟨⟨q, handler⟩, effect, handler', hreq, hcmd, hcases⟩
    obtain rfl := Option.some.inj hr
    rcases ht.handler hreq with ⟨sid, form, c, bob, score, rfl⟩ | ⟨_, _, rfl | rfl⟩
    · rcases settles_of_finalizing hcmd with ⟨response, rfl, hsettles⟩
      obtain rfl : fault = .none := hup
      rcases hcases with ⟨_, rfl⟩ | ⟨hf, _⟩ | ⟨hf, _⟩
      · exact .replying q response (State.setReq_reqs_self _ _ _) hsettles
      · cases hf
      · cases hf
    · cases hcmd
    · cases hcmd
  | answer r' =>
    rcases step_answer h with ⟨⟨q, handler⟩, result, hreq, hreply, rfl⟩
    obtain rfl := Option.some.inj hr
    rcases ht.handler hreq with ⟨_, _, _, _, _, rfl⟩ | ⟨response, hsettles, rfl | rfl⟩
    · cases hreply
    · cases hreply
      exact .done q response (State.setReq_reqs_self _ _ _) hsettles
    · cases hreply
  | _ => cases hr

theorem OnTrack.settled (ht : OnTrack σ r) {response : Response} (hans : σ.answer? r = some response) :
    response.settles := by
  rcases (State.answer?_eq_some _).mp hans with ⟨q, hreq⟩
  cases ht with
  | finalizing q sid form c bob score hreq' => cases hreq.symm.trans hreq'
  | replying q response hreq' _ => cases hreq.symm.trans hreq'
  | done q response hreq' hsettles =>
    cases hreq.symm.trans hreq'
    exact hsettles

/-- Its next steps are the script, if it has not run yet, and the answer. -/
theorem OnTrack.answered (ht : OnTrack σ r) :
    ∃ ls τ response, (server env).Run redisUp σ ls τ ∧ τ.answer? r = some response := by
  have hreply : ∀ (σ : State) q response, σ.reqs r = some ⟨q, .replying (.ok response)⟩ →
      ∃ τ, (server env).Run redisUp σ [.answer r] τ ∧ τ.answer? r = some response := by
    intro σ q response hreq
    have hstep : step env (.answer r) σ = some (σ.setReq r ⟨q, .done response⟩) :=
      answer_step hreq rfl
    refine ⟨_, Lts.Run.single trivial hstep, ?_⟩
    exact (State.answer?_eq_some _).mpr ⟨q, State.setReq_reqs_self _ _ _⟩
  cases ht with
  | finalizing q sid form c bob score hreq =>
    obtain ⟨effect, handler, hcmd⟩ : ∃ effect handler,
        (Handler.finalizing sid form c.session bob score).redis env r σ.store =
          some (effect, handler) := ⟨_, _, rfl⟩
    rcases settles_of_finalizing hcmd with ⟨response, rfl, _⟩
    have hredis := (redis_step hreq hcmd).1
    have hup : redisUp (.redis r .none) σ := rfl
    rcases hreply _ q response (State.setReq_reqs_self _ r _) with ⟨τ, hrun, hans⟩
    exact ⟨_, τ, response, Lts.Run.cons hup hredis hrun, hans⟩
  | replying q response hreq _ =>
    rcases hreply σ q response hreq with ⟨τ, hrun, hans⟩
    exact ⟨_, τ, response, hrun, hans⟩
  | done q response hreq _ =>
    exact ⟨[], σ, response, Lts.Run.nil σ, (State.answer?_eq_some _).mpr ⟨q, hreq⟩⟩

theorem OnTrack.decided (ht : OnTrack σ r) : Decided env σ r := by
  have hrun : ∀ {ls τ}, (server env).Run redisUp σ ls τ → OnTrack τ r := fun h =>
    h.preserves (P := fun σ => OnTrack σ r) (fun _ _ _ hup hs ht => onTrack_step hup hs ht) ht
  exact ⟨fun ls τ h => (hrun h).answered, fun ls τ response h hans => (hrun h).settled hans⟩

/-- A request that raised is answered 500, or 503 for Redis. -/
theorem not_decided_of_error {q : Request} {e : Exc} (h : σ.reqs r = some ⟨q, .replying (.error e)⟩) :
    ¬ Decided env σ r := by
  intro hdec
  have hans : (σ.setReq r ⟨q, .done (handleError e)⟩).answer? r = some (handleError e) :=
    (State.answer?_eq_some _).mpr ⟨q, State.setReq_reqs_self _ _ _⟩
  have hstep : step env (.answer r) σ = some (σ.setReq r ⟨q, .done (handleError e)⟩) :=
    answer_step h rfl
  have hsettles := hdec.settled [.answer r] _ _ (Lts.Run.single trivial hstep) hans
  cases e <;>
    simp [Response.settles, handleError, serverError, storeUnavailable, errorResponse] at hsettles

end

/-- What the request comes to once its embedding call has returned: with a score and an encodable
name it gets to the script, and otherwise it raises. -/
theorem decided_of_embed {env : Env} {σ σ' : State} {r : ℕ} {c : Creation} {bob : Json} {q : Request}
    {form : VerifyForm} {session : Session} (hi : Inv env σ) (hc : c ∈ σ.creations)
    (hreq : σ.reqs r = some ⟨q, .scoring c.sid form session⟩)
    (hstep : step env (.embed r (some bob)) σ = some σ') {score : ℚ}
    (hcos : env.cosineSimilarity c.embedding bob = some score) :
    Decided env σ' r ↔ (passed env score = true → wellFormed form.bobName = true) := by
  -- the snapshot is the hash that `c` wrote, and its text is read back
  rcases hi.handlers _ _ hreq with ⟨_, c', hc', hsid, rfl⟩
  obtain rfl := hi.creation_unique hc' hc hsid
  have htext : field c'.session .answerEmbedding = .ok c'.embedding.dumps := rfl
  rcases step_embed hstep with ⟨req, handler, hreq', hembed, rfl⟩
  obtain rfl := Option.some.inj (hreq.symm.trans hreq')
  obtain rfl := Option.some.inj hembed
  have hreq'' := σ.setReq_reqs_self r ⟨q, Handler.verifyScored env c'.sid form c'.session bob⟩
  have hscore : scoreOf env c'.session bob = .ok score := by
    simp only [scoreOf, htext, bind, Except.bind, Json.loads_dumps, hcos]
  unfold Handler.verifyScored at hreq'' ⊢
  simp only [hscore] at hreq'' ⊢
  by_cases hname : passed env score = true → wellFormed form.bobName = true
  -- the texts for Redis can be encoded, and the script comes next
  · have hguard : (passed env score && !wellFormed form.bobName) = false := by
      cases hp : passed env score <;> simp_all
    simp only [hguard] at hreq'' ⊢
    exact ⟨fun _ => hname, fun _ => (OnTrack.finalizing q _ _ _ _ _ hreq'').decided⟩
  -- `bob_name` is written on a pass, and raises
  · have hguard : (passed env score && !wellFormed form.bobName) = true := by
      simpa using hname
    simp only [hguard, if_true] at hreq'' ⊢
    exact ⟨fun hdec => absurd hdec (not_decided_of_error hreq''), fun h => absurd h hname⟩

/-- However the service replied, when `embed` returned a value for the answer that session `c` was
created with and then a value for a verify request on it: if the two are comparable, with numbers of
an ordinary size, and the name can be encoded, they have a score and the request is decided. Numbers
of an ordinary size have to be comparable for that, and the name has to be encodable if the score
passes. -/
theorem embeddings_decide {np : Numpy} (hnp : np.Documented) {env : Env} {σ σ' : State} {r : ℕ}
    {c : Creation} {bob : Json} {q : Request} {form : VerifyForm} {session : Session} {slot : Bool}
    {reply : ℕ → EmbeddingClient.Reply}
    (henv : env.cosineSimilarity = EmbeddingClient.cosineSimilarity np)
    (hreach : (server env).Reach served σ) (hc : c ∈ σ.creations)
    (hreq : σ.reqs r = some ⟨q, .scoring c.sid form session⟩)
    (hbob : EmbeddingClient.embed slot reply = some bob)
    (hstep : step env (.embed r (EmbeddingClient.embed slot reply)) σ = some σ') :
    (np.Sized c.embedding ∧ np.Sized bob ∧ np.Comparable c.embedding bob ∧
        wellFormed form.bobName = true →
      (env.cosineSimilarity c.embedding bob).isSome = true ∧ Decided env σ' r) ∧
    ((env.cosineSimilarity c.embedding bob).isSome = true ∧ Decided env σ' r →
      np.Sized c.embedding → np.Sized bob → np.Comparable c.embedding bob ∧
        ∀ score, env.cosineSimilarity c.embedding bob = some score → passed env score = true →
          wellFormed form.bobName = true) := by
  have hi := Inv.of_reach hreach
  rw [hbob] at hstep
  constructor
  · rintro ⟨ha, hb, hcomparable, hname⟩
    have hsome := (cosineSimilarity_isSome_iff hnp ha hb).mpr hcomparable
    rw [← henv] at hsome
    rcases Option.isSome_iff_exists.mp hsome with ⟨score, hcos⟩
    exact ⟨hsome, (decided_of_embed hi hc hreq hstep hcos).mpr fun _ => hname⟩
  · rintro ⟨hsome, hdecided⟩ ha hb
    refine ⟨?_, ?_⟩
    · rw [henv] at hsome
      exact (cosineSimilarity_isSome_iff hnp ha hb).mp hsome
    · intro score hcos
      exact (decided_of_embed hi hc hreq hstep hcos).mp hdecided

namespace Sample

/-- Up to a quarter, the root of a number. -/
def root (x : ℚ) : ℚ :=
  Nat.findGreatest (fun s => s ^ 2 ≤ 16 * (x.num.toNat * x.den)) (16 * (x.num.toNat * x.den)) /
    (4 * x.den)

theorem findGreatest_sq (n : ℕ) :
    Nat.findGreatest (fun s => s ^ 2 ≤ 16 * n) (16 * n) ^ 2 ≤ 16 * n ∧
      16 * n ≤ 2 * Nat.findGreatest (fun s => s ^ 2 ≤ 16 * n) (16 * n) ^ 2 := by
  set s := Nat.findGreatest (fun s => s ^ 2 ≤ 16 * n) (16 * n)
  have hle : s ^ 2 ≤ 16 * n :=
    Nat.findGreatest_spec (P := fun s => s ^ 2 ≤ 16 * n) (Nat.zero_le _) (by simp)
  refine ⟨hle, ?_⟩
  rcases n.eq_zero_or_pos with rfl | hn
  · simp
  -- it is at least 3, and its successor is too large
  have h3 : 3 ≤ s := Nat.le_findGreatest (by omega) (by omega)
  have hlt : s < 16 * n := by nlinarith
  have hsucc : ¬ (s + 1) ^ 2 ≤ 16 * n :=
    Nat.findGreatest_is_greatest (P := fun s => s ^ 2 ≤ 16 * n) (Nat.lt_succ_self s) hlt
  nlinarith

theorem root_bounds {x : ℚ} (hx : 0 ≤ x) : x ≤ 2 * root x ^ 2 ∧ root x ^ 2 ≤ 2 * x := by
  have hnum : ((x.num.toNat : ℕ) : ℚ) / x.den = x := by
    have hcast : ((x.num.toNat : ℕ) : ℤ) = x.num := Int.toNat_of_nonneg (Rat.num_nonneg.mpr hx)
    rw [← Int.cast_natCast, hcast, Rat.num_div_den]
  have hden : 0 < x.den := x.den_pos
  unfold root
  generalize x.num.toNat = p at hnum ⊢
  generalize x.den = d at hnum hden ⊢
  subst hnum
  obtain ⟨hle, hlt⟩ := findGreatest_sq (p * d)
  generalize Nat.findGreatest (fun s => s ^ 2 ≤ 16 * (p * d)) (16 * (p * d)) = s at hle hlt ⊢
  have hd : (0 : ℚ) < d := by exact_mod_cast hden
  have hle' : (s : ℚ) ^ 2 ≤ 16 * (p * d) := by exact_mod_cast hle
  have hlt' : 16 * ((p : ℚ) * d) ≤ 2 * s ^ 2 := by exact_mod_cast hlt
  have hsq : ((s : ℚ) / (4 * d)) ^ 2 = s ^ 2 / (16 * d ^ 2) := by rw [div_pow]; ring
  have hx' : (p : ℚ) / d = 16 * (p * d) / (16 * d ^ 2) := by field_simp
  rw [hsq, hx', ← mul_div_assoc, ← mul_div_assoc]
  constructor
  · gcongr
  · gcongr
    linarith [mul_nonneg (Nat.cast_nonneg p : (0 : ℚ) ≤ p) hd.le]

/-- Exact arithmetic but for the roots; it knows the integers only. -/
def numpy : Numpy where
  Float32 := ℚ
  float32 v := match v with
    | .int n => some n
    | _ => none
  value := some
  norm xs := root (Numpy.squares xs)
  dot xs ys := (List.zipWith (· * ·) xs ys).sum
  mul x y := x * y
  div x y := x / y

theorem eq_of_values {xs ps : List ℚ} (h : numpy.Values xs ps) : xs = ps := by
  induction h with
  | nil => rfl
  | cons hx _ ih => rw [Option.some.inj hx, ih]

theorem abs_dot_le (ps qs : List ℚ) : |(List.zipWith (· * ·) ps qs).sum| ≤ Numpy.products ps qs := by
  induction ps generalizing qs with
  | nil => simp [Numpy.products]
  | cons p ps ih =>
    cases qs with
    | nil => simp [Numpy.products]
    | cons q qs =>
      simp only [Numpy.products, List.zipWith_cons_cons, List.sum_cons] at ih ⊢
      exact (abs_add_le _ _).trans (by gcongr; exact ih qs)

theorem numpy_documented : numpy.Documented where
  norm_zero := by
    intro xs hzero
    have hsquares : Numpy.squares xs = 0 := by
      refine List.sum_eq_zero ?_
      intro y hy
      rcases List.mem_map.mp hy with ⟨x, hx, rfl⟩
      rw [show x = 0 from Option.some.inj (hzero x hx)]
      rfl
    show some (root (Numpy.squares xs)) = some 0
    rw [hsquares]
    decide +kernel
  norm_near := by
    intro xs ps hps _
    obtain rfl := eq_of_values hps
    exact ⟨_, rfl, root_bounds (Numpy.squares_nonneg xs)⟩
  norm_lost := by
    rintro xs ⟨x, _, hx⟩
    cases hx
  dot_near := by
    intro xs ps ys qs hps hqs _ _ _
    obtain rfl := eq_of_values hps
    obtain rfl := eq_of_values hqs
    refine ⟨_, rfl, (abs_dot_le xs ys).trans ?_⟩
    have hproducts := Numpy.products_nonneg xs ys
    have : (0 : ℚ) ≤ 1 / 2 ^ 128 := by positivity
    linarith
  dot_lost := by
    rintro xs ys _ ⟨x, _, hx⟩
    cases hx
  mul_near := by
    intro x p y q hx hy _ _
    obtain rfl := Option.some.inj hx
    obtain rfl := Option.some.inj hy
    exact ⟨_, rfl, le_mul_of_one_le_left (abs_nonneg _) one_le_two⟩
  div_finite := fun _ _ _ _ _ _ _ _ => rfl
  div_lost := by
    rintro x y hx
    cases hx

def scoring : Env := { config with cosineSimilarity := EmbeddingClient.cosineSimilarity numpy }

/-- A vector of another length. -/
def longVector : Json := .arr [.int 1, .int 0, .int 0]

theorem vector_reads : numpy.Reads vector [2] ([1, 0] : List ℚ) := by
  have hnumbers : List.Forall₂ (fun u x => numpy.nested u = some ⟨[], [x]⟩) [.int 1, .int 0]
      ([1, 0] : List ℚ) := .cons rfl (.cons rfl .nil)
  exact Numpy.reads_of_scalars hnumbers

theorem vector_sized : numpy.Sized vector := by
  intro shape xs ps hreads hps
  obtain ⟨rfl, rfl⟩ := vector_reads.unique hreads
  obtain rfl := eq_of_values hps
  exact Or.inr ⟨by norm_num, by norm_num [Numpy.squares], by norm_num [Numpy.squares]⟩

theorem vector_comparable : numpy.Comparable vector vector :=
  ⟨_, _, _, _, vector_reads, vector_reads,
    Or.inr (Or.inr ⟨.vector 0 2 (by decide), fun _ _ => rfl, fun _ _ => rfl⟩)⟩

/-- Request 1 on Alice's session, up to its embedding call. -/
def asking : List Label :=
  create ++ [.request 1 (.verify sid (verifyBody (lit "bob"))) false, .redis 1 .none]

/-- The request waits for the embedding of its answer to Alice's challenge. -/
def awaitsScore (req : Req) : Bool :=
  match req.handler with
  | .scoring sid' form _ => sid' = sid && wellFormed form.bobName
  | _ => false

theorem asking_served {ls : List Label} (h : ∀ l ∈ ls, ∀ r v, l = .embed r v → v = some vector)
    (hrun : ((server scoring).exec ls (server scoring).init).isSome = true) :
    (server scoring).Run served (server scoring).init ls ((server scoring).after ls) := by
  refine ((Lts.run_after _ ls hrun).of_labels h).mono ?_
  rintro l s ⟨_, hl⟩ r result rfl
  exact ⟨true, EmbeddingClient.sends vector, by rw [hl r result rfl]; rfl⟩

end Sample

/-- Two equal vectors are scored, and the request can only be answered as it should. -/
theorem embeddings_decide_sample :
    let σ := (server Sample.scoring).after Sample.asking
    ∃ σ', step Sample.scoring (.embed 1 (some Sample.vector)) σ = some σ' ∧
      Decided Sample.scoring σ' 1 := by
  intro σ
  have hreach : (server Sample.scoring).Reach served σ := by
    refine ⟨_, Sample.asking_served ?_ (by decide +kernel)⟩
    simp [Sample.asking, Sample.create]
  have hcreated : σ.creations.map (fun c => (c.sid, c.embedding)) =
      [(Sample.sid, Sample.vector)] := by decide +kernel
  have hscoring : (σ.reqs 1).any Sample.awaitsScore = true := by decide +kernel
  have hembed : EmbeddingClient.embed true (EmbeddingClient.sends Sample.vector) =
      some Sample.vector := EmbeddingClient.embed_sends rfl
  clear_value σ
  obtain ⟨c, hc, hpair⟩ : ∃ c ∈ σ.creations, (c.sid, c.embedding) = (Sample.sid, Sample.vector) :=
    List.mem_map.mp (hcreated ▸ List.mem_singleton_self _)
  rcases Prod.mk.inj hpair with ⟨hsid, hvector⟩
  rcases (Option.any_eq_true _ _).mp hscoring with ⟨⟨q, handler⟩, hreq, hawaits⟩
  cases handler with
  | scoring sid form session =>
    rcases Bool.and_eq_true_iff.mp hawaits with ⟨hname, hform⟩
    rw [of_decide_eq_true hname, ← hsid] at hreq
    have hstep : step Sample.scoring (.embed 1 (EmbeddingClient.embed true
        (EmbeddingClient.sends Sample.vector))) σ =
          some (σ.setReq 1 ⟨q, Handler.verifyScored Sample.scoring c.sid form session
            Sample.vector⟩) := by
      rw [hembed]
      exact embed_step hreq rfl
    refine ⟨_, by rw [← hembed]; exact hstep, ?_⟩
    have hdecide := embeddings_decide Sample.numpy_documented rfl hreach hc hreq hembed hstep
    rw [hvector] at hdecide
    exact (hdecide.1
      ⟨Sample.vector_sized, Sample.vector_sized, Sample.vector_comparable, hform⟩).2
  | _ => cases hawaits

/-- The service sends two vectors of different lengths: Bob is answered 500. -/
theorem longer_vector_not_scored :
    EmbeddingClient.embed true (EmbeddingClient.sends Sample.vector) = some Sample.vector ∧
    EmbeddingClient.embed true (EmbeddingClient.sends Sample.longVector) =
      some Sample.longVector ∧
    EmbeddingClient.cosineSimilarity Sample.numpy Sample.vector Sample.longVector = none ∧
    ((server Sample.scoring).after (Sample.create ++
      Sample.score 1 (lit "bob") Sample.longVector ++ [.answer 1])).answer? 1 =
        some serverError := by
  decide +kernel

end Doppelganger
