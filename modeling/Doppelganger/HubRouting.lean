import Doppelganger.EventHub
import Doppelganger.Lib.Lts

/-!
# The hub routes exactly

The event hub of one worker with the contents of its queues, over any sequence of calls,
reads and messages, each taken as atomic. A queue is named by the order in which
`subscribe` makes it; `unsubscribe` may be called with any session and any queue, also
twice.

What should happen is said by the sequence alone: who is `Registered` after it, and which
of its messages a queue has `Found` room for. `routes_exactly` compares the machine with
this.
-/

open Text Redis

namespace Doppelganger

namespace HubRouting

/-- A worker's hub. -/
structure State where
  hub : Hub
  /-- The number of queues made. -/
  next : ℕ
  content : ℕ → List Str
  /-- What has been read from the queues. -/
  reads : ℕ → List Str

inductive Label where
  /-- `subscribe`, which makes queue `q`. -/
  | subscribe (sid : Str) (q : ℕ)
  | unsubscribe (sid : Str) (q : ℕ)
  | read (q : ℕ)
  /-- The listener gets a message; `list` of the set it finds is `order`. -/
  | message (sid data : Str) (order : List ℕ)
deriving DecidableEq

namespace State

def init : State := ⟨EventHub.empty, 0, fun _ => [], fun _ => []⟩

/-- `for q in list(...): q.put_nowait(msg["data"])`. -/
def offer (data : Str) : List ℕ → (ℕ → List Str) → ℕ → List Str
  | [], content => content
  | q :: order, content =>
    offer data order (Function.update content q (EventHub.putNowait (content q) data))

def step : Label → State → Option State
  | .subscribe sid q, σ =>
    if q = σ.next then
      some { σ with
        hub := EventHub.subscribe σ.hub sid q
        next := σ.next + 1 }
    else none
  | .unsubscribe sid q, σ => some { σ with hub := EventHub.unsubscribe σ.hub sid q }
  | .read q, σ =>
    match σ.content q with
    | [] => none
    | data :: content => some { σ with
        content := Function.update σ.content q content
        reads := Function.update σ.reads q (σ.reads q ++ [data]) }
  | .message sid data order, σ =>
    if order.Nodup ∧
        order.toFinset = EventHub.targets σ.hub (EventHub.sessionOfChannel (channel sid)) then
      some { σ with content := offer data order σ.content }
    else none

end State

/-- A hub that has just been made. -/
def machine : Lts State Label := ⟨State.init, State.step⟩

/-! ## What should happen -/

/-- Queue `q` has been subscribed under `sid`, and not yet unsubscribed. -/
def Registered (ls : List Label) (sid : Str) (q : ℕ) : Prop :=
  ∃ before after, ls = before ++ .subscribe sid q :: after ∧ .unsubscribe sid q ∉ after

/-- The step with number `n` is a message of a session that queue `q` was registered under then, and
finds room in it. -/
def Found (ls : List Label) (q n : ℕ) : Prop :=
  ∃ sid data order, ls[n]? = some (.message sid data order) ∧ Registered (ls.take n) sid q ∧
    ((machine.after (ls.take n)).content q).length < queueSize

/-- The step with number `n` is the message `data`. -/
def Said (ls : List Label) (n : ℕ) (data : Str) : Prop :=
  ∃ sid order, ls[n]? = some (.message sid data order)

section

variable {ls : List Label} {l : Label} {sid sid' : Str} {q : ℕ}

theorem not_registered_nil : ¬ Registered [] sid q := by
  rintro ⟨before, after, hls, _⟩
  simp at hls

theorem registered_snoc : Registered (ls ++ [l]) sid q ↔
    l = .subscribe sid q ∨ (Registered ls sid q ∧ l ≠ .unsubscribe sid q) := by
  constructor
  · rintro ⟨before, after, hls, hno⟩
    rcases List.eq_nil_or_concat after with rfl | ⟨after, l', rfl⟩
    · left
      have hlast := List.append_inj' hls rfl
      exact List.singleton_inj.mp hlast.2
    · right
      rw [List.concat_eq_append, ← List.cons_append, ← List.append_assoc] at hls
      rcases List.append_inj' hls rfl with ⟨hbefore, hl⟩
      obtain rfl := List.singleton_inj.mp hl
      rw [List.concat_eq_append] at hno
      refine ⟨⟨before, after, hbefore, fun hmem => hno (List.mem_append_left _ hmem)⟩, ?_⟩
      rintro rfl
      exact hno (List.mem_append_right _ (List.mem_singleton_self _))
  · rintro (rfl | ⟨⟨before, after, rfl, hno⟩, hl⟩)
    · exact ⟨ls, [], rfl, List.not_mem_nil⟩
    · refine ⟨before, after ++ [l], by simp, ?_⟩
      intro hmem
      rcases List.mem_append.mp hmem with hmem | hmem
      · exact hno hmem
      · exact hl (List.mem_singleton.mp hmem).symm

theorem Registered.subscribed (h : Registered ls sid q) : .subscribe sid q ∈ ls := by
  rcases h with ⟨before, after, rfl, _⟩
  simp

theorem found_append_of_lt {n : ℕ} (hn : n < ls.length) : Found (ls ++ [l]) q n ↔ Found ls q n := by
  rw [Found, Found, List.getElem?_append_left hn, List.take_append_of_le_length hn.le]

theorem found_length : Found (ls ++ [l]) q ls.length ↔
    ∃ sid data order, l = .message sid data order ∧ Registered ls sid q ∧
      ((machine.after ls).content q).length < queueSize := by
  simp [Found]

theorem not_found_of_length_lt {n : ℕ} (hn : ls.length ≤ n) : ¬ Found ls q n := by
  rintro ⟨sid, data, order, hl, _⟩
  rw [List.getElem?_eq_none hn] at hl
  cases hl

theorem Said.append {n : ℕ} {data : Str} (h : Said ls n data) : Said (ls ++ [l]) n data := by
  rcases h with ⟨sid, order, hl⟩
  refine ⟨sid, order, ?_⟩
  rw [List.getElem?_append_left (List.getElem?_eq_some_iff.mp hl).1, hl]

end

/-! ## One step -/

section

variable {σ σ' : State} {ls : List Label} {l : Label} {sid : Str} {q : ℕ}

/-- In whatever order the queues come, each is offered the message once. -/
theorem offer_apply {order : List ℕ} (hnodup : order.Nodup) (data : Str) (content : ℕ → List Str)
    (q : ℕ) : State.offer data order content q =
      if q ∈ order then EventHub.putNowait (content q) data else content q := by
  induction order generalizing content with
  | nil => rfl
  | cons q' order ih =>
    rcases List.nodup_cons.mp hnodup with ⟨hq', hnodup⟩
    rw [State.offer, ih hnodup]
    by_cases hqq : q = q'
    · subst hqq
      simp [hq']
    · simp [hqq]

/-- The steps, by label. -/
inductive Moved (σ : State) : Label → State → Prop
  | subscribe (sid : Str) : Moved σ (.subscribe sid σ.next)
      { σ with hub := EventHub.subscribe σ.hub sid σ.next, next := σ.next + 1 }
  | unsubscribe (sid : Str) (q : ℕ) : Moved σ (.unsubscribe sid q)
      { σ with hub := EventHub.unsubscribe σ.hub sid q }
  | read (q : ℕ) (data : Str) (content : List Str) : σ.content q = data :: content →
      Moved σ (.read q) { σ with
        content := Function.update σ.content q content
        reads := Function.update σ.reads q (σ.reads q ++ [data]) }
  | message (sid data : Str) (order : List ℕ) : order.Nodup →
      order.toFinset = EventHub.targets σ.hub sid →
      Moved σ (.message sid data order) { σ with content := State.offer data order σ.content }

theorem moved_of_step (h : State.step l σ = some σ') : Moved σ l σ' := by
  cases l with
  | subscribe sid q =>
    by_cases hq : q = σ.next
    · subst hq
      simp only [State.step, if_true, Option.some.injEq] at h
      subst h
      exact .subscribe sid
    · simp [State.step, hq] at h
  | unsubscribe sid q =>
    obtain rfl := Option.some.inj h
    exact .unsubscribe sid q
  | read q =>
    cases hq : σ.content q with
    | nil => simp [State.step, hq] at h
    | cons data content =>
      simp only [State.step, hq, Option.some.injEq] at h
      subst h
      exact .read q data content hq
  | message sid data order =>
    by_cases horder : order.Nodup ∧ order.toFinset = EventHub.targets σ.hub sid
    · simp only [State.step, EventHub.sessionOfChannel_channel, if_pos horder,
        Option.some.injEq] at h
      subst h
      exact .message sid data order horder.1 horder.2
    · simp [State.step, horder] at h

/-- A message goes to the queues registered under its session that have room, and to no other. -/
theorem content_of_message {data : Str} {order : List ℕ}
    (h : Moved σ (.message sid data order) σ') (q : ℕ) :
    σ'.content q =
      if q ∈ EventHub.targets σ.hub sid ∧ (σ.content q).length < queueSize
      then σ.content q ++ [data] else σ.content q := by
  cases h with
  | message sid data order hnodup horder =>
    have hmem : q ∈ order ↔ q ∈ EventHub.targets σ.hub sid := by
      rw [← horder, List.mem_toFinset]
    show State.offer data order σ.content q = _
    rw [offer_apply hnodup]
    by_cases hq : q ∈ EventHub.targets σ.hub sid
    · simp only [hmem, hq, if_true, true_and, EventHub.putNowait]
    · simp [hmem, hq]

/-- The other steps leave what a queue has got: what was read, and what is left to read. -/
theorem got_of_step (h : Moved σ l σ') (hl : ∀ sid data order, l ≠ .message sid data order) (q : ℕ) :
    σ'.reads q ++ σ'.content q = σ.reads q ++ σ.content q := by
  cases h with
  | subscribe => rfl
  | unsubscribe => rfl
  | read q' data content hq =>
    by_cases hqq : q = q'
    · subst hqq
      simp [hq]
    · simp [hqq]
  | message sid data order => exact absurd rfl (hl sid data order)

theorem reads_of_message {data : Str} {order : List ℕ}
    (h : Moved σ (.message sid data order) σ') : σ'.reads = σ.reads := by
  cases h
  rfl

/-- No entry has an empty set. -/
def State.Tidy (σ : State) : Prop := ∀ sid, σ.hub sid ≠ some ∅

theorem tidy_of_step (htidy : σ.Tidy) (h : Moved σ l σ') : σ'.Tidy := by
  intro sid'
  cases h with
  | subscribe sid =>
    by_cases hsid : sid' = sid
    · subst hsid
      simp [EventHub.subscribe]
    · simpa [EventHub.subscribe, hsid] using htidy sid'
  | unsubscribe sid q =>
    show EventHub.unsubscribe σ.hub sid q sid' ≠ some ∅
    unfold EventHub.unsubscribe
    cases hs : σ.hub sid with
    | none => exact htidy sid'
    | some qs =>
      by_cases hsid : sid' = sid
      · subst hsid
        by_cases hempty : qs.erase q = ∅
        · simp [hempty]
        · simp [hempty]
      · by_cases hempty : qs.erase q = ∅
        · simpa [hempty, hsid] using htidy sid'
        · simpa [hempty, hsid] using htidy sid'
  | read => exact htidy sid'
  | message => exact htidy sid'

/-- An entry exists for the sake of a queue. -/
theorem hub_eq_empty (htidy : σ.Tidy) (hnone : ∀ sid q, q ∉ EventHub.targets σ.hub sid) :
    σ.hub = EventHub.empty := by
  funext sid
  cases hs : σ.hub sid with
  | none => rfl
  | some qs =>
    have hempty : qs = ∅ := by
      refine Finset.eq_empty_of_forall_notMem fun q hq => hnone sid q ?_
      simpa [EventHub.targets, hs] using hq
    exact absurd (hempty ▸ hs) (htidy sid)

/-! ## A run -/

/-- What the machine has after `ls`. -/
structure Routed (ls : List Label) (σ : State) : Prop where
  registered : ∀ sid q, q ∈ EventHub.targets σ.hub sid ↔ Registered ls sid q
  fresh : ∀ sid q, .subscribe sid q ∈ ls → q < σ.next
  sole : ∀ sid sid' q, .subscribe sid q ∈ ls → .subscribe sid' q ∈ ls → sid = sid'
  tidy : σ.Tidy
  got : ∀ q, ∃ ns : List ℕ, ns.Pairwise (· < ·) ∧ (∀ n, n ∈ ns ↔ Found ls q n) ∧
    List.Forall₂ (Said ls) ns (σ.reads q ++ σ.content q)

theorem registered_of_step (hr : ∀ sid q, q ∈ EventHub.targets σ.hub sid ↔ Registered ls sid q)
    (h : Moved σ l σ') (sid : Str) (q : ℕ) :
    q ∈ EventHub.targets σ'.hub sid ↔ Registered (ls ++ [l]) sid q := by
  rw [registered_snoc, ← hr]
  cases h with
  | subscribe sid' =>
    show q ∈ EventHub.targets (EventHub.subscribe σ.hub sid' σ.next) sid ↔ _
    rw [EventHub.mem_targets_subscribe]
    simp [eq_comm]
  | unsubscribe sid' q' =>
    show q ∈ EventHub.targets (EventHub.unsubscribe σ.hub sid' q') sid ↔ _
    rw [EventHub.mem_targets_unsubscribe]
    simp [eq_comm]
  | read => simp
  | message => simp

/-- A new last step is found, or is not. -/
theorem mem_snoc_iff {ns : List ℕ} (hns : ∀ n, n ∈ ns ↔ Found ls q n) :
    (Found (ls ++ [l]) q ls.length → ∀ n, n ∈ ns ++ [ls.length] ↔ Found (ls ++ [l]) q n) ∧
    (¬ Found (ls ++ [l]) q ls.length → ∀ n, n ∈ ns ↔ Found (ls ++ [l]) q n) := by
  have hold : ∀ n, n ≠ ls.length → (n ∈ ns ↔ Found (ls ++ [l]) q n) := by
    intro n hn
    rcases Nat.lt_or_gt_of_ne hn with hlt | hgt
    · rw [hns, found_append_of_lt hlt]
    · refine iff_of_false (fun hmem => ?_) (not_found_of_length_lt ?_)
      · exact not_found_of_length_lt hgt.le ((hns n).mp hmem)
      · rw [List.length_append, List.length_singleton]
        exact hgt
  have hlast : ls.length ∉ ns := fun hmem => not_found_of_length_lt le_rfl ((hns _).mp hmem)
  constructor
  · intro hfound n
    by_cases hn : n = ls.length
    · subst hn
      simp [hfound]
    · simp [hn, hold n hn]
  · intro hnot n
    by_cases hn : n = ls.length
    · subst hn
      exact iff_of_false hlast hnot
    · exact hold n hn

theorem got_of_run_step (hr : Routed ls σ) (hafter : machine.after ls = σ) (h : Moved σ l σ')
    (q : ℕ) : ∃ ns : List ℕ, ns.Pairwise (· < ·) ∧ (∀ n, n ∈ ns ↔ Found (ls ++ [l]) q n) ∧
      List.Forall₂ (Said (ls ++ [l])) ns (σ'.reads q ++ σ'.content q) := by
  rcases hr.got q with ⟨ns, hsorted, hns, hsaid⟩
  rcases mem_snoc_iff (l := l) hns with ⟨hfound, hnot⟩
  have hsaid' : List.Forall₂ (Said (ls ++ [l])) ns (σ.reads q ++ σ.content q) :=
    hsaid.imp fun _ _ => Said.append
  by_cases hmessage : ∃ sid data order, l = .message sid data order
  · rcases hmessage with ⟨sid, data, order, rfl⟩
    have hlast : Found (ls ++ [.message sid data order]) q ls.length ↔
        q ∈ EventHub.targets σ.hub sid ∧ (σ.content q).length < queueSize := by
      rw [found_length, hafter, hr.registered]
      constructor
      · rintro ⟨sid', data', order', heq, hreg⟩
        cases heq
        exact hreg
      · exact fun hreg => ⟨sid, data, order, rfl, hreg⟩
    rw [content_of_message h, reads_of_message h]
    by_cases hroom : q ∈ EventHub.targets σ.hub sid ∧ (σ.content q).length < queueSize
    · refine ⟨ns ++ [ls.length], ?_, hfound (hlast.mpr hroom), ?_⟩
      · refine List.pairwise_append.mpr ⟨hsorted, List.pairwise_singleton _ _, ?_⟩
        intro n hn n' hn'
        rw [List.mem_singleton.mp hn']
        by_contra hle
        exact not_found_of_length_lt (not_lt.mp hle) ((hns n).mp hn)
      · rw [if_pos hroom, ← List.append_assoc]
        refine List.rel_append hsaid' (List.Forall₂.cons ?_ List.Forall₂.nil)
        exact ⟨sid, order, by simp⟩
    · rw [if_neg hroom]
      exact ⟨ns, hsorted, hnot fun hyes => hroom (hlast.mp hyes), hsaid'⟩
  · push Not at hmessage
    rw [got_of_step h hmessage]
    refine ⟨ns, hsorted, hnot ?_, hsaid'⟩
    rw [found_length]
    rintro ⟨sid, data, order, rfl, _⟩
    exact hmessage sid data order rfl

theorem Routed.step (hr : Routed ls σ) (hafter : machine.after ls = σ) (h : Moved σ l σ') :
    Routed (ls ++ [l]) σ' where
  registered := registered_of_step hr.registered h
  fresh := by
    intro sid q hmem
    cases h with
    | subscribe sid' =>
      rcases List.mem_append.mp hmem with hmem | hmem
      · exact Nat.lt_succ_of_lt (hr.fresh sid q hmem)
      · rcases Label.subscribe.inj (List.mem_singleton.mp hmem) with ⟨rfl, rfl⟩
        exact Nat.lt_succ_self _
    | _ => exact hr.fresh sid q (by simpa using hmem)
  sole := by
    intro sid sid' q hmem hmem'
    cases h with
    | subscribe sid₁ =>
      -- the queue is new
      have hnew : ∀ sid, .subscribe sid σ.next ∉ ls := fun sid h => lt_irrefl _ (hr.fresh sid _ h)
      rcases List.mem_append.mp hmem with hold | hlast <;>
        rcases List.mem_append.mp hmem' with hold' | hlast'
      · exact hr.sole sid sid' q hold hold'
      · rcases Label.subscribe.inj (List.mem_singleton.mp hlast') with ⟨rfl, rfl⟩
        exact absurd hold (hnew sid)
      · rcases Label.subscribe.inj (List.mem_singleton.mp hlast) with ⟨rfl, rfl⟩
        exact absurd hold' (hnew sid')
      · rcases Label.subscribe.inj (List.mem_singleton.mp hlast) with ⟨rfl, _⟩
        rcases Label.subscribe.inj (List.mem_singleton.mp hlast') with ⟨rfl, _⟩
        rfl
    | _ => exact hr.sole sid sid' q (by simpa using hmem) (by simpa using hmem')
  tidy := tidy_of_step hr.tidy h
  got := got_of_run_step hr hafter h

theorem Routed.init : Routed [] State.init where
  registered := by
    intro sid q
    exact iff_of_false (Finset.notMem_empty q) not_registered_nil
  fresh := nofun
  sole := nofun
  tidy := nofun
  got := fun q => ⟨[], List.Pairwise.nil, fun n => iff_of_false List.not_mem_nil
    (not_found_of_length_lt (Nat.zero_le n)), List.Forall₂.nil⟩

theorem Routed.of_run (h : machine.Run Lts.anyStep machine.init ls σ) : Routed ls σ := by
  induction ls using List.reverseRecOn generalizing σ with
  | nil =>
    obtain rfl := Lts.run_nil_iff.mp h
    exact Routed.init
  | append_singleton ls l ih =>
    rcases h.split with ⟨τ, h₁, h₂⟩
    rcases Lts.run_cons_iff.mp h₂ with ⟨_, σ', hs, hnil⟩
    obtain rfl := Lts.run_nil_iff.mp hnil
    have hafter : machine.after ls = τ := by simp [Lts.after, Lts.exec_of_run h₁]
    exact (ih h₁).step hafter (moved_of_step hs)

end

/-- After any calls, reads and messages: the listener cuts out of a channel name the id it was made
with; a queue is registered under an id exactly if it was subscribed under it, and under no other,
and has not been unsubscribed; a message goes once to each queue registered under its id that has
room and to no other; what has been read from a queue, and then what it holds, are in order the
messages that found room in it; and no entry has an empty set, none is left when nobody is registered. -/
theorem routes_exactly {ls : List Label} {σ : State}
    (h : machine.Run Lts.anyStep machine.init ls σ) :
    (∀ sid, EventHub.sessionOfChannel (channel sid) = sid) ∧
    ((∀ sid q, (∃ qs, σ.hub sid = some qs ∧ q ∈ qs) ↔ Registered ls sid q) ∧
      ∀ sid sid' q, Registered ls sid q → Registered ls sid' q → sid = sid') ∧
    (∀ sid data order σ', State.step (.message sid data order) σ = some σ' → ∀ q,
      (Registered ls sid q ∧ (σ.content q).length < queueSize →
        σ'.content q = σ.content q ++ [data]) ∧
      (¬ (Registered ls sid q ∧ (σ.content q).length < queueSize) →
        σ'.content q = σ.content q)) ∧
    (∀ q, ∃ ns : List ℕ, ns.Pairwise (· < ·) ∧ (∀ n, n ∈ ns ↔ Found ls q n) ∧
      List.Forall₂ (Said ls) ns (σ.reads q ++ σ.content q)) ∧
    (∀ sid, σ.hub sid ≠ some ∅) ∧
    ((∀ sid q, ¬ Registered ls sid q) → σ.hub = EventHub.empty) := by
  have hr := Routed.of_run h
  refine ⟨EventHub.sessionOfChannel_channel, ⟨?_, ?_⟩, ?_, hr.got, hr.tidy, ?_⟩
  · intro sid q
    rw [← hr.registered]
    unfold EventHub.targets
    cases σ.hub sid <;> simp
  · intro sid sid' q hreg hreg'
    exact hr.sole sid sid' q hreg.subscribed hreg'.subscribed
  · intro sid data order σ' hstep q
    rw [content_of_message (moved_of_step hstep), ← hr.registered]
    exact ⟨fun hroom => if_pos hroom, fun hroom => if_neg hroom⟩
  · intro hnone
    refine hub_eq_empty hr.tidy fun sid q hq => hnone sid q ?_
    rwa [← hr.registered]

namespace Sample

/-- Two streams of a session and one of another; a message to the two, one of them leaves, another
message, and the leaver tries to leave again. -/
def streams : List Label :=
  [.subscribe (lit "a") 0, .subscribe (lit "a") 1, .subscribe (lit "b") 2,
    .message (lit "a") (lit "1") [1, 0], .read 0, .unsubscribe (lit "a") 0,
    .message (lit "a") (lit "2") [1], .unsubscribe (lit "a") 0, .unsubscribe (lit "c") 5]

end Sample

/-- It applies where messages have been read, are left to be read, and have been missed. -/
theorem routes_exactly_sample :
    ((machine.after Sample.streams).content 1 = [lit "1", lit "2"] ∧
      (machine.after Sample.streams).reads 0 = [lit "1"]) ∧
    ∃ ns : List ℕ, ns.Pairwise (· < ·) ∧ (∀ n, n ∈ ns ↔ Found Sample.streams 1 n) ∧
      List.Forall₂ (Said Sample.streams) ns ((machine.after Sample.streams).reads 1 ++
        (machine.after Sample.streams).content 1) :=
  ⟨⟨by decide +kernel, by decide +kernel⟩,
    (routes_exactly (machine.run_after Sample.streams (by decide +kernel))).2.2.2.1 1⟩

end HubRouting

end Doppelganger
