import Doppelganger.HubCalls

/-!
# Does a message reach a subscribed queue?

A message goes from Redis to the listener's connection, if that is pattern-subscribed
when the message is published, from there into the listener's hands, and from there
into the queues of its session. `Carried` follows it on its way: while all steps are
`calm`, the listener finds every queue that was subscribed when the message was
published and still is, and offers it the message (`offer_of_given`: the step that did).

What it cannot mend is a message published too early: the first `subscribe` of a process
starts the listener and returns, and the listener subscribes to the pattern some steps
later. So in a calm run everything is `Delivered` exactly when every step is `prompt`
(`delivered_iff_prompt`); `message_missed` is a run with a step that is not.
-/

open Text Redis

namespace Doppelganger

namespace HubThreads

variable {σ σ' : State} {i n : ℕ} {t : Thread} {l : Label}

/-! ## What threads keep -/

/-- What a thread past its `add` has become. -/
structure Thread.Later (t t' : Thread) : Prop where
  sid : t'.sid = t.sid
  subscribed : t'.pc = .subscribed → t.pc = .subscribed
  offered : t.offered ⊆ t'.offered

theorem Thread.Later.refl (t : Thread) : t.Later t := ⟨rfl, id, List.Subset.refl _⟩

theorem later_goto {pc : Pc} (h : pc = .subscribed → t.pc = .subscribed) : t.Later { t with pc } :=
  ⟨rfl, h, List.Subset.refl _⟩

theorem later_put (n : ℕ) (m : Message) : t.Later (State.put t n m) :=
  ⟨rfl, id, List.subset_append_left _ _⟩

/-- Where one thread moves, the others are what they were. -/
theorem later_setThread {t' : Thread} (ht : σ.threads i = some t) (hlater : t.Later t') {j : ℕ}
    {u' : Thread} (hu : (σ.setThread i t').threads j = some u') :
    ∃ u, σ.threads j = some u ∧ u.Later u' := by
  by_cases hj : j = i
  · subst hj
    rw [setThread_threads_self] at hu
    exact ⟨t, ht, Option.some.inj hu ▸ hlater⟩
  · rw [setThread_threads_ne hj] at hu
    exact ⟨u', hu, .refl u'⟩

theorem later_of_step (h : Moved σ l σ') (hfork : ∀ pid, l ≠ .fork pid) {j : ℕ} {u' : Thread}
    (hu : σ'.threads j = some u') (hadded : σ.Added j) :
    ∃ u, σ.threads j = some u ∧ u.Later u' := by
  cases h with
  | call i sid hnone =>
    refine ⟨u', ?_, .refl u'⟩
    rwa [setThread_threads_ne] at hu
    rintro rfl
    rcases hadded with ⟨pc, hpc, _⟩
    simp [State.pc?, hnone] at hpc
  | act i t ht hact =>
    rcases went_of_acted ht hact with ⟨pc, hwent, _, hadding⟩
    rw [hwent.threads] at hu
    by_cases hj : j = i
    · subst hj
      refine later_setThread ht (later_goto fun hpc => ?_) hu
      rcases hadding hpc with ⟨s, hs⟩
      rcases hadded with ⟨pc', hpc', hadded⟩
      rw [pc?_of_thread ht, hs] at hpc'
      obtain rfl := Option.some.inj hpc'
      cases hadded
    · rw [State.goto, setThread_threads_ne hj] at hu
      exact ⟨u', hu, .refl u'⟩
  | raise i t ht _ =>
    refine later_setThread ht (later_goto fun hpc => ?_) hu
    cases hpc
  | close i t ht _ =>
    refine later_setThread ht (later_goto fun hpc => ?_) hu
    cases hpc
  | read i t data queue ht _ _ =>
    have hlater : t.Later { t with queue } := ⟨rfl, id, List.Subset.refl _⟩
    exact later_setThread ht hlater hu
  | listen l listener _ hheard => cases hheard <;> exact ⟨u', hu, .refl u'⟩
  | offer l q listener t n m todo _ ht _ _ =>
    exact later_setThread (σ := σ.setListener l { listener with pc := .offering n m (todo.erase q) })
      ht (later_put n m) hu
  | publish => exact ⟨u', hu, .refl u'⟩
  | fork pid _ _ => exact absurd rfl (hfork pid)

/-! ## On the way -/

/-- The message a listener has in hand. -/
def ListenerPc.hand : ListenerPc → List (ℕ × Message)
  | .loading n m => [(n, m)]
  | .getting n m _ => [(n, m)]
  | .copying n m _ => [(n, m)]
  | .offering n m _ => [(n, m)]
  | _ => []

/-- The messages a listener holds: the one in hand, and those its connection has not handed over. -/
def Listener.carried (x : Listener) : List (ℕ × Message) := x.pc.hand ++ x.inbox

/-- A listener of the process holds message `n`. -/
def State.Underway (σ : State) (n : ℕ) : Prop :=
  ∃ l x m, σ.listeners l = some x ∧ (n, m) ∈ x.carried

/-- Thread `i` is subscribed to the session of message `n`, and was when it was published. -/
def State.Due (σ : State) (n i : ℕ) : Prop :=
  ∃ p t, σ.publications[n]? = some p ∧ p.live i = true ∧ σ.threads i = some t ∧
    t.pc = .subscribed ∧ p.message.channel = channel t.sid

/-- Message `n`, which is `m`, has been offered to queue `i`. -/
def State.Given (σ : State) (n : ℕ) (m : Message) (i : ℕ) : Prop :=
  ∃ t, σ.threads i = some t ∧ (n, m) ∈ t.offered

/-- Whom the listener has still to find, it will. -/
def ListenerPc.Serves (σ : State) : ListenerPc → Prop
  | .copying n _ s => ∀ i, σ.Due n i → ∃ s', s = some s' ∧ i ∈ σ.heap.set s'
  | .offering n m todo => ∀ i, σ.Due n i → i ∈ todo ∨ σ.Given n m i
  | _ => True

/-- Where the messages published in this process are. -/
structure Carried (σ : State) : Prop where
  known : ∀ l x, σ.listeners l = some x → ∀ n m, (n, m) ∈ x.carried →
    ∃ p, σ.publications[n]? = some p ∧ p.message = m
  handled : ∀ n ∈ σ.handled, n < σ.publications.length
  past : ∀ (n : ℕ) (p : Publication) (i : ℕ), σ.publications[n]? = some p →
    p.live i = true ∨ p.returned i = true → σ.Added i
  serves : ∀ l x, σ.listeners l = some x → x.pc.Serves σ
  given : ∀ (n : ℕ) (p : Publication), σ.publications[n]? = some p → n ∈ σ.handled →
    ∀ i, σ.Due n i → σ.Given n p.message i

/-- Nothing is known to a process that has no listener and has seen no message. -/
theorem Carried.of_nothing (hlisteners : ∀ l, σ.listeners l = none) (hhandled : σ.handled = [])
    (hpublications : σ.publications = []) : Carried σ where
  known := by simp [hlisteners]
  handled := by simp [hhandled]
  past := by simp [hpublications]
  serves := by simp [hlisteners]
  given := by simp [hhandled]

/-- What a step within a process leaves of what is due and given, for messages published before. -/
structure Passed (σ σ' : State) : Prop where
  due : ∀ n i, n < σ.publications.length → σ'.Due n i → σ.Due n i
  given : ∀ n m i, n < σ.publications.length → σ'.Due n i → σ.Given n m i → σ'.Given n m i
  member : ∀ n i s, σ'.Due n i → i ∈ σ.heap.set s → i ∈ σ'.heap.set s
  published : σ.publications <+: σ'.publications
  added : ∀ i, σ.Added i → σ'.Added i

theorem getElem?_of_extends {α : Type*} {xs ys : List α} {x : α} (h : xs <+: ys)
    (hx : xs[n]? = some x) : ys[n]? = some x := by
  rcases h with ⟨zs, rfl⟩
  rw [List.getElem?_append_left (List.getElem?_eq_some_iff.mp hx).1, hx]

theorem passed_of_step (hc : Carried σ) (h : Moved σ l σ') (hfork : ∀ pid, l ≠ .fork pid) :
    Passed σ σ' := by
  have hpublished : σ.publications <+: σ'.publications := by
    cases h with
    | act i t ht hact => cases hact <;> exact List.prefix_rfl
    | listen l listener _ hheard => cases hheard <;> exact List.prefix_rfl
    | publish => exact List.prefix_append _ _
    | fork pid _ _ => exact absurd rfl (hfork pid)
    | _ => exact List.prefix_rfl
  -- who is due now was due before, as the thread it then was
  have hback : ∀ n i, n < σ.publications.length → σ'.Due n i →
      ∃ p t t', σ.publications[n]? = some p ∧ p.live i = true ∧ σ.threads i = some t ∧
        σ'.threads i = some t' ∧ t.Later t' ∧ t'.pc = .subscribed ∧
        p.message.channel = channel t.sid := by
    rintro n i hn ⟨p, t', hp, hplive, ht', hpc, hchannel⟩
    have hp' : σ.publications[n]? = some p := by
      obtain ⟨p', hp'⟩ : ∃ p', σ.publications[n]? = some p' := ⟨_, List.getElem?_eq_getElem hn⟩
      rw [hp', ← hp, getElem?_of_extends hpublished hp']
    rcases later_of_step h hfork ht' (hc.past n p i hp' (Or.inl hplive)) with ⟨t, ht, hlater⟩
    exact ⟨p, t, t', hp', hplive, ht, ht', hlater, hpc, hlater.sid ▸ hchannel⟩
  refine ⟨?_, ?_, ?_, hpublished, fun i => added_of_step h⟩
  · intro n i hn hdue
    rcases hback n i hn hdue with ⟨p, t, t', hp, hplive, ht, _, hlater, hpc, hchannel⟩
    exact ⟨p, t, hp, hplive, ht, hlater.subscribed hpc, hchannel⟩
  · rintro n m i hn hdue ⟨u, hu, hgiven⟩
    rcases hback n i hn hdue with ⟨p, t, t', _, _, ht, ht', hlater, _⟩
    obtain rfl := Option.some.inj (ht.symm.trans hu)
    exact ⟨t', ht', hlater.offered hgiven⟩
  · rintro n i s ⟨_, t', _, _, ht', hpc, _⟩ hi
    exact member_stays h ⟨t', ht', hpc, rfl⟩ hi

theorem Carried.lt (hc : Carried σ) {l n : ℕ} {m : Message} {x : Listener}
    (hl : σ.listeners l = some x) (hm : (n, m) ∈ x.carried) : n < σ.publications.length := by
  rcases hc.known l x hl n m hm with ⟨p, hp, _⟩
  exact (List.getElem?_eq_some_iff.mp hp).1

theorem ListenerPc.Serves.of_passed {lpc : ListenerPc} (h : lpc.Serves σ) (hp : Passed σ σ')
    (hlt : ∀ n m, (n, m) ∈ lpc.hand → n < σ.publications.length) : lpc.Serves σ' := by
  cases lpc with
  | copying n m s =>
    intro i hdue
    rcases h i (hp.due n i (hlt n m (List.mem_singleton_self _)) hdue) with ⟨s', hs, hi⟩
    exact ⟨s', hs, hp.member n i s' hdue hi⟩
  | offering n m todo =>
    intro i hdue
    have hn := hlt n m (List.mem_singleton_self _)
    exact (h i (hp.due n i hn hdue)).imp_right (hp.given n m i hn hdue)
  | _ => trivial

/-- What the listeners do not touch. -/
theorem Carried.given_of_passed (hc : Carried σ) (hp : Passed σ σ') {p : Publication}
    (hpub : σ'.publications[n]? = some p) (hn : n ∈ σ.handled) (i : ℕ) (hdue : σ'.Due n i) :
    σ'.Given n p.message i := by
  have hlt := hc.handled n hn
  obtain ⟨p', hp'⟩ : ∃ p', σ.publications[n]? = some p' := ⟨_, List.getElem?_eq_getElem hlt⟩
  obtain rfl : p' = p := Option.some.inj ((getElem?_of_extends hp.published hp').symm.trans hpub)
  exact hp.given n p'.message i hlt hdue (hc.given n p' hp' hn i (hp.due n i hlt hdue))

/-- A step of a thread: the listeners stay, and there may be a new one. -/
theorem Carried.threadStep (hc : Carried σ) (hp : Passed σ σ')
    (hpublished : σ'.publications = σ.publications) (hhandled : σ'.handled = σ.handled)
    (hnew : ∀ l x, σ'.listeners l = some x →
      σ.listeners l = some x ∨ x = ⟨.connecting, false, []⟩) : Carried σ' where
  known := by
    intro l x hl n m hm
    rw [hpublished]
    rcases hnew l x hl with hl | rfl
    · exact hc.known l x hl n m hm
    · cases hm
  handled := by
    rw [hhandled, hpublished]
    exact hc.handled
  past := by
    intro n p i hn hlive
    rw [hpublished] at hn
    exact hp.added i (hc.past n p i hn hlive)
  serves := by
    intro l x hl
    rcases hnew l x hl with hl | rfl
    · refine (hc.serves l x hl).of_passed hp ?_
      intro n m hm
      exact hc.lt hl (List.mem_append_left _ hm)
    · trivial
  given := by
    intro n p hpub hn
    rw [hhandled] at hn
    exact hc.given_of_passed hp hpub hn

/-- A step of a listener, which may finish with the message in hand. -/
theorem Carried.listenerStep (hc : Carried σ) (hp : Passed σ σ') {l : ℕ} {x x' : Listener}
    (hl : σ.listeners l = some x) (hlisteners : σ'.listeners = (σ.setListener l x').listeners)
    (hpublished : σ'.publications = σ.publications) (hserves : x'.pc.Serves σ')
    (hsub : ∀ n m, (n, m) ∈ x'.carried → (n, m) ∈ x.carried)
    (hhandled : ∀ n ∈ σ'.handled, n ∈ σ.handled ∨
      ∃ m, (n, m) ∈ x.carried ∧ ∀ i, σ'.Due n i → σ'.Given n m i) : Carried σ' where
  known := by
    intro l' y hy n m hm
    rw [hlisteners] at hy
    rw [hpublished]
    refine listeners_setListener (P := fun _ y => ∀ n m, (n, m) ∈ y.carried →
      ∃ p, σ.publications[n]? = some p ∧ p.message = m) hc.known ?_ hy n m hm
    exact fun n m hm => hc.known l x hl n m (hsub n m hm)
  handled := by
    intro n hn
    rw [hpublished]
    rcases hhandled n hn with hn | ⟨m, hm, _⟩
    · exact hc.handled n hn
    · exact hc.lt hl hm
  past := by
    intro n p i hn hlive
    rw [hpublished] at hn
    exact hp.added i (hc.past n p i hn hlive)
  serves := by
    intro l' y hy
    rw [hlisteners] at hy
    refine listeners_setListener (P := fun _ y => y.pc.Serves σ') ?_ hserves hy
    intro l' y hy
    refine (hc.serves l' y hy).of_passed hp ?_
    intro n m hm
    exact hc.lt hy (List.mem_append_left _ hm)
  given := by
    intro n p hpub hn
    rcases hhandled n hn with hn | ⟨m, hm, hgiven⟩
    · exact hc.given_of_passed hp hpub hn
    · rw [hpublished] at hpub
      rcases hc.known l x hl n m hm with ⟨p', hp', rfl⟩
      obtain rfl := Option.some.inj (hpub.symm.trans hp')
      exact hgiven

/-! ## A publication -/

theorem hear_pc (n : ℕ) (m : Message) (x : Listener) : (State.hear n m x).pc = x.pc := by
  unfold State.hear
  split_ifs <;> rfl

theorem mem_hear {n n' : ℕ} {m m' : Message} {x : Listener} :
    (n', m') ∈ (State.hear n m x).carried ↔
      (n', m') ∈ x.carried ∨ (x.subscribed = true ∧ n' = n ∧ m' = m) := by
  by_cases hsub : x.subscribed = true
  · simp [State.hear, Listener.carried, hsub, or_assoc]
  · simp [State.hear, hsub]

theorem hears_iff : σ.hears = true ↔
    ∃ l, l < σ.started ∧ ∃ x, σ.listeners l = some x ∧ x.subscribed = true := by
  simp [State.hears, Option.any_eq_true]

/-- The new publication, or one of before. -/
theorem getElem?_publish {m : Message} {n : ℕ} {p : Publication}
    (h : (σ.publish m).publications[n]? = some p) :
    σ.publications[n]? = some p ∨ (n = σ.publications.length ∧
      p = ⟨m, fun i => (σ.pc? i).any Pc.returned,
        fun i => decide (σ.pc? i = some .subscribed)⟩) := by
  rcases lt_or_ge n σ.publications.length with hlt | hge
  · left
    rwa [State.publish, List.getElem?_append_left hlt] at h
  · right
    rw [State.publish, List.getElem?_append_right hge] at h
    have hzero : n - σ.publications.length = 0 := by
      by_contra hne
      rw [List.getElem?_eq_none] at h
      · cases h
      · simp only [List.length_singleton]
        omega
    rw [hzero] at h
    exact ⟨by omega, (Option.some.inj h).symm⟩

theorem Carried.publish (hc : Carried σ) (m : Message) (hp : Passed σ (σ.publish m)) :
    Carried (σ.publish m) where
  known := by
    intro l x' hl n m' hm
    rcases Option.map_eq_some_iff.mp hl with ⟨x, hx, rfl⟩
    rcases mem_hear.mp hm with hm | ⟨_, rfl, rfl⟩
    · rcases hc.known l x hx n m' hm with ⟨p, hpub, hmessage⟩
      exact ⟨p, getElem?_of_extends hp.published hpub, hmessage⟩
    · exact ⟨⟨m', fun i => (σ.pc? i).any Pc.returned,
        fun i => decide (σ.pc? i = some .subscribed)⟩, by simp [State.publish], rfl⟩
  handled := by
    intro n hn
    have hlt := hc.handled n hn
    simp only [State.publish, List.length_append, List.length_singleton]
    omega
  past := by
    intro n p i hn hlive
    rcases getElem?_publish hn with hn | ⟨_, rfl⟩
    · exact hc.past n p i hn hlive
    · rcases hlive with hlive | hreturned
      · exact ⟨.subscribed, of_decide_eq_true hlive, rfl⟩
      · rcases (Option.any_eq_true _ _).mp hreturned with ⟨pc, hpc, hreturned⟩
        exact ⟨pc, hpc, added_of_returned hreturned⟩
  serves := by
    intro l x' hl
    rcases Option.map_eq_some_iff.mp hl with ⟨x, hx, rfl⟩
    rw [hear_pc]
    exact (hc.serves l x hx).of_passed hp fun n m hm => hc.lt hx (List.mem_append_left _ hm)
  given := fun n p hpub hn => hc.given_of_passed hp hpub hn

/-! ## A step of the listener -/

/-- Who is due message `n` is registered under the session that the listener looks up. -/
theorem Carried.found (hc : Carried σ) (hsafe : Safe σ) (hlinked : σ.Linked) {l n d : ℕ}
    {m : Message} {x : Listener} (hl : σ.listeners l = some x) (hpc : x.pc = .getting n m d) (i : ℕ)
    (hdue : σ.Due n i) :
    ∃ s, σ.heap.dict d (EventHub.sessionOfChannel m.channel) = some s ∧ i ∈ σ.heap.set s := by
  rcases hdue with ⟨p, t, hp, _, ht, htpc, hchannel⟩
  obtain ⟨p', hp', rfl⟩ := hc.known l x hl n m (by
    rw [Listener.carried, hpc]
    exact List.mem_append_left _ (List.mem_singleton_self _))
  obtain rfl := Option.some.inj (hp.symm.trans hp')
  have hfine := hsafe.serving l x hl
  rw [hpc] at hfine
  obtain rfl : d = σ.queues := hfine
  rw [hchannel, EventHub.sessionOfChannel_channel]
  exact hlinked i t.sid ⟨t, ht, htpc, rfl⟩

theorem carried_of_heard (hc : Carried σ) (hsafe : Safe σ) (hlinked : σ.Linked) {l : ℕ}
    {x : Listener} (hl : σ.listeners l = some x) (h : Heard σ l x σ') (hp : Passed σ σ') :
    Carried σ' := by
  have hserves := hc.serves l x hl
  cases h with
  | connect hpc =>
    refine hc.listenerStep hp hl rfl rfl ?_ ?_ fun n hn => Or.inl hn
    · trivial
    · intro n m hm
      simpa [Listener.carried, ListenerPc.hand, hpc] using hm
  | poll n m rest hpc hinbox =>
    refine hc.listenerStep hp hl rfl rfl ?_ ?_ fun n hn => Or.inl hn
    · trivial
    · intro n' m' hm
      simpa [Listener.carried, ListenerPc.hand, hpc, hinbox] using hm
  | load n m hpc =>
    refine hc.listenerStep hp hl rfl rfl ?_ ?_ fun n hn => Or.inl hn
    · trivial
    · intro n' m' hm
      simpa [Listener.carried, ListenerPc.hand, hpc] using hm
  | get n m d hpc =>
    refine hc.listenerStep hp hl rfl rfl ?_ ?_ fun n hn => Or.inl hn
    · intro i hdue
      rcases hc.found hsafe hlinked hl hpc i hdue with ⟨s, hs, hi⟩
      exact ⟨s, hs, hi⟩
    · intro n' m' hm
      simpa [Listener.carried, ListenerPc.hand, hpc] using hm
  | copy n m s hpc =>
    refine hc.listenerStep hp hl rfl rfl ?_ ?_ fun n hn => Or.inl hn
    · intro i hdue
      rw [hpc] at hserves
      rcases hserves i hdue with ⟨s', rfl, hi⟩
      exact Or.inl hi
    · intro n' m' hm
      simpa [Listener.carried, ListenerPc.hand, hpc] using hm
  | finish n m hpc =>
    refine hc.listenerStep hp hl rfl rfl ?_ ?_ ?_
    · trivial
    · intro n' m' hm
      have hm' : (n', m') ∈ x.inbox := hm
      simp [Listener.carried, hm']
    · intro n' hn
      rcases List.mem_append.mp hn with hn | hn
      · exact Or.inl hn
      · obtain rfl := List.mem_singleton.mp hn
        refine Or.inr ⟨m, by simp [Listener.carried, ListenerPc.hand, hpc], fun i hdue => ?_⟩
        rw [hpc] at hserves
        rcases hserves i hdue with htodo | hgiven
        · exact absurd htodo (Finset.notMem_empty i)
        · exact hgiven

theorem carried_of_offer (hc : Carried σ) {l q n : ℕ} {m : Message} {x : Listener}
    {todo : Finset ℕ} (hl : σ.listeners l = some x) (hpc : x.pc = .offering n m todo)
    (hp : Passed σ ((σ.setListener l { x with pc := .offering n m (todo.erase q) }).setThread q
      (State.put t n m))) :
    Carried ((σ.setListener l { x with pc := .offering n m (todo.erase q) }).setThread q
      (State.put t n m)) := by
  have hserves := hc.serves l x hl
  rw [hpc] at hserves
  have hn : n < σ.publications.length := by
    refine hc.lt (m := m) hl ?_
    simp [Listener.carried, ListenerPc.hand, hpc]
  refine hc.listenerStep hp hl rfl rfl ?_ ?_ fun n hn => Or.inl hn
  · intro i hdue
    by_cases hiq : i = q
    · subst hiq
      exact Or.inr ⟨State.put t n m, setThread_threads_self, by simp [State.put]⟩
    · rcases hserves i (hp.due n i hn hdue) with htodo | hgiven
      · exact Or.inl (Finset.mem_erase.mpr ⟨hiq, htodo⟩)
      · exact Or.inr (hp.given n m i hn hdue hgiven)
  · intro n' m' hm
    simpa [Listener.carried, ListenerPc.hand, hpc] using hm

theorem carried_of_step (hc : Carried σ) (hsafe : Safe σ) (hlinked : σ.Linked)
    (h : Moved σ l σ') : Carried σ' := by
  have hp : (∀ pid, l ≠ .fork pid) → Passed σ σ' := passed_of_step hc h
  cases h with
  | act i t ht hact =>
    have hpassed := hp (by simp)
    cases hact with
    | start hpc =>
      refine hc.threadStep hpassed rfl rfl fun l x hl => ?_
      by_cases hne : l = σ.started
      · right
        simpa [State.setListener, hne] using hl.symm
      · left
        simpa [State.setListener, State.goto, State.setThread, hne] using hl
    | _ => exact hc.threadStep hpassed rfl rfl fun _ _ hl => Or.inl hl
  | listen l x hl hheard => exact carried_of_heard hc hsafe hlinked hl hheard (hp (by simp))
  | offer l q x t n m todo hl ht hpc hq => exact carried_of_offer hc hl hpc (hp (by simp))
  | publish sid data => exact hc.publish _ (hp (by simp))
  | fork pid _ _ => exact Carried.of_nothing (fun _ => rfl) rfl rfl
  | _ => exact hc.threadStep (hp (by simp)) rfl rfl fun _ _ hl => Or.inl hl

/-! ## Reached -/

/-- Message `n` has come to the listener's connection: a listener holds it, or has handled it. -/
def State.Arrived (σ : State) (n : ℕ) : Prop := σ.Underway n ∨ n ∈ σ.handled

/-- Every message of a session that was published after a `subscribe` for it had returned in this
process has arrived. -/
def State.Reached (σ : State) : Prop :=
  ∀ (n : ℕ) (p : Publication) (i : ℕ) (t : Thread), σ.publications[n]? = some p →
    σ.threads i = some t → p.returned i = true → p.message.channel = channel t.sid → σ.Arrived n

/-- Another message in the inbox of one listener, or the next point in it. -/
theorem arrived_of_setListener {x x' : Listener} {l : ℕ} (hl : σ.listeners l = some x)
    (hlisteners : σ'.listeners = (σ.setListener l x').listeners)
    (hmono : σ.handled ⊆ σ'.handled)
    (hrest : ∀ m, (n, m) ∈ x.carried → (n, m) ∈ x'.carried ∨ n ∈ σ'.handled)
    (h : σ.Arrived n) : σ'.Arrived n := by
  rcases h with ⟨l', y, m, hy, hm⟩ | hdone
  · by_cases hll : l' = l
    · subst hll
      obtain rfl := Option.some.inj (hl.symm.trans hy)
      refine (hrest m hm).imp_left fun hm' => ⟨l', x', m, ?_, hm'⟩
      simp [hlisteners, State.setListener]
    · refine Or.inl ⟨l', y, m, ?_, hm⟩
      simp [hlisteners, State.setListener, hll, hy]
  · exact Or.inr (hmono hdone)

/-- What has arrived is not lost within a process. -/
theorem arrived_of_step (hsafe : Safe σ) (h : Moved σ l σ') (hfork : ∀ pid, l ≠ .fork pid)
    (harrived : σ.Arrived n) : σ'.Arrived n := by
  cases h with
  | act i t ht hact =>
    cases hact with
    | start hpc =>
      refine harrived.imp_left ?_
      rintro ⟨l, x, m, hl, hm⟩
      have hne : l ≠ σ.started := (hsafe.started.listeners l x hl).ne
      exact ⟨l, x, m, by simpa [State.setListener, State.goto, State.setThread, hne] using hl, hm⟩
    | _ => exact harrived
  | listen l x hl hheard =>
    cases hheard with
    | connect hpc =>
      refine arrived_of_setListener hl rfl (List.Subset.refl _) (fun m hm => Or.inl ?_) harrived
      simpa [Listener.carried, ListenerPc.hand, hpc] using hm
    | poll n' m' rest hpc hinbox =>
      refine arrived_of_setListener hl rfl (List.Subset.refl _) (fun m hm => Or.inl ?_) harrived
      simpa [Listener.carried, ListenerPc.hand, hpc, hinbox] using hm
    | load n' m' hpc =>
      refine arrived_of_setListener hl rfl (List.Subset.refl _) (fun m hm => Or.inl ?_) harrived
      simpa [Listener.carried, ListenerPc.hand, hpc] using hm
    | get n' m' d hpc =>
      refine arrived_of_setListener hl rfl (List.Subset.refl _) (fun m hm => Or.inl ?_) harrived
      simpa [Listener.carried, ListenerPc.hand, hpc] using hm
    | copy n' m' s hpc =>
      refine arrived_of_setListener hl rfl (List.Subset.refl _) (fun m hm => Or.inl ?_) harrived
      simpa [Listener.carried, ListenerPc.hand, hpc] using hm
    | finish n' m' hpc =>
      refine arrived_of_setListener hl rfl (List.subset_append_left _ _) (fun m hm => ?_) harrived
      rw [Listener.carried, hpc] at hm
      rcases List.mem_append.mp hm with hhand | hinbox
      · rcases Prod.mk.inj (List.mem_singleton.mp hhand) with ⟨rfl, rfl⟩
        exact Or.inr (List.mem_append_right _ (List.mem_singleton_self _))
      · exact Or.inl hinbox
  | offer l q x t n' m' todo hl ht hpc hq =>
    refine arrived_of_setListener hl rfl (List.Subset.refl _) (fun m hm => Or.inl ?_) harrived
    simpa [Listener.carried, ListenerPc.hand, hpc] using hm
  | publish sid data =>
    refine harrived.imp_left ?_
    rintro ⟨l, x, m, hl, hm⟩
    exact ⟨l, State.hear σ.publications.length ⟨channel sid, data⟩ x, m,
      by simp [State.publish, hl], mem_hear.mpr (Or.inl hm)⟩
  | fork pid _ _ => exact absurd rfl (hfork pid)
  | _ => exact harrived

/-- A new message arrives exactly if a listener is pattern-subscribed. -/
theorem arrived_publish_iff (hc : Carried σ) (hsafe : Safe σ) (m : Message) :
    (σ.publish m).Arrived σ.publications.length ↔ σ.hears = true := by
  rw [hears_iff]
  constructor
  · rintro (⟨l, x', m', hl, hm⟩ | hdone)
    · rcases Option.map_eq_some_iff.mp hl with ⟨x, hx, rfl⟩
      rcases mem_hear.mp hm with hold | ⟨hsub, _, _⟩
      · exact absurd (hc.lt hx hold) (lt_irrefl _)
      · exact ⟨l, hsafe.started.listeners l x hx, x, hx, hsub⟩
    · exact absurd (hc.handled _ hdone) (lt_irrefl _)
  · rintro ⟨l, _, x, hl, hsub⟩
    exact Or.inl ⟨l, State.hear σ.publications.length m x, m, by simp [State.publish, hl],
      mem_hear.mpr (Or.inr ⟨hsub, rfl, rfl⟩)⟩

/-- A message is published before any `subscribe` for its session has returned, or while the listener
is pattern-subscribed. -/
def prompt : Lts.Guard State Label
  | .publish sid _, σ => (∃ i, σ.Returned i sid) → σ.hears = true
  | _, _ => True

/-- What holds in a calm run. -/
structure CalmInv (σ : State) : Prop where
  tracked : Tracked σ
  linked : σ.Linked
  carried : Carried σ

theorem CalmInv.init (pid : ℕ) : CalmInv (State.init pid) where
  tracked := Tracked.init pid
  linked := linked_init pid
  carried := .of_nothing (fun _ => rfl) rfl rfl

theorem CalmInv.step (hi : CalmInv σ) (hcalm : calm l σ) (h : State.step l σ = some σ') :
    CalmInv σ' where
  tracked := hi.tracked.step h
  linked := (linked_step_iff hi.tracked.1 hi.tracked.2 hi.linked (moved_of_step h)).mpr hcalm
  carried := carried_of_step hi.carried hi.tracked.1 hi.linked (moved_of_step h)

theorem reached_publish_iff {sid data : Str} (hi : CalmInv σ) (hreached : σ.Reached) :
    (σ.publish ⟨channel sid, data⟩).Reached ↔ prompt (.publish sid data) σ := by
  have harrived := arrived_publish_iff hi.carried hi.tracked.1 ⟨channel sid, data⟩
  constructor
  · rintro h ⟨i, t, ht, hreturned, rfl⟩
    rw [← harrived]
    refine h σ.publications.length ⟨⟨channel t.sid, data⟩, fun i => (σ.pc? i).any Pc.returned,
      fun i => decide (σ.pc? i = some .subscribed)⟩ i t (by simp [State.publish]) ht ?_ rfl
    simpa [pc?_of_thread ht] using hreturned
  · intro hprompt n p i t hp ht hreturned hchannel
    rcases getElem?_publish hp with hp | ⟨rfl, rfl⟩
    · exact arrived_of_step hi.tracked.1 (.publish sid data) (by simp)
        (hreached n p i t hp ht hreturned hchannel)
    · have ht' : σ.threads i = some t := ht
      refine harrived.mpr (hprompt ⟨i, t, ht', ?_, ?_⟩)
      · simpa [pc?_of_thread ht'] using hreturned
      · have hsid := congrArg EventHub.sessionOfChannel hchannel
        simpa using hsid.symm

/-- In a calm step everything stays reached exactly when the step is prompt. -/
theorem reached_step_iff (hi : CalmInv σ) (hreached : σ.Reached) (h : Moved σ l σ') :
    σ'.Reached ↔ prompt l σ := by
  have hkept : (∀ pid, l ≠ .fork pid) → σ'.publications = σ.publications → σ'.Reached := by
    intro hfork hpublished n p i t' hp ht' hreturned hchannel
    rw [hpublished] at hp
    rcases later_of_step h hfork ht' (hi.carried.past n p i hp (Or.inr hreturned)) with
      ⟨t, ht, hlater⟩
    exact arrived_of_step hi.tracked.1 h hfork
      (hreached n p i t hp ht hreturned (hlater.sid ▸ hchannel))
  cases h with
  | act i t ht hact =>
    refine iff_true_intro (hkept (by simp) ?_)
    cases hact <;> rfl
  | listen l x hl hheard =>
    refine iff_true_intro (hkept (by simp) ?_)
    cases hheard <;> rfl
  | publish sid data => exact reached_publish_iff hi hreached
  | fork pid _ _ => exact iff_true_intro fun n p i t hp => by cases hp
  | _ => exact iff_true_intro (hkept (by simp) rfl)

theorem reached_init (pid : ℕ) : (State.init pid).Reached := by
  intro n p i t hp
  cases hp

/-! ## Put into the queue -/

/-- In the run `ls` a listener has called `put_nowait` of queue `i` with message `n`, which is `m`, and
if fewer than ten messages were unread there, the queue has it at its end. -/
def PutInto (pid : ℕ) (ls : List Label) (n : ℕ) (m : Message) (i : ℕ) : Prop :=
  ∃ before l x todo s s' t t', (machine pid).Took ls before (.offer l i) s s' ∧
    s.listeners l = some x ∧ x.pc = .offering n m todo ∧ s.threads i = some t ∧
    s'.threads i = some t' ∧
    (t.queue.length < queueSize → t'.queue = t.queue ++ [m.data])

/-- What is new in what a queue was offered was offered in this step. -/
theorem given_of_step {m : Message} (h : Moved σ l σ') (hgiven : σ'.Given n m i) :
    σ.Given n m i ∨ ∃ l' x todo t, l = .offer l' i ∧ σ.listeners l' = some x ∧
      x.pc = .offering n m todo ∧ σ.threads i = some t ∧
      σ'.threads i = some (State.put t n m) := by
  rcases hgiven with ⟨u, hu, hoffered⟩
  have hset : ∀ {j : ℕ} {t : Thread} (t' : Thread), σ.threads j = some t →
      t'.offered = t.offered → (σ.setThread j t').threads i = some u → σ.Given n m i := by
    intro j t t' ht hsame hu
    by_cases hij : i = j
    · subst hij
      rw [setThread_threads_self] at hu
      obtain rfl := Option.some.inj hu
      exact ⟨t, ht, hsame ▸ hoffered⟩
    · rw [setThread_threads_ne hij] at hu
      exact ⟨u, hu, hoffered⟩
  cases h with
  | call j sid hnone =>
    by_cases hij : i = j
    · subst hij
      rw [setThread_threads_self] at hu
      obtain rfl := Option.some.inj hu
      cases hoffered
    · rw [setThread_threads_ne hij] at hu
      exact Or.inl ⟨u, hu, hoffered⟩
  | act j t ht hact =>
    rcases went_of_acted ht hact with ⟨pc, hwent, _⟩
    rw [hwent.threads] at hu
    exact Or.inl (hset { t with pc } ht rfl hu)
  | raise j t ht _ => exact Or.inl (hset { t with pc := .unwinding } ht rfl hu)
  | close j t ht _ => exact Or.inl (hset { t with pc := .looking } ht rfl hu)
  | read j t data queue ht _ _ => exact Or.inl (hset { t with queue } ht rfl hu)
  | listen l' x _ hheard => exact Or.inl ⟨u, by cases hheard <;> exact hu, hoffered⟩
  | offer l' q x t n' m' todo hl ht hpc _ =>
    by_cases hiq : i = q
    · subst hiq
      rw [setThread_threads_self] at hu ⊢
      obtain rfl := Option.some.inj hu
      rcases List.mem_append.mp hoffered with hold | hnew
      · exact Or.inl ⟨t, ht, hold⟩
      · rcases Prod.mk.inj (List.mem_singleton.mp hnew) with ⟨rfl, rfl⟩
        exact Or.inr ⟨l', x, todo, t, rfl, hl, hpc, ht, rfl⟩
    · rw [setThread_threads_ne hiq] at hu
      exact Or.inl ⟨u, hu, hoffered⟩
  | publish => exact Or.inl ⟨u, hu, hoffered⟩
  | fork pid _ _ =>
    rcases Option.map_eq_some_iff.mp hu with ⟨t, ht, rfl⟩
    exact Or.inl ⟨t, ht, hoffered⟩

/-- So there was a step that offered it. -/
theorem offer_of_given {pid : ℕ} {ls : List Label} {m : Message}
    (h : (machine pid).Run Lts.anyStep (State.init pid) ls σ) (hgiven : σ.Given n m i) :
    PutInto pid ls n m i := by
  have hinit : ¬ (State.init pid).Given n m i := by
    rintro ⟨t, ht, _⟩
    cases ht
  obtain ⟨before, l, s, s', took, hno, hyes⟩ :=
    Lts.Run.exists_took (M := machine pid) (P := fun τ => τ.Given n m i) h hinit hgiven
  obtain hold | ⟨l', x, todo, t, rfl, hl, hpc, ht, ht'⟩ := given_of_step (moved_of_step took.step) hyes
  · exact absurd hold hno
  · refine ⟨before, l', x, todo, s, s', t, _, took, hl, hpc, ht, ht', ?_⟩
    intro hroom
    exact if_pos hroom

/-- In the run `ls`: every message of a session that was published after a `subscribe` for it had
returned has arrived; and one that was published and handled while a thread was subscribed to its
session has been put into the queue of that thread, if fewer than ten messages were unread there. -/
structure Delivered (pid : ℕ) (ls : List Label) : Prop where
  reached : (machine pid).Always State.Reached (State.init pid) ls
  put : ∀ before σ, before <+: ls → (machine pid).exec before (State.init pid) = some σ →
    ∀ (n : ℕ) (p : Publication) (i : ℕ) (t : Thread), σ.publications[n]? = some p →
      p.live i = true → n ∈ σ.handled → σ.threads i = some t → t.pc = .subscribed →
      p.message.channel = channel t.sid → PutInto pid before n p.message i

/-- In a calm run everything is delivered exactly if every step is prompt. -/
theorem delivered_iff_prompt {pid : ℕ} {ls : List Label} {σ : State}
    (h : (machine pid).Run calm (State.init pid) ls σ) :
    Delivered pid ls ↔ (machine pid).Run prompt (State.init pid) ls σ := by
  have hiff : (machine pid).Always State.Reached (State.init pid) ls ↔
      (machine pid).Run prompt (State.init pid) ls σ :=
    h.always_iff (I := CalmInv) (fun _ _ _ hcalm hs hi => hi.step hcalm hs)
      (fun _ _ _ _ hs hi hreached => reached_step_iff hi hreached (moved_of_step hs))
      (CalmInv.init pid) (reached_init pid)
  refine ⟨fun hdelivered => hiff.mp hdelivered.reached, fun hprompt => ⟨hiff.mpr hprompt, ?_⟩⟩
  rintro before τ ⟨rest, rfl⟩ hτ n p i t hp hlive hhandled ht hpc hchannel
  rcases h.split with ⟨τ', hbefore, _⟩
  obtain rfl := Option.some.inj (hτ.symm.trans (Lts.exec_of_run hbefore))
  have hi : CalmInv τ := hbefore.invariant (P := CalmInv) (CalmInv.init pid)
    fun _ _ _ hcalm hs hi => hi.step hcalm hs
  exact offer_of_given (hbefore.mono fun _ _ _ => trivial)
    (hi.carried.given n p hp hhandled i ⟨p, t, hp, hlive, ht, hpc, hchannel⟩)

namespace Sample

/-- The first `subscribe` of a process returns, and the session is finished before the listener
has subscribed to the pattern. -/
def tooEarly : List Label :=
  .call 0 (lit "s") :: List.replicate 10 (.act 0) ++ [.publish (lit "s") (lit "{}"), .listen 0]

/-- The first stream of a process subscribes, and the listener connects. -/
def opened : List Label := .call 1 (name 1) :: List.replicate 10 (.act 1) ++ [.listen 0]

/-- Then the session is finished, and the listener hands the message on. -/
def inTime : List Label :=
  opened ++ .publish (name 1) (lit "{}") :: (List.replicate 4 (.listen 0) ++
    [.offer 0 1, .listen 0])

end Sample

/-- Steps that publish nothing are prompt. -/
theorem prompt_of_quiet {pid : ℕ} {ls : List Label} (h : (machine pid).Run Lts.anyStep σ ls σ')
    (hquiet : ∀ l ∈ ls, ∀ sid data, l ≠ .publish sid data) : (machine pid).Run prompt σ ls σ' := by
  refine (h.of_labels hquiet).mono ?_
  rintro l σ ⟨_, hl⟩
  cases l with
  | publish sid data => exact absurd rfl (hl sid data)
  | _ => trivial

/-- The first stream of a process can miss its result. -/
theorem message_missed :
    ¬ ∀ (ls : List Label) (σ : State),
      (machine 7).Run Lts.anyStep (State.init 7) ls σ → Delivered 7 ls := by
  intro h
  have hrun := (machine 7).run_after Sample.tooEarly (by decide +kernel)
  have ht : ((machine 7).after Sample.tooEarly).threads 0 =
      some ⟨lit "s", .subscribed, [], []⟩ := by rfl
  obtain ⟨p, hp, hreturned, hchannel⟩ : ∃ p : Publication,
      ((machine 7).after Sample.tooEarly).publications[0]? = some p ∧ p.returned 0 = true ∧
        p.message.channel = channel (lit "s") :=
    ⟨_, rfl, rfl, rfl⟩
  have hreached := (h _ _ hrun).reached _ _ List.prefix_rfl (Lts.exec_of_run hrun)
  rcases hreached 0 p 0 _ hp ht hreturned hchannel with ⟨l, x, m, hl, hm⟩ | hdone
  · -- the only listener has nothing
    have hlt := (Safe.of_reach ⟨_, hrun⟩).started.listeners l x hl
    have hstarted : ((machine 7).after Sample.tooEarly).started = 1 := by rfl
    obtain rfl : l = 0 := by omega
    have hidle : ((machine 7).after Sample.tooEarly).listeners 0 = some ⟨.polling, true, []⟩ := by
      rfl
    obtain rfl := Option.some.inj (hidle.symm.trans hl)
    cases hm
  · cases hdone

/-- It applies to a run in which the listener is there in time: the message is in the queue. -/
theorem delivered_iff_prompt_sample :
    Delivered 7 Sample.inTime ∧
      PutInto 7 Sample.inTime 0 ⟨channel (Sample.name 1), lit "{}"⟩ 1 ∧
      (((machine 7).after Sample.inTime).threads 1).map Thread.queue = some [lit "{}"] := by
  have hany := (machine 7).run_after Sample.inTime (by decide +kernel)
  have hcalm := calm_of_apart (apart_of_names Sample.name_injective hany fun i sid hmem => by
    have hcall : i = 1 ∧ sid = Sample.name 1 := by
      simpa [Sample.inTime, Sample.opened] using hmem
    rw [hcall.1, hcall.2])
  -- the message is published to a listener that hears it
  have hprompt : (machine 7).Run prompt (State.init 7) Sample.inTime
      ((machine 7).after Sample.inTime) := by
    have hopened := (machine 7).run_after Sample.opened (by decide +kernel)
    have hhears : ((machine 7).after Sample.opened).hears = true := by decide +kernel
    rcases hany.split with ⟨τ₀, hopened', hlast⟩
    obtain rfl := hopened'.deterministic hopened
    rcases Lts.run_cons_iff.mp hlast with ⟨_, τ, hstep, hrest⟩
    exact (prompt_of_quiet hopened (by simp [Sample.opened])).append
      (.cons (fun _ => hhears) hstep (prompt_of_quiet hrest (by simp)))
  have hdelivered := (delivered_iff_prompt hcalm).mpr hprompt
  obtain ⟨p, hp, hlive, hmessage⟩ : ∃ p : Publication,
      ((machine 7).after Sample.inTime).publications[0]? = some p ∧ p.live 1 = true ∧
        p.message = ⟨channel (Sample.name 1), lit "{}"⟩ :=
    ⟨_, rfl, rfl, rfl⟩
  obtain ⟨t, ht, hpc, hsid, hqueue⟩ : ∃ t : Thread,
      ((machine 7).after Sample.inTime).threads 1 = some t ∧ t.pc = .subscribed ∧
        t.sid = Sample.name 1 ∧ t.queue = [lit "{}"] :=
    ⟨_, rfl, rfl, rfl, rfl⟩
  refine ⟨hdelivered, ?_, by rw [ht, Option.map_some, hqueue]⟩
  rw [← hmessage]
  refine hdelivered.put _ _ List.prefix_rfl (Lts.exec_of_run hany) 0 p 1 t hp hlive ?_ ht hpc ?_
  · decide +kernel
  · rw [hmessage, hsid]

end HubThreads

end Doppelganger
