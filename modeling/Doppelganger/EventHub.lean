import Doppelganger.SessionStore

/-!
# The event hub of a worker

One worker process holds one pub/sub connection and fans its messages out to the
queues of the streams it serves. `_queues` is a dict from session id to the set
of queues registered under it; a queue is named by a number here, its contents
live with the stream that owns it.

`subscribe` and `unsubscribe` are taken as atomic. Their effect on which queues a
message reaches is `mem_targets_subscribe` and `mem_targets_unsubscribe`.
-/

open Text Redis

namespace Doppelganger

/-- `_queues`: session id to the set of registered queues. -/
abbrev Hub := Str → Option (Finset ℕ)

/-- `queue.Queue(maxsize=10)`. -/
def queueSize : ℕ := 10

namespace EventHub

def empty : Hub := fun _ => none

/-- `self._queues.setdefault(session_id, set()).add(q)`. -/
def subscribe (hub : Hub) (sid : Str) (q : ℕ) : Hub :=
  Function.update hub sid (some (insert q ((hub sid).getD ∅)))

/-- Drop the queue from its set, and the set from the dict when it is empty. -/
def unsubscribe (hub : Hub) (sid : Str) (q : ℕ) : Hub :=
  match hub sid with
  | none => hub
  | some qs =>
    if qs.erase q = ∅ then Function.update hub sid none
    else Function.update hub sid (some (qs.erase q))

/-- `self._queues.get(session_id, ())`. -/
def targets (hub : Hub) (sid : Str) : Finset ℕ := (hub sid).getD ∅

/-- `channel[len(_PREFIX):-len(_SUFFIX)]`. -/
def sessionOfChannel (channel : Str) : Str :=
  (channel.take (channel.length - (lit ":events").length)).drop (lit "session:").length

/-- `q.put_nowait(data)`: dropped when the queue is full. -/
def putNowait (queue : List Str) (data : Str) : List Str :=
  if queue.length < queueSize then queue ++ [data] else queue

/-- The listener cuts out of a channel name the id that `_channel` put in. -/
@[simp] theorem sessionOfChannel_channel (sid : Str) : sessionOfChannel (channel sid) = sid := by
  have hlen : (channel sid).length - (lit ":events").length =
      (lit "session:" ++ sid).length := by
    simp only [channel, List.length_append]
    omega
  rw [sessionOfChannel, hlen, channel, ← List.append_assoc, List.take_left, List.drop_left]

theorem mem_targets_subscribe {hub : Hub} {sid sid' : Str} {q q' : ℕ} :
    q' ∈ targets (subscribe hub sid q) sid' ↔ (sid' = sid ∧ q' = q) ∨ q' ∈ targets hub sid' := by
  by_cases h : sid' = sid
  · subst h
    simp [targets, subscribe]
  · simp [targets, subscribe, h]

theorem mem_targets_unsubscribe {hub : Hub} {sid sid' : Str} {q q' : ℕ} :
    q' ∈ targets (unsubscribe hub sid q) sid' ↔
      q' ∈ targets hub sid' ∧ ¬ (sid' = sid ∧ q' = q) := by
  unfold unsubscribe
  cases hs : hub sid with
  | none =>
    by_cases h : sid' = sid
    · subst h
      simp [targets, hs]
    · simp [h]
  | some qs =>
    by_cases h : sid' = sid
    · subst h
      by_cases he : qs.erase q = ∅
      · have hno : q' ∉ qs ∨ q' = q := by
          by_contra hc
          push Not at hc
          have hmem : q' ∈ qs.erase q := Finset.mem_erase.mpr ⟨hc.2, hc.1⟩
          rw [he] at hmem
          exact absurd hmem (Finset.notMem_empty _)
        simp only [he, if_true, targets, Function.update_self, Option.getD_none,
          Finset.notMem_empty, hs, Option.getD_some, true_and, false_iff]
        tauto
      · simp [he, targets, hs, and_comm]
    · by_cases he : qs.erase q = ∅ <;> simp [he, targets, h]

end EventHub

end Doppelganger
