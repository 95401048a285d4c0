import Doppelganger.Lib.Text

/-!
# Hashes with an expiry

The part of a Redis server that a session store needs: hashes over a field type
`F`, a time to live on a key, a clock, and published messages. One command, one
transaction or one script is one function here, so each is atomic.

Time is a number of milliseconds. A key is gone from the millisecond of its
deadline on; moving the clock (`tick`) removes what has expired, so an expired
hash is never seen. The server computes a deadline in 64-bit integers, and an
`EXPIRE` whose deadline does not fit is an error (`Expirable`).
-/

open Text

namespace Redis

/-- The fields of a hash. -/
abbrev Hash (F : Type) := F → Option Str

/-- A key with its hash and, once `EXPIRE` was issued, its deadline. -/
structure Entry (F : Type) where
  fields : Hash F
  expiresAt : Option ℕ

/-- A PUBLISHed message. -/
structure Message where
  channel : Str
  data : Str
deriving DecidableEq

structure Server (F : Type) where
  now : ℕ
  db : Str → Option (Entry F)

variable {F : Type}

def Server.init : Server F := ⟨0, fun _ => none⟩

/-- Write the fields in order; a later value of a field replaces an earlier one. -/
def Hash.write [DecidableEq F] (h : Hash F) (data : List (F × Str)) : Hash F :=
  data.foldl (fun h p => Function.update h p.1 (some p.2)) h

/-! ## The range of a deadline -/

/-- `LLONG_MAX`. -/
def longLongMax : ℤ := 2 ^ 63 - 1

/-- `LLONG_MIN`. -/
def longLongMin : ℤ := -2 ^ 63

/-- `EXPIRE` accepts the time: its milliseconds are a 64-bit integer, and so is the deadline. The
division is that of C, which rounds towards zero. -/
def Expirable (now : ℕ) (seconds : ℤ) : Prop :=
  seconds ≤ longLongMax.tdiv 1000 ∧ longLongMin.tdiv 1000 ≤ seconds ∧
    seconds * 1000 ≤ longLongMax - now

instance (now : ℕ) (seconds : ℤ) : Decidable (Expirable now seconds) :=
  inferInstanceAs (Decidable (_ ∧ _ ∧ _))

/-- The deadline of a key whose `EXPIRE` is issued at `now`; none if it is refused. -/
def deadline? (now : ℕ) (seconds : ℤ) : Option ℕ :=
  if Expirable now seconds then some (now + seconds.toNat * 1000) else none

/-- A positive time is accepted as long as its deadline is a 64-bit integer. -/
theorem expirable_iff_of_pos {now : ℕ} {seconds : ℤ} (hpos : 0 < seconds) :
    Expirable now seconds ↔ now + seconds * 1000 ≤ longLongMax := by
  have hmax : longLongMax.tdiv 1000 = 9223372036854775 := by decide
  have hmin : longLongMin.tdiv 1000 = -9223372036854775 := by decide
  have hlong : longLongMax = 9223372036854775807 := by decide
  unfold Expirable
  omega

theorem deadline?_of_expirable {now : ℕ} {seconds : ℤ} (h : Expirable now seconds) :
    deadline? now seconds = some (now + seconds.toNat * 1000) :=
  if_pos h

theorem deadline?_of_refused {now : ℕ} {seconds : ℤ} (h : ¬ Expirable now seconds) :
    deadline? now seconds = none :=
  if_neg h

theorem deadline?_eq_some {now t : ℕ} {seconds : ℤ} (h : deadline? now seconds = some t) :
    Expirable now seconds ∧ t = now + seconds.toNat * 1000 := by
  unfold deadline? at h
  split_ifs at h with hexp
  exact ⟨hexp, (Option.some.inj h).symm⟩

namespace Server

/-- `EXISTS key`. -/
def exists? (s : Server F) (key : Str) : Bool := (s.db key).isSome

/-- `HGET key field`. -/
def hget (s : Server F) (key : Str) (f : F) : Option Str := (s.db key).bind fun e => e.fields f

/-- `HGETALL key`; there is no empty hash, so no hash and an empty reply are the same. -/
def hgetall (s : Server F) (key : Str) : Option (Hash F) := (s.db key).map (·.fields)

/-- Set what is stored under a key. -/
def put (s : Server F) (key : Str) (e : Option (Entry F)) : Server F :=
  { s with db := Function.update s.db key e }

/-- `HSET key field value ...`: creates the key when it is absent, without a deadline, and leaves
the deadline of a present key alone. -/
def hset [DecidableEq F] (s : Server F) (key : Str) (data : List (F × Str)) : Server F :=
  match s.db key with
  | none => s.put key (some ⟨Hash.write (fun _ => none) data, none⟩)
  | some e => s.put key (some { e with fields := e.fields.write data })

/-- A deadline on a present key; a time that is not positive deletes it. -/
def setExpire (s : Server F) (key : Str) (seconds : ℤ) : Server F :=
  match s.db key with
  | none => s
  | some e =>
    if seconds ≤ 0 then s.put key none
    else s.put key (some { e with expiresAt := some (s.now + seconds.toNat * 1000) })

/-- `EXPIRE key seconds`; `none` is the error "invalid expire time", and changes nothing. -/
def expire (s : Server F) (key : Str) (seconds : ℤ) : Option (Server F) :=
  if Expirable s.now seconds then some (s.setExpire key seconds) else none

/-- `DEL key`. -/
def del (s : Server F) (key : Str) : Server F := s.put key none

/-- The clock moves on and expired keys disappear. -/
def tick (s : Server F) (d : ℕ) : Server F where
  now := s.now + d
  db := fun key => (s.db key).filter fun e => e.expiresAt.all fun t => s.now + d < t

/-! ## What each command does to a key -/

@[simp] theorem put_now (s : Server F) (key : Str) (e : Option (Entry F)) :
    (s.put key e).now = s.now := rfl

@[simp] theorem put_db_self (s : Server F) (key : Str) (e : Option (Entry F)) :
    (s.put key e).db key = e := by
  simp [put]

/-- A new entry is a change. -/
theorem put_ne {key : Str} {s : Server F} (h : s.db key = none) (e : Entry F) :
    s.put key (some e) ≠ s := by
  intro hsame
  have hdb := congrArg (fun s => s.db key) hsame
  simp [h] at hdb

theorem put_db_ne {key key' : Str} (h : key' ≠ key) (s : Server F) (e : Option (Entry F)) :
    (s.put key e).db key' = s.db key' := by
  simp [put, h]

@[simp] theorem put_put (s : Server F) (key : Str) (e e' : Option (Entry F)) :
    (s.put key e).put key e' = s.put key e' := by
  simp [put]

theorem hset_of_some [DecidableEq F] {s : Server F} {key : Str} {e : Entry F} (h : s.db key = some e)
    (data : List (F × Str)) :
    s.hset key data = s.put key (some { e with fields := e.fields.write data }) := by
  simp [hset, h]

theorem hset_of_none [DecidableEq F] {s : Server F} {key : Str} (h : s.db key = none) (data : List (F × Str)) :
    s.hset key data = s.put key (some ⟨Hash.write (fun _ => none) data, none⟩) := by
  simp [hset, h]

/-! A command on one key leaves the others alone, and what it does depends on that key. -/

theorem hset_db_ne [DecidableEq F] {key key' : Str} (h : key' ≠ key) (s : Server F)
    (data : List (F × Str)) : (s.hset key data).db key' = s.db key' := by
  unfold hset
  cases s.db key <;> exact put_db_ne h s _

theorem setExpire_db_ne {key key' : Str} (h : key' ≠ key) (s : Server F) (seconds : ℤ) :
    (s.setExpire key seconds).db key' = s.db key' := by
  unfold setExpire
  cases s.db key with
  | none => rfl
  | some e =>
    dsimp only
    split_ifs
    · exact put_db_ne h s _
    · exact put_db_ne h s _

theorem hset_db_congr [DecidableEq F] {s s' : Server F} {key : Str} (h : s'.db key = s.db key)
    (data : List (F × Str)) : (s'.hset key data).db key = (s.hset key data).db key := by
  unfold hset
  rw [h]
  cases s.db key <;> simp

theorem setExpire_db_congr {s s' : Server F} {key : Str} (hnow : s'.now = s.now)
    (h : s'.db key = s.db key) (seconds : ℤ) :
    (s'.setExpire key seconds).db key = (s.setExpire key seconds).db key := by
  unfold setExpire
  rw [h, hnow]
  cases hs : s.db key with
  | none => simpa [hs] using h
  | some e =>
    dsimp only
    split_ifs <;> simp

theorem tick_db_congr {s s' : Server F} {key : Str} (hnow : s'.now = s.now)
    (h : s'.db key = s.db key) (d : ℕ) : (s'.tick d).db key = (s.tick d).db key := by
  simp only [tick, h, hnow]

/-! Only time moves the clock. -/

@[simp] theorem hset_now [DecidableEq F] (s : Server F) (key : Str) (data : List (F × Str)) :
    (s.hset key data).now = s.now := by
  unfold hset
  cases s.db key <;> rfl

@[simp] theorem setExpire_now (s : Server F) (key : Str) (seconds : ℤ) :
    (s.setExpire key seconds).now = s.now := by
  unfold setExpire
  cases s.db key with
  | none => rfl
  | some e =>
    dsimp only
    split_ifs <;> rfl

@[simp] theorem del_now (s : Server F) (key : Str) : (s.del key).now = s.now := rfl

@[simp] theorem del_db_self (s : Server F) (key : Str) : (s.del key).db key = none := by
  simp [del]

theorem del_db_ne {key key' : Str} (h : key' ≠ key) (s : Server F) :
    (s.del key).db key' = s.db key' :=
  put_db_ne h s none

@[simp] theorem tick_now (s : Server F) (d : ℕ) : (s.tick d).now = s.now + d := rfl

/-- What a clock step leaves behind was there before, and has not expired. -/
theorem tick_db_eq_some {s : Server F} {d : ℕ} {key : Str} {e : Entry F} :
    (s.tick d).db key = some e ↔
      s.db key = some e ∧ ∀ t, e.expiresAt = some t → s.now + d < t := by
  have hall : (e.expiresAt.all fun t => decide (s.now + d < t)) = true ↔
      ∀ t, e.expiresAt = some t → s.now + d < t := by
    cases e.expiresAt <;> simp
  simp [tick, Option.filter_eq_some_iff, hall]

theorem tick_db_of_none {s : Server F} {key : Str} (h : s.db key = none) (d : ℕ) :
    (s.tick d).db key = none := by
  simp [tick, h]

theorem hget_eq {s : Server F} {key : Str} {e : Entry F} (h : s.db key = some e) (f : F) :
    s.hget key f = e.fields f := by
  simp [hget, h]

theorem hget_of_none {s : Server F} {key : Str} (h : s.db key = none) (f : F) :
    s.hget key f = none := by
  simp [hget, h]

end Server

end Redis
