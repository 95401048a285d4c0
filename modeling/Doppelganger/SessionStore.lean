import Doppelganger.Lib.Redis
import Doppelganger.Lib.JsonText
import Doppelganger.Score
import Doppelganger.Validators

/-!
# The session store

Every session is one Redis hash under `session:{id}`, and its outcome is
announced on the channel `session:{id}:events`. The store's commands are one
Redis command, one transaction or one script each:

* `create` — MULTI: HSET of the nine fields, then EXPIRE; a refused EXPIRE does not undo the HSET;
* `finalize` — the script that moves a session out of `WAITING_FOR_BOB`;
* `get`, `getPhase`, `terminalEvent` — reads;
* `delete` — DEL.
-/

open Text Redis

namespace Doppelganger

/-- The fields of a session hash. -/
inductive Field where
  | phase
  | aliceName
  | memoryQuestion
  | answerEmbedding
  | alicePubkeyJwk
  | bobName
  | bobPubkeyJwk
  | similarityScore
  | createdAt
deriving DecidableEq

abbrev Session := Hash Field

abbrev Store := Server Field

/-! ## Keys and channels -/

def key (sid : Str) : Str := lit "session:" ++ sid

def channel (sid : Str) : Str := lit "session:" ++ (sid ++ lit ":events")

theorem key_injective : Function.Injective key := by
  intro a b h
  exact List.append_cancel_left h

theorem channel_injective : Function.Injective channel := by
  intro a b h
  exact List.append_cancel_right (List.append_cancel_left h)

@[simp] theorem key_inj {a b : Str} : key a = key b ↔ a = b := key_injective.eq_iff

/-! ## Phases -/

def waitingForBob : Str := lit "WAITING_FOR_BOB"

def verified : Str := lit "VERIFIED"

def failed : Str := lit "FAILED"

def expired : Str := lit "EXPIRED"

theorem verified_ne_waiting : verified ≠ waitingForBob := by decide

theorem failed_ne_waiting : failed ≠ waitingForBob := by decide

theorem verified_ne_failed : verified ≠ failed := by decide

namespace SessionStore

/-! ## create -/

/-- The mapping `SessionStore.create` writes. -/
def createData (form : CreateForm) (embedding : Json) (createdAt : Str) : List (Field × Str) :=
  [(.phase, waitingForBob),
   (.aliceName, form.aliceName),
   (.memoryQuestion, form.memoryQuestion),
   (.answerEmbedding, embedding.dumps),
   (.alicePubkeyJwk, form.alicePubkeyJwk.dumps),
   (.bobName, []),
   (.bobPubkeyJwk, []),
   (.similarityScore, []),
   (.createdAt, createdAt)]

/-- `SessionStore.create`: one transaction. EXEC runs both commands, and `pipe.execute` raises the
error of the second. -/
def create (db : Store) (sid : Str) (form : CreateForm) (embedding : Json) (createdAt : Str)
    (ttl : ℤ) : Store × Except Exc Unit :=
  let written := db.hset (key sid) (createData form embedding createdAt)
  match written.expire (key sid) ttl with
  | some db' => (db', .ok ())
  | none => (written, .error .redisError)

/-! ## finalize -/

/-- What the script returns. -/
inductive Outcome where
  | gone        -- -1: the session expired
  | completed   -- 0: it was already completed
  | won         -- 1: this call finalized it
deriving DecidableEq

/-- The script `_FINALIZE_LUA`. -/
def finalizeLua (db : Store) (key channel event : Str) (updates : List (Field × Str)) :
    Store × List Message × Outcome :=
  -- one script: nothing happens between the two checks and the writes
  if !db.exists? key then (db, [], .gone)
  else if db.hget key .phase ≠ some waitingForBob then (db, [], .completed)
  else (db.hset key updates, [⟨channel, event⟩], .won)

/-- `SessionStore.finalize`. -/
def finalize (db : Store) (sid : Str) (updates : List (Field × Str)) (event : Json) :
    Store × List Message × Outcome :=
  finalizeLua db (key sid) (channel sid) event.dumps updates

/-! ## Reads -/

/-- `SessionStore.get`. -/
def get (db : Store) (sid : Str) : Option Session := db.hgetall (key sid)

/-- `SessionStore.get_phase`. -/
def getPhase (db : Store) (sid : Str) : Option Str := db.hget (key sid) .phase

def verifiedEvent (bobName bobPubkeyJwk : Json) (score : ℤ) : Json :=
  .obj [(lit "event", .str verified), (lit "bob_name", bobName),
    (lit "bob_pubkey_jwk", bobPubkeyJwk), (lit "score", .int score)]

def failedEvent (score : ℤ) : Json := .obj [(lit "event", .str failed), (lit "score", .int score)]

def expiredEvent : Json := .obj [(lit "event", .str expired)]

/-- A hash value as a Python object. -/
def ofField : Option Str → Json
  | none => .null
  | some s => .str s

/-- `round(float(score) * 100)`. -/
def storedPct (score : Option Str) : Except Exc ℤ :=
  match score with
  | none => .error .typeError
  | some s =>
    match pyFloat s with
    | none => .error .valueError
    | some x => .ok (pct x)

/-- `SessionStore.terminal_event`; `none` while the session waits for Bob. -/
def terminalEvent (db : Store) (sid : Str) : Except Exc (Option Json) :=
  let read := db.hget (key sid)
  -- HMGET of a key that is gone answers nil four times
  match read .phase with
  | none => .ok (some expiredEvent)
  | some phase =>
    if phase = verified then
      match read .bobPubkeyJwk with
      | none => .error .typeError
      | some text =>
        match Json.loads text with
        | none => .error .valueError
        | some jwk =>
          match storedPct (read .similarityScore) with
          | .error e => .error e
          | .ok score => .ok (some (verifiedEvent (ofField (read .bobName)) jwk score))
    else if phase = failed then
      match storedPct (read .similarityScore) with
      | .error e => .error e
      | .ok score => .ok (some (failedEvent score))
    else .ok none

/-- `SessionStore.delete`. -/
def delete (db : Store) (sid : Str) : Store := db.del (key sid)

/-! ## What the commands do -/

/-- The hash a session is created with. -/
def newSession (form : CreateForm) (embedding : Json) (createdAt : Str) : Session :=
  Hash.write (fun _ => none) (createData form embedding createdAt)

section
variable (form : CreateForm) (embedding : Json) (createdAt : Str)

@[simp] theorem newSession_phase :
    newSession form embedding createdAt .phase = some waitingForBob := rfl

@[simp] theorem newSession_aliceName :
    newSession form embedding createdAt .aliceName = some form.aliceName := rfl

@[simp] theorem newSession_memoryQuestion :
    newSession form embedding createdAt .memoryQuestion = some form.memoryQuestion := rfl

@[simp] theorem newSession_answerEmbedding :
    newSession form embedding createdAt .answerEmbedding = some embedding.dumps := rfl

@[simp] theorem newSession_alicePubkeyJwk :
    newSession form embedding createdAt .alicePubkeyJwk = some form.alicePubkeyJwk.dumps := rfl

/-- A new session holds all nine fields. -/
theorem newSession_full (f : Field) : (newSession form embedding createdAt f).isSome = true := by
  cases f <;> rfl

end

/-- What `create` leaves under an unused key: the nine fields, which die `ttl` seconds later if the
server takes that time. A time to live that is not positive leaves nothing behind. -/
def createdEntry (now : ℕ) (form : CreateForm) (embedding : Json) (createdAt : Str) (ttl : ℤ) :
    Option (Entry Field) :=
  if Expirable now ttl ∧ ttl ≤ 0 then none
  else some ⟨newSession form embedding createdAt, deadline? now ttl⟩

/-- A new session is the one that was written, with the deadline that was accepted. -/
theorem createdEntry_eq_some {now : ℕ} {form : CreateForm} {embedding : Json} {createdAt : Str}
    {ttl : ℤ} {e : Entry Field} (h : createdEntry now form embedding createdAt ttl = some e) :
    e = ⟨newSession form embedding createdAt, deadline? now ttl⟩ := by
  unfold createdEntry at h
  split_ifs at h
  exact (Option.some.inj h).symm

/-- A new session is not dead yet. -/
theorem live_of_createdEntry {now t : ℕ} {form : CreateForm} {embedding : Json} {createdAt : Str}
    {ttl : ℤ} {e : Entry Field} (h : createdEntry now form embedding createdAt ttl = some e)
    (ht : e.expiresAt = some t) : now < t := by
  obtain rfl := createdEntry_eq_some h
  rcases deadline?_eq_some ht with ⟨hexp, rfl⟩
  have hpos : ¬ ttl ≤ 0 := by
    intro hle
    simp [createdEntry, hexp, hle] at h
  omega

/-- A session is created under an unused key, with an error if its time to live is refused. -/
theorem create_of_absent {db : Store} {sid : Str} (h : db.db (key sid) = none) (form : CreateForm)
    (embedding : Json) (createdAt : Str) (ttl : ℤ) :
    create db sid form embedding createdAt ttl =
      (db.put (key sid) (createdEntry db.now form embedding createdAt ttl),
        if Expirable db.now ttl then .ok () else .error .redisError) := by
  unfold create createdEntry
  rw [Server.hset_of_none h]
  by_cases hexp : Expirable db.now ttl
  · by_cases hpos : ttl ≤ 0
    · simp [Server.expire, Server.setExpire, hexp, hpos]
    · simp [Server.expire, Server.setExpire, hexp, hpos, deadline?, newSession]
  · simp [Server.expire, hexp, deadline?, newSession]

@[simp] theorem create_now (db : Store) (sid : Str) (form : CreateForm) (embedding : Json)
    (createdAt : Str) (ttl : ℤ) : (create db sid form embedding createdAt ttl).1.now = db.now := by
  simp only [create, Server.expire]
  split_ifs <;> simp

/-- The transaction leaves other keys alone. -/
theorem create_db_ne {db : Store} {sid k : Str} (h : k ≠ key sid) (form : CreateForm)
    (embedding : Json) (createdAt : Str) (ttl : ℤ) :
    (create db sid form embedding createdAt ttl).1.db k = db.db k := by
  simp only [create, Server.expire]
  split_ifs
  · exact (Server.setExpire_db_ne h _ _).trans (Server.hset_db_ne h _ _)
  · exact Server.hset_db_ne h _ _

/-- What the transaction does, and its answer, depend on the clock and on its key. -/
theorem create_congr {db db' : Store} {sid : Str} (hnow : db'.now = db.now)
    (h : db'.db (key sid) = db.db (key sid)) (form : CreateForm) (embedding : Json)
    (createdAt : Str) (ttl : ℤ) :
    (create db' sid form embedding createdAt ttl).1.db (key sid) =
        (create db sid form embedding createdAt ttl).1.db (key sid) ∧
      (create db' sid form embedding createdAt ttl).2 =
        (create db sid form embedding createdAt ttl).2 := by
  have hwritten := Server.hset_db_congr h (createData form embedding createdAt)
  simp only [create, Server.expire, Server.hset_now, hnow]
  split_ifs
  · exact ⟨Server.setExpire_db_congr (by simp [hnow]) hwritten ttl, rfl⟩
  · exact ⟨hwritten, rfl⟩

/-! The script on a session that is gone, completed, or waiting for Bob. -/

theorem finalize_of_none {db : Store} {sid : Str} (h : db.db (key sid) = none)
    (updates : List (Field × Str)) (event : Json) :
    finalize db sid updates event = (db, [], .gone) := by
  simp [finalize, finalizeLua, Server.exists?, h]

theorem finalize_of_completed {db : Store} {sid : Str} {e : Entry Field}
    (h : db.db (key sid) = some e) (hp : e.fields .phase ≠ some waitingForBob)
    (updates : List (Field × Str)) (event : Json) :
    finalize db sid updates event = (db, [], .completed) := by
  simp [finalize, finalizeLua, Server.exists?, Server.hget, h, hp]

theorem finalize_of_waiting {db : Store} {sid : Str} {e : Entry Field}
    (h : db.db (key sid) = some e) (hp : e.fields .phase = some waitingForBob)
    (updates : List (Field × Str)) (event : Json) :
    finalize db sid updates event =
      (db.put (key sid) (some { e with fields := e.fields.write updates }),
        [⟨channel sid, event.dumps⟩], .won) := by
  simp [finalize, finalizeLua, Server.exists?, Server.hget, h, hp, Server.hset_of_some h]

end SessionStore

end Doppelganger
