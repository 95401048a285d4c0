import Doppelganger.Lib.Json

/-!
# Request bodies

`validate_session_create` and `validate_verify` look at the decoded JSON body and
return an error text or `None`. They call string and dict methods on members of
unknown type, so they can also raise. What a handler reads from a body that
passed is a *form*; `validateSessionCreate_eq_none` and `validateVerify_eq_none`
say that the bodies that pass are those with a valid form.
-/

open Text

namespace Doppelganger

/-- Exceptions the handlers can raise. -/
inductive Exc where
  | attributeError
  | typeError
  | keyError
  | valueError
  | unicodeError
  | redisError
deriving DecidableEq

/-- `data.get(name, "")`: only a dict has `get`. -/
def getOrEmpty (data : Json) (name : Str) : Except Exc Json :=
  if data.isObj then .ok ((data.get? name).getD (.str [])) else .error .attributeError

/-- `s.strip()`: only a string has `strip`. -/
def stripped : Json → Except Exc Str
  | .str s => .ok (strip s)
  | _ => .error .attributeError

/-- `len(s)` of a member that has just been stripped. -/
def lengthOf : Json → Except Exc ℕ
  | .str s => .ok (len s)
  | .arr xs => .ok xs.length
  | .obj ms => .ok ms.length
  | _ => .error .typeError

/-- `not data.get(name, "").strip()`. -/
def isBlankMember (data : Json) (name : Str) : Except Exc Bool := do
  let v ← getOrEmpty data name
  let s ← stripped v
  return s.isEmpty

/-- `len(data.get(name, "")) > 500`. -/
def isLongMember (data : Json) (name : Str) : Except Exc Bool := do
  let v ← getOrEmpty data name
  let n ← lengthOf v
  return 500 < n

/-- `jwk.get("kty") == "EC" and jwk.get("crv") == "P-256"`. -/
def isP256 (jwk : Json) : Bool :=
  jwk.get? (lit "kty") = some (.str (lit "EC")) ∧ jwk.get? (lit "crv") = some (.str (lit "P-256"))

/-- The public-key check both validators end with. -/
def validateJwk (data : Json) (name notObject notP256 : Str) : Except Exc (Option Str) :=
  match data.get? name with
  | some jwk =>
    if jwk.isObj then
      if isP256 jwk then .ok none else .ok (some notP256)
    else .ok (some notObject)
  | none => .ok (some notObject)

def validateSessionCreate (data : Json) : Except Exc (Option Str) := do
  if !data.truthy then return some (lit "Request body required")
  -- `strip` raises where a member is not a string, before anything can be refused
  if ← isBlankMember data (lit "alice_name") then return some (lit "alice_name required")
  if ← isBlankMember data (lit "memory_question") then return some (lit "memory_question required")
  if ← isLongMember data (lit "memory_question") then
    return some (lit "memory_question must be under 500 characters")
  if ← isBlankMember data (lit "memory_answer") then return some (lit "memory_answer required")
  if ← isLongMember data (lit "memory_answer") then
    return some (lit "memory_answer must be under 500 characters")
  validateJwk data (lit "alice_pubkey_jwk") (lit "alice_pubkey_jwk must be a JWK object")
    (lit "alice_pubkey_jwk must be an EC P-256 key")

def validateVerify (data : Json) : Except Exc (Option Str) := do
  if !data.truthy then return some (lit "Request body required")
  if ← isBlankMember data (lit "bob_name") then return some (lit "bob_name required")
  if ← isBlankMember data (lit "answer") then return some (lit "answer required")
  if ← isLongMember data (lit "answer") then return some (lit "answer must be under 500 characters")
  validateJwk data (lit "bob_pubkey_jwk") (lit "bob_pubkey_jwk must be a JWK object")
    (lit "bob_pubkey_jwk must be an EC P-256 key")

/-! ## Forms -/

/-- What `create_session` reads from a body that passed. -/
structure CreateForm where
  aliceName : Str
  memoryQuestion : Str
  memoryAnswer : Str
  alicePubkeyJwk : Json
deriving DecidableEq

/-- What `verify` reads from a body that passed. -/
structure VerifyForm where
  bobName : Str
  answer : Str
  bobPubkeyJwk : Json
deriving DecidableEq

/-- `data[name]`, where a string is expected. -/
def stringMember (data : Json) (name : Str) : Option Str :=
  match data.get? name with
  | some (.str s) => some s
  | _ => none

def createForm (data : Json) : Option CreateForm := do
  let aliceName ← stringMember data (lit "alice_name")
  let memoryQuestion ← stringMember data (lit "memory_question")
  let memoryAnswer ← stringMember data (lit "memory_answer")
  let alicePubkeyJwk ← data.get? (lit "alice_pubkey_jwk")
  return { aliceName, memoryQuestion, memoryAnswer, alicePubkeyJwk }

def verifyForm (data : Json) : Option VerifyForm := do
  let bobName ← stringMember data (lit "bob_name")
  let answer ← stringMember data (lit "answer")
  let bobPubkeyJwk ← data.get? (lit "bob_pubkey_jwk")
  return { bobName, answer, bobPubkeyJwk }

/-- What the validator checks of the members of a create request. -/
structure CreateForm.Valid (form : CreateForm) : Prop where
  aliceName : strip form.aliceName ≠ []
  memoryQuestion : strip form.memoryQuestion ≠ [] ∧ len form.memoryQuestion ≤ 500
  memoryAnswer : strip form.memoryAnswer ≠ [] ∧ len form.memoryAnswer ≤ 500
  alicePubkeyJwk : form.alicePubkeyJwk.isObj = true ∧ isP256 form.alicePubkeyJwk = true

/-- What the validator checks of the members of a verify request. -/
structure VerifyForm.Valid (form : VerifyForm) : Prop where
  bobName : strip form.bobName ≠ []
  answer : strip form.answer ≠ [] ∧ len form.answer ≤ 500
  bobPubkeyJwk : form.bobPubkeyJwk.isObj = true ∧ isP256 form.bobPubkeyJwk = true

/-! ### One check at a time -/

theorem isBlankMember_of_string {data : Json} {name s : Str} (hd : data.isObj = true)
    (h : stringMember data name = some s) :
    isBlankMember data name = .ok (strip s).isEmpty := by
  unfold stringMember at h
  split at h
  · next t ht =>
    obtain rfl : t = s := by simpa using h
    simp [isBlankMember, getOrEmpty, hd, ht, stripped, bind, Except.bind, pure, Except.pure]
  · cases h

theorem isLongMember_of_string {data : Json} {name s : Str} (hd : data.isObj = true)
    (h : stringMember data name = some s) :
    isLongMember data name = .ok (decide (500 < len s)) := by
  unfold stringMember at h
  split at h
  · next t ht =>
    obtain rfl : t = s := by simpa using h
    simp [isLongMember, getOrEmpty, hd, ht, lengthOf, bind, Except.bind, pure, Except.pure]
  · cases h

/-- A member that is not blank is a string of a dict. -/
theorem string_of_isBlankMember {data : Json} {name : Str}
    (h : isBlankMember data name = .ok false) :
    data.isObj = true ∧ ∃ s, stringMember data name = some s ∧ strip s ≠ [] := by
  by_cases hd : data.isObj = true
  · cases hg : data.get? name with
    | none =>
      simp [isBlankMember, getOrEmpty, hd, hg, stripped, bind, Except.bind, pure, Except.pure,
        strip] at h
    | some v =>
      cases v with
      | str s =>
        refine ⟨hd, s, by simp [stringMember, hg], ?_⟩
        simpa [isBlankMember, getOrEmpty, hd, hg, stripped, bind, Except.bind, pure,
          Except.pure] using h
      | _ =>
        simp [isBlankMember, getOrEmpty, hd, hg, stripped, bind, Except.bind] at h
  · simp [isBlankMember, getOrEmpty, hd, bind, Except.bind] at h

theorem truthy_of_get? {data : Json} {name : Str} {v : Json} (h : data.get? name = some v) :
    data.truthy = true := by
  cases data with
  | obj ms =>
    cases ms with
    | nil => cases h
    | cons m ms => rfl
  | _ => cases h

theorem validateJwk_eq_none {data : Json} {name m₁ m₂ : Str} :
    validateJwk data name m₁ m₂ = .ok none ↔
      ∃ jwk, data.get? name = some jwk ∧ jwk.isObj = true ∧ isP256 jwk = true := by
  unfold validateJwk
  cases data.get? name with
  | none => simp
  | some jwk => by_cases h₁ : jwk.isObj = true <;> by_cases h₂ : isP256 jwk = true <;> simp [h₁, h₂]

/-- Peel one rejecting check off a validator that accepted. -/
theorem ok_none_of_bind {check : Except Exc Bool} {msg : Str} {rest : Except Exc (Option Str)}
    (h : (do if ← check then return some msg
             rest) = .ok none) : check = .ok false ∧ rest = .ok none := by
  cases check with
  | error e => cases h
  | ok b =>
    cases b with
    | false => exact ⟨rfl, h⟩
    | true => cases h

/-! ### The validators accept exactly their schema -/

theorem createForm_eq_some {data : Json} {form : CreateForm} :
    createForm data = some form ↔
      stringMember data (lit "alice_name") = some form.aliceName ∧
      stringMember data (lit "memory_question") = some form.memoryQuestion ∧
      stringMember data (lit "memory_answer") = some form.memoryAnswer ∧
      data.get? (lit "alice_pubkey_jwk") = some form.alicePubkeyJwk := by
  constructor
  · intro h
    simp only [createForm, Option.bind_eq_bind, Option.bind_eq_some_iff, Option.pure_def,
      Option.some.injEq] at h
    rcases h with ⟨n, hn, q, hq, a, ha, k, hk, rfl⟩
    exact ⟨hn, hq, ha, hk⟩
  · rintro ⟨hn, hq, ha, hk⟩
    simp [createForm, hn, hq, ha, hk]

theorem verifyForm_eq_some {data : Json} {form : VerifyForm} :
    verifyForm data = some form ↔
      stringMember data (lit "bob_name") = some form.bobName ∧
      stringMember data (lit "answer") = some form.answer ∧
      data.get? (lit "bob_pubkey_jwk") = some form.bobPubkeyJwk := by
  constructor
  · intro h
    simp only [verifyForm, Option.bind_eq_bind, Option.bind_eq_some_iff, Option.pure_def,
      Option.some.injEq] at h
    rcases h with ⟨n, hn, a, ha, k, hk, rfl⟩
    exact ⟨hn, ha, hk⟩
  · rintro ⟨hn, ha, hk⟩
    simp [verifyForm, hn, ha, hk]

/-- A create request is accepted exactly when its body is a dict whose members make a valid form. -/
theorem validateSessionCreate_eq_none {data : Json} :
    validateSessionCreate data = .ok none ↔
      data.isObj = true ∧ ∃ form, createForm data = some form ∧ form.Valid := by
  constructor
  · intro h
    unfold validateSessionCreate at h
    split at h
    · cases h
    rcases ok_none_of_bind h with ⟨hname, h⟩
    rcases ok_none_of_bind h with ⟨hquestion, h⟩
    rcases ok_none_of_bind h with ⟨hlong, h⟩
    rcases ok_none_of_bind h with ⟨hanswer, h⟩
    rcases ok_none_of_bind h with ⟨hlong', h⟩
    rcases string_of_isBlankMember hname with ⟨hobj, n, hn, hn'⟩
    rcases string_of_isBlankMember hquestion with ⟨_, q, hq, hq'⟩
    rcases string_of_isBlankMember hanswer with ⟨_, a, ha, ha'⟩
    rcases validateJwk_eq_none.mp h with ⟨jwk, hj, hj', hp⟩
    have hqlen : len q ≤ 500 := by simpa [isLongMember_of_string hobj hq] using hlong
    have halen : len a ≤ 500 := by simpa [isLongMember_of_string hobj ha] using hlong'
    exact ⟨hobj, ⟨n, q, a, jwk⟩, createForm_eq_some.mpr ⟨hn, hq, ha, hj⟩,
      hn', ⟨hq', hqlen⟩, ⟨ha', halen⟩, hj', hp⟩
  · rintro ⟨hobj, form, hform, hvalid⟩
    rcases createForm_eq_some.mp hform with ⟨hn, hq, ha, hj⟩
    have hj' : ∀ m₁ m₂, validateJwk data (lit "alice_pubkey_jwk") m₁ m₂ = .ok none := fun m₁ m₂ =>
      validateJwk_eq_none.mpr ⟨_, hj, hvalid.alicePubkeyJwk.1, hvalid.alicePubkeyJwk.2⟩
    simp [validateSessionCreate, truthy_of_get? hj, isBlankMember_of_string hobj hn,
      isBlankMember_of_string hobj hq, isBlankMember_of_string hobj ha,
      isLongMember_of_string hobj hq, isLongMember_of_string hobj ha, hvalid.aliceName,
      hvalid.memoryQuestion.1, hvalid.memoryAnswer.1, Nat.not_lt.mpr hvalid.memoryQuestion.2,
      Nat.not_lt.mpr hvalid.memoryAnswer.2, hj', bind, Except.bind]

/-- A verify request is accepted exactly when its body is a dict whose members make a valid form. -/
theorem validateVerify_eq_none {data : Json} :
    validateVerify data = .ok none ↔
      data.isObj = true ∧ ∃ form, verifyForm data = some form ∧ form.Valid := by
  constructor
  · intro h
    unfold validateVerify at h
    split at h
    · cases h
    rcases ok_none_of_bind h with ⟨hname, h⟩
    rcases ok_none_of_bind h with ⟨hanswer, h⟩
    rcases ok_none_of_bind h with ⟨hlong, h⟩
    rcases string_of_isBlankMember hname with ⟨hobj, n, hn, hn'⟩
    rcases string_of_isBlankMember hanswer with ⟨_, a, ha, ha'⟩
    rcases validateJwk_eq_none.mp h with ⟨jwk, hj, hj', hp⟩
    have halen : len a ≤ 500 := by simpa [isLongMember_of_string hobj ha] using hlong
    exact ⟨hobj, ⟨n, a, jwk⟩, verifyForm_eq_some.mpr ⟨hn, ha, hj⟩, hn', ⟨ha', halen⟩, hj', hp⟩
  · rintro ⟨hobj, form, hform, hvalid⟩
    rcases verifyForm_eq_some.mp hform with ⟨hn, ha, hj⟩
    have hj' : ∀ m₁ m₂, validateJwk data (lit "bob_pubkey_jwk") m₁ m₂ = .ok none := fun m₁ m₂ =>
      validateJwk_eq_none.mpr ⟨_, hj, hvalid.bobPubkeyJwk.1, hvalid.bobPubkeyJwk.2⟩
    simp [validateVerify, truthy_of_get? hj, isBlankMember_of_string hobj hn,
      isBlankMember_of_string hobj ha, isLongMember_of_string hobj ha, hvalid.bobName,
      hvalid.answer.1, Nat.not_lt.mpr hvalid.answer.2, hj', bind, Except.bind]

end Doppelganger
