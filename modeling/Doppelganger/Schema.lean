import Doppelganger.Handlers
import Doppelganger.Server

/-!
# Request bodies outside the schema

`validateSessionCreate_eq_none` and `validateVerify_eq_none` say which bodies are accepted. The
others should be answered 400. The public-key member is checked with `isinstance` before
anything is asked of it; the string members are not, so the checks raise at a body that is no
object, and at the first string member that is neither a string nor missing, unless an earlier
member is rejected before. `handled_iff` is the exact condition.
-/

open Text

namespace Doppelganger

/-- A string member that a validator checks, and whether its length is limited. -/
structure StringCheck where
  name : Str
  limited : Bool

def createChecks : List StringCheck :=
  [⟨lit "alice_name", false⟩, ⟨lit "memory_question", true⟩, ⟨lit "memory_answer", true⟩]

def verifyChecks : List StringCheck := [⟨lit "bob_name", false⟩, ⟨lit "answer", true⟩]

def StringCheck.Accepts (c : StringCheck) (s : Str) : Prop :=
  strip s ≠ [] ∧ (c.limited = true → len s ≤ 500)

/-- In the order of the checks, the members up to the first rejected one are strings or missing. -/
def Readable (data : Json) : List StringCheck → Prop
  | [] => True
  | c :: cs =>
    data.get? c.name = none ∨
      ∃ s, data.get? c.name = some (.str s) ∧ (c.Accepts s → Readable data cs)

/-- A validator returned. -/
def Returns (result : Except Exc (Option Str)) : Prop := ∃ r, result = .ok r

theorem returns_check {check : Except Exc Bool} {msg : Str} {rest : Except Exc (Option Str)} :
    Returns (do if ← check then return some msg
                rest) ↔ check = .ok true ∨ check = .ok false ∧ Returns rest := by
  cases check with
  | error e => simp [Returns, bind, Except.bind]
  | ok b => cases b <;> simp [Returns, bind, Except.bind, pure, Except.pure]

theorem returns_jwk (data : Json) (name m₁ m₂ : Str) : Returns (validateJwk data name m₁ m₂) := by
  unfold validateJwk
  split
  · split_ifs
    · exact ⟨_, rfl⟩
    · exact ⟨_, rfl⟩
    · exact ⟨_, rfl⟩
  · exact ⟨_, rfl⟩

section
variable {data : Json} (hd : data.isObj = true) {name msg : Str} {rest : Except Exc (Option Str)}
include hd

theorem returns_blankCheck :
    Returns (do if ← isBlankMember data name then return some msg
                rest) ↔
      data.get? name = none ∨
        ∃ s, data.get? name = some (.str s) ∧ (strip s ≠ [] → Returns rest) := by
  rw [returns_check]
  cases hg : data.get? name with
  | none =>
    have hempty : strip [] = [] := rfl
    simp [isBlankMember, getOrEmpty, hd, hg, stripped, bind, Except.bind, pure, Except.pure,
      hempty]
  | some v =>
    cases v with
    | str s =>
      have hs : stringMember data name = some s := by simp [stringMember, hg]
      rw [isBlankMember_of_string hd hs]
      by_cases hblank : strip s = [] <;> simp [hblank]
    | _ => simp [isBlankMember, getOrEmpty, hd, hg, stripped, bind, Except.bind]

theorem returns_longCheck {s : Str} (hg : data.get? name = some (.str s)) :
    Returns (do if ← isLongMember data name then return some msg
                rest) ↔ (len s ≤ 500 → Returns rest) := by
  have hs : stringMember data name = some s := by simp [stringMember, hg]
  rw [returns_check, isLongMember_of_string hd hs]
  by_cases hlong : 500 < len s
  · simp [hlong]
  · simp [hlong, not_lt.mp hlong]

/-- The two checks of a member of limited length. -/
theorem returns_limitedCheck {msg' : Str} :
    Returns (do if ← isBlankMember data name then return some msg
                if ← isLongMember data name then return some msg'
                rest) ↔
      data.get? name = none ∨
        ∃ s, data.get? name = some (.str s) ∧ (strip s ≠ [] ∧ len s ≤ 500 → Returns rest) := by
  rw [returns_blankCheck hd]
  refine or_congr_right (exists_congr fun s => and_congr_right fun hg => ?_)
  rw [returns_longCheck hd hg, and_imp]

end

/-- The methods of a dict are called on anything truthy. -/
theorem raises_of_not_isObj {data : Json} (hd : data.isObj = false) {name msg : Str}
    {rest : Except Exc (Option Str)} :
    ¬ Returns (do if ← isBlankMember data name then return some msg
                  rest) := by
  simp [Returns, isBlankMember, getOrEmpty, hd, bind, Except.bind]

theorem validateSessionCreate_returns_iff (data : Json) :
    Returns (validateSessionCreate data) ↔
      data.truthy = false ∨ data.isObj = true ∧ Readable data createChecks := by
  unfold validateSessionCreate
  cases ht : data.truthy with
  | false => simp [Returns, pure, Except.pure]
  | true =>
    simp only [Bool.not_true, Bool.false_eq_true, if_false, Bool.true_eq_false, false_or]
    cases hd : data.isObj with
    | false => simpa using raises_of_not_isObj hd
    | true =>
      rw [returns_blankCheck hd]
      simp only [returns_limitedCheck hd, returns_jwk, Readable, createChecks,
        StringCheck.Accepts, true_and, Bool.false_eq_true, false_imp_iff, and_true, true_imp_iff]

theorem validateVerify_returns_iff (data : Json) :
    Returns (validateVerify data) ↔
      data.truthy = false ∨ data.isObj = true ∧ Readable data verifyChecks := by
  unfold validateVerify
  cases ht : data.truthy with
  | false => simp [Returns, pure, Except.pure]
  | true =>
    simp only [Bool.not_true, Bool.false_eq_true, if_false, Bool.true_eq_false, false_or]
    cases hd : data.isObj with
    | false => simpa using raises_of_not_isObj hd
    | true =>
      rw [returns_blankCheck hd]
      simp only [returns_limitedCheck hd, returns_jwk, Readable, verifyChecks,
        StringCheck.Accepts, true_and, Bool.false_eq_true, false_imp_iff, and_true, true_imp_iff]

/-- The bodies that a create request must have. -/
def CreateSchema (body : Json) : Prop :=
  body.isObj = true ∧ ∃ form, createForm body = some form ∧ form.Valid

/-- The bodies that a verify request must have. -/
def VerifySchema (body : Json) : Prop :=
  body.isObj = true ∧ ∃ form, verifyForm body = some form ∧ form.Valid

/-- A body is handled as the schema says: the validator accepts it or returns an error text, and
then the answer is a 400 that costs neither an embedding nor a Redis command. -/
structure Handled (schema : Prop) (result : Except Exc (Option Str)) (start : Handler) : Prop where
  returns : Returns result
  accepts : result = .ok none ↔ schema
  rejects : ∀ msg, result = .ok (some msg) → start = .replying (.ok (errorResponse 400 msg))

theorem handled_iff (body : Json) :
    (Handled (CreateSchema body) (validateSessionCreate body) (Handler.start (.create body)) ↔
      body.truthy = false ∨ body.isObj = true ∧ Readable body createChecks) ∧
    ∀ sid,
      (Handled (VerifySchema body) (validateVerify body) (Handler.start (.verify sid body)) ↔
        body.truthy = false ∨ body.isObj = true ∧ Readable body verifyChecks) := by
  refine ⟨?_, fun sid => ?_⟩
  · rw [← validateSessionCreate_returns_iff]
    -- what returns is right: only raising is at fault
    refine ⟨fun h => h.returns, fun h => ⟨h, validateSessionCreate_eq_none, fun msg hmsg => ?_⟩⟩
    simp [Handler.start, hmsg]
  · rw [← validateVerify_returns_iff]
    refine ⟨fun h => h.returns, fun h => ⟨h, validateVerify_eq_none, fun msg hmsg => ?_⟩⟩
    simp [Handler.start, hmsg]

/-- A body whose name is a number raises `AttributeError`, and so does one that is a list. -/
theorem number_as_name_not_handled :
    let named : Json := .obj [(lit "alice_name", .int 5)]
    let listed : Json := .arr [.null]
    Handler.start (.create named) = .replying (.error .attributeError) ∧
    ¬ Handled (CreateSchema named) (validateSessionCreate named) (Handler.start (.create named)) ∧
    Handler.start (.verify Sample.sid listed) = .replying (.error .attributeError) ∧
    answerOf (.error .attributeError) = serverError := by
  have hraise : validateSessionCreate (.obj [(lit "alice_name", .int 5)]) =
      .error .attributeError := by decide +kernel
  refine ⟨rfl, ?_, rfl, rfl⟩
  rintro ⟨⟨r, hr⟩, _, _⟩
  rw [hraise] at hr
  cases hr

end Doppelganger
