import Doppelganger.Lib.Text

/-!
# JSON values as Python holds them

`json.loads` returns `None`, booleans, integers, floats, strings, lists and
dicts. A float is kept as the text `repr` gives it, so no arithmetic is involved
in carrying one around. A dict is its list of members; on lookup the last member
of a name wins, as it does when a JSON object repeats a name.
-/

open Text

/-- Characters of a number token. -/
def isNumberUnit (u : UInt16) : Bool :=
  isDigit u || u == unit '+' || u == unit '-' || u == unit '.' || u == unit 'e' || u == unit 'E'

/-- `0`, or digits that do not start with `0`. -/
def isNatToken : Str → Bool
  | [] => false
  | c :: ds => isDigit c && ds.all isDigit && (c != unit '0' || ds.isEmpty)

/-- The text without a leading minus sign. -/
def unsigned : Str → Str
  | [] => []
  | c :: ds => if c == unit '-' then ds else c :: ds

/-- An integer token: an optional minus sign and a natural number. -/
def isIntToken (s : Str) : Bool := isNatToken (unsigned s)

/-- What may follow `e` in a number: an optional sign and digits. -/
def isExponent : Str → Bool
  | [] => false
  | c :: ds =>
    if c == unit '+' || c == unit '-' then !ds.isEmpty && ds.all isDigit
    else isDigit c && ds.all isDigit

/-- Nothing, or an exponent part. -/
def isExponentPart : Str → Bool
  | [] => true
  | c :: x => (c == unit 'e' || c == unit 'E') && isExponent x

/-- A fraction or an exponent, or both. -/
def isFraction : Str → Bool
  | [] => false
  | c :: x =>
    if c == unit '.' then
      !(x.takeWhile isDigit).isEmpty && isExponentPart (x.dropWhile isDigit)
    else isExponentPart (c :: x)

/-- A number token that is not an integer. -/
def isFloatToken (s : Str) : Bool :=
  isNatToken ((unsigned s).takeWhile isDigit) && isFraction ((unsigned s).dropWhile isDigit)

/-- A finite float, as `float.__repr__` writes it. -/
structure FloatText where
  text : Str
  token : isFloatToken text = true
deriving DecidableEq

/-- A Python float. -/
inductive PyFloat where
  | finite (x : FloatText)
  | nan
  | inf
  | negInf
deriving DecidableEq

/-- A JSON value. -/
inductive Json where
  | null
  | bool (b : Bool)
  | int (n : ℤ)
  | float (x : PyFloat)
  | str (s : Str)
  | arr (xs : List Json)
  | obj (members : List (Str × Json))

namespace Json

instance : Inhabited Json := ⟨.null⟩

/-! ## Equality is decidable -/

mutual

def beq : Json → Json → Bool
  | .null, .null => true
  | .bool a, .bool b => a == b
  | .int a, .int b => a == b
  | .float a, .float b => decide (a = b)
  | .str a, .str b => decide (a = b)
  | .arr a, .arr b => beqList a b
  | .obj a, .obj b => beqMembers a b
  | _, _ => false

def beqList : List Json → List Json → Bool
  | [], [] => true
  | a :: as, b :: bs => beq a b && beqList as bs
  | _, _ => false

def beqMembers : List (Str × Json) → List (Str × Json) → Bool
  | [], [] => true
  | (k, a) :: as, (k', b) :: bs => decide (k = k') && beq a b && beqMembers as bs
  | _, _ => false

end

mutual

theorem beq_iff : ∀ a b : Json, beq a b = true ↔ a = b
  | .null, b => by cases b <;> simp [beq]
  | .bool _, b => by cases b <;> simp [beq]
  | .int _, b => by cases b <;> simp [beq]
  | .float _, b => by cases b <;> simp [beq]
  | .str _, b => by cases b <;> simp [beq]
  | .arr as, b => by
    cases b with
    | arr bs => simp [beq, beqList_iff as bs]
    | _ => simp [beq]
  | .obj as, b => by
    cases b with
    | obj bs => simp [beq, beqMembers_iff as bs]
    | _ => simp [beq]

theorem beqList_iff : ∀ as bs : List Json, beqList as bs = true ↔ as = bs
  | [], bs => by cases bs <;> simp [beqList]
  | a :: as, bs => by
    cases bs with
    | nil => simp [beqList]
    | cons b bs => simp [beqList, beq_iff a b, beqList_iff as bs]

theorem beqMembers_iff : ∀ as bs : List (Str × Json), beqMembers as bs = true ↔ as = bs
  | [], bs => by cases bs <;> simp [beqMembers]
  | (k, a) :: as, bs => by
    cases bs with
    | nil => simp [beqMembers]
    | cons p bs =>
      rcases p with ⟨k', b⟩
      simp [beqMembers, beq_iff a b, beqMembers_iff as bs, and_assoc]

end

instance : DecidableEq Json := fun a b => decidable_of_iff _ (beq_iff a b)

/-! ## Access -/

/-- The last member of a name. -/
def lookup (k : Str) : List (Str × Json) → Option Json
  | [] => none
  | (k', v) :: rest => (lookup k rest).or (if k' = k then some v else none)

/-- `d.get(k)` on a dict; anything else has no members. -/
def get? (j : Json) (k : Str) : Option Json :=
  match j with
  | .obj ms => lookup k ms
  | _ => none

/-- `d[k] = v` on a dict: every member of that name is overwritten, a new one is appended. -/
def setMember (k : Str) (v : Json) : List (Str × Json) → List (Str × Json)
  | [] => [(k, v)]
  | (k', w) :: rest =>
    if k' = k then (k', v) :: rest.filter (fun p => p.1 ≠ k) else (k', w) :: setMember k v rest

def set (j : Json) (k : Str) (v : Json) : Json :=
  match j with
  | .obj ms => .obj (setMember k v ms)
  | _ => j

def isObj : Json → Bool
  | .obj _ => true
  | _ => false

/-- Python truthiness. -/
def truthy : Json → Bool
  | .null => false
  | .bool b => b
  | .int n => n != 0
  | .float (.finite x) => x.text.any fun u => decide (49 ≤ u ∧ u ≤ 57)
  | .float _ => true
  | .str s => !s.isEmpty
  | .arr xs => !xs.isEmpty
  | .obj ms => !ms.isEmpty

theorem lookup_filter_ne {k k' : Str} (h : k' ≠ k) (ms : List (Str × Json)) :
    lookup k' (ms.filter fun p => p.1 ≠ k) = lookup k' ms := by
  induction ms with
  | nil => rfl
  | cons p ms ih =>
    rcases p with ⟨n, v⟩
    by_cases hn : n = k
    · have hk : ¬ n = k' := fun hk => h (hk.symm.trans hn)
      simpa [lookup, hn, Ne.symm h] using ih
    · simpa [lookup, hn] using congrArg (fun o => o.or (if n = k' then some v else none)) ih

theorem lookup_filter_self (k : Str) (ms : List (Str × Json)) :
    lookup k (ms.filter fun p => p.1 ≠ k) = none := by
  induction ms with
  | nil => rfl
  | cons p ms ih =>
    by_cases hn : p.1 = k
    · simpa [lookup, hn] using ih
    · simpa [lookup, hn] using ih

@[simp] theorem lookup_setMember_self (k : Str) (v : Json) (ms : List (Str × Json)) :
    lookup k (setMember k v ms) = some v := by
  induction ms with
  | nil => simp [setMember, lookup]
  | cons p ms ih =>
    rcases p with ⟨n, w⟩
    by_cases hn : n = k
    · have hf := lookup_filter_self k ms
      simp only [setMember, hn, if_true, lookup, hf, Option.none_or]
    · simp [setMember, hn, lookup, ih]

theorem lookup_setMember_ne {k k' : Str} (h : k' ≠ k) (v : Json) (ms : List (Str × Json)) :
    lookup k' (setMember k v ms) = lookup k' ms := by
  induction ms with
  | nil => simp [setMember, lookup, Ne.symm h]
  | cons p ms ih =>
    rcases p with ⟨n, w⟩
    by_cases hn : n = k
    · have hf := lookup_filter_ne h ms
      simp only [setMember, hn, if_true, lookup, hf, if_neg (Ne.symm h)]
    · simp [setMember, hn, lookup, ih]

@[simp] theorem get?_set_self {j : Json} (h : j.isObj = true) (k : Str) (v : Json) :
    (j.set k v).get? k = some v := by
  cases j <;> simp_all [isObj, set, get?]

theorem get?_set_ne {k k' : Str} (h : k' ≠ k) (j v : Json) :
    (j.set k v).get? k' = j.get? k' := by
  cases j <;> simp [set, get?, lookup_setMember_ne h]

@[simp] theorem isObj_set (j v : Json) (k : Str) : (j.set k v).isObj = j.isObj := by
  cases j <;> rfl

end Json
