import Doppelganger.Lib.Json
import Mathlib.Data.Nat.Digits.Lemmas

/-!
# `json.dumps` and `json.loads`

`dumps` is Python's encoder with its defaults: `", "` and `": "` as separators
and every character outside printable ASCII escaped. `loads` is the decoder:
white space between tokens, the three non-standard number names, strict strings.

The result is `loads_dumps`: what `dumps` wrote, `loads` reads back.
-/

open Text

namespace Json

/-! ## Encoder -/

def hexDigit (d : ℕ) : UInt16 := if d < 10 then (48 + d).toUInt16 else (87 + d).toUInt16

/-- Four lower-case hexadecimal digits. -/
def hex4 (u : UInt16) : Str :=
  [hexDigit (u.toNat / 4096), hexDigit (u.toNat / 256 % 16), hexDigit (u.toNat / 16 % 16),
   hexDigit (u.toNat % 16)]

/-- One character inside a JSON string. -/
def escapeUnit (u : UInt16) : Str :=
  if u = unit '"' then lit "\\\""
  else if u = unit '\\' then lit "\\\\"
  else if u = 10 then lit "\\n"
  else if u = 13 then lit "\\r"
  else if u = 9 then lit "\\t"
  else if u = 12 then lit "\\f"
  else if u = 8 then lit "\\b"
  else if 32 ≤ u ∧ u ≤ 126 then [u]
  else lit "\\u" ++ hex4 u

def dumpsStr (s : Str) : Str := unit '"' :: (s.flatMap escapeUnit ++ [unit '"'])

def dumpsFloat : PyFloat → Str
  | .finite x => x.text
  | .nan => lit "NaN"
  | .inf => lit "Infinity"
  | .negInf => lit "-Infinity"

mutual

/-- `json.dumps(j)`. -/
def dumps : Json → Str
  | .null => lit "null"
  | .bool true => lit "true"
  | .bool false => lit "false"
  | .int n => intText n
  | .float x => dumpsFloat x
  | .str s => dumpsStr s
  | .arr xs => unit '[' :: dumpsElements xs
  | .obj ms => unit '{' :: dumpsMembers ms

/-- The elements of a list and its closing bracket. -/
def dumpsElements : List Json → Str
  | [] => [unit ']']
  | [x] => dumps x ++ [unit ']']
  | x :: y :: ys => dumps x ++ (lit ", " ++ dumpsElements (y :: ys))

/-- The members of a dict and its closing brace. -/
def dumpsMembers : List (Str × Json) → Str
  | [] => [unit '}']
  | [(k, v)] => dumpsStr k ++ (lit ": " ++ (dumps v ++ [unit '}']))
  | (k, v) :: m :: ms => dumpsStr k ++ (lit ": " ++ (dumps v ++ (lit ", " ++ dumpsMembers (m :: ms))))

end

/-! ## Decoder -/

def isBlank (u : UInt16) : Bool := u == 32 || u == 9 || u == 10 || u == 13

def skipBlanks (s : Str) : Str := s.dropWhile isBlank

def hexValue (u : UInt16) : Option ℕ :=
  if isDigit u then some (u.toNat - 48)
  else if 97 ≤ u ∧ u ≤ 102 then some (u.toNat - 87)
  else if 65 ≤ u ∧ u ≤ 70 then some (u.toNat - 55)
  else none

def readHex4 (a b c d : UInt16) : Option UInt16 := do
  let a ← hexValue a
  let b ← hexValue b
  let c ← hexValue c
  let d ← hexValue d
  return (a * 4096 + b * 256 + c * 16 + d).toUInt16

/-- The character a two-character escape stands for. -/
def unescape (u : UInt16) : Option UInt16 :=
  if u = unit '"' ∨ u = unit '\\' ∨ u = unit '/' then some u
  else if u = unit 'n' then some 10
  else if u = unit 'r' then some 13
  else if u = unit 't' then some 9
  else if u = unit 'f' then some 12
  else if u = unit 'b' then some 8
  else none

/-- Push a character onto what the rest of a string reads as. -/
def pushUnit (u : Option UInt16) (r : Option (Str × Str)) : Option (Str × Str) := do
  let u ← u
  let (s, rest) ← r
  return (u :: s, rest)

/-- The body of a string after its opening quote: its value and what follows. -/
def scanString : Str → Option (Str × Str)
  | [] => none
  | u :: rest =>
    if u = unit '"' then some ([], rest)
    else if u = unit '\\' then
      match rest with
      | [] => none
      | e :: rest =>
        if e = unit 'u' then
          match rest with
          | a :: b :: c :: d :: rest => pushUnit (readHex4 a b c d) (scanString rest)
          | _ => none
        else pushUnit (unescape e) (scanString rest)
    else if u < 32 then none
    else pushUnit (some u) (scanString rest)

/-- The value of a number token. -/
def readNumber (tok : Str) : Option Json :=
  if isIntToken tok then
    some (.int (if tok.head? = some (unit '-') then -(natOfDigits (unsigned tok) : ℤ)
      else natOfDigits (unsigned tok)))
  else if h : isFloatToken tok = true then some (.float (.finite ⟨tok, h⟩))
  else none

/-- Read a fixed word. -/
def scanWord (w : Str) (j : Json) (s : Str) : Option (Json × Str) :=
  if w.isPrefixOf s then some (j, s.drop w.length) else none

/-- What stands between two elements or members: the closing bracket, or a comma. -/
inductive Separator where
  | close (rest : Str)
  | comma (rest : Str)

def scanSeparator (bracket : UInt16) (s : Str) : Option Separator :=
  match skipBlanks s with
  | [] => none
  | c :: r =>
    if c = bracket then some (.close r)
    else if c = unit ',' then some (.comma (skipBlanks r))
    else none

/-- The name of a member and its colon. -/
def scanName : Str → Option (Str × Str)
  | [] => none
  | c :: s =>
    if c = unit '"' then do
      let (k, r) ← scanString s
      match skipBlanks r with
      | [] => none
      | d :: r => if d = unit ':' then some (k, skipBlanks r) else none
    else none

mutual

/-- One value at the front of the text, and what follows it. -/
def scanValue : ℕ → Str → Option (Json × Str)
  | 0, _ => none
  | _ + 1, [] => none
  | n + 1, c :: rest =>
    if c = unit '"' then (scanString rest).map fun p => (.str p.1, p.2)
    else if c = unit '[' then
      match skipBlanks rest with
      | [] => none
      | d :: r =>
        if d = unit ']' then some (.arr [], r)
        else (scanElements n (d :: r)).map fun p => (.arr p.1, p.2)
    else if c = unit '{' then
      match skipBlanks rest with
      | [] => none
      | d :: r =>
        if d = unit '}' then some (.obj [], r)
        else (scanMembers n (d :: r)).map fun p => (.obj p.1, p.2)
    else if c = unit 'n' then scanWord (lit "null") .null (c :: rest)
    else if c = unit 't' then scanWord (lit "true") (.bool true) (c :: rest)
    else if c = unit 'f' then scanWord (lit "false") (.bool false) (c :: rest)
    else if c = unit 'N' then scanWord (lit "NaN") (.float .nan) (c :: rest)
    else if c = unit 'I' then scanWord (lit "Infinity") (.float .inf) (c :: rest)
    else if c = unit '-' ∧ rest.head? = some (unit 'I') then
      scanWord (lit "-Infinity") (.float .negInf) (c :: rest)
    else
      (readNumber ((c :: rest).takeWhile isNumberUnit)).map
        fun j => (j, (c :: rest).dropWhile isNumberUnit)

/-- The elements of a list up to its closing bracket. -/
def scanElements : ℕ → Str → Option (List Json × Str)
  | 0, _ => none
  | n + 1, s => do
    let (x, r) ← scanValue n s
    match ← scanSeparator (unit ']') r with
    | .close r => return ([x], r)
    | .comma r =>
      let (xs, r) ← scanElements n r
      return (x :: xs, r)

/-- The members of a dict up to its closing brace. -/
def scanMembers : ℕ → Str → Option (List (Str × Json) × Str)
  | 0, _ => none
  | n + 1, s => do
    let (k, r) ← scanName s
    let (v, r) ← scanValue n r
    match ← scanSeparator (unit '}') r with
    | .close r => return ([(k, v)], r)
    | .comma r =>
      let (ms, r) ← scanMembers n r
      return ((k, v) :: ms, r)

end

/-- `json.loads(s)`; `none` where it raises. The nesting of a text is bounded by its length. -/
def loads (s : Str) : Option Json :=
  match scanValue (s.length + 1) (skipBlanks s) with
  | some (j, r) => if (skipBlanks r).isEmpty then some j else none
  | none => none

/-! ## Strings -/

theorem hexValue_hexDigit {d : ℕ} (h : d < 16) : hexValue (hexDigit d) = some d := by
  interval_cases d <;> decide

theorem readHex4_hex4 (u : UInt16) :
    readHex4 (hexDigit (u.toNat / 4096)) (hexDigit (u.toNat / 256 % 16))
      (hexDigit (u.toNat / 16 % 16)) (hexDigit (u.toNat % 16)) = some u := by
  have hu : u.toNat < 65536 := u.toNat_lt
  have hsum : u.toNat / 4096 * 4096 + u.toNat / 256 % 16 * 256 + u.toNat / 16 % 16 * 16 +
      u.toNat % 16 = u.toNat := by omega
  rw [readHex4, hexValue_hexDigit (d := u.toNat / 4096) (by omega),
    hexValue_hexDigit (Nat.mod_lt _ (by decide : 0 < 16)),
    hexValue_hexDigit (Nat.mod_lt _ (by decide : 0 < 16)),
    hexValue_hexDigit (Nat.mod_lt _ (by decide : 0 < 16))]
  show some (_ : ℕ).toUInt16 = some u
  rw [hsum]
  simp

theorem scanString_quote (rest : Str) : scanString (unit '"' :: rest) = some ([], rest) := by
  rw [scanString.eq_def]
  simp

theorem scanString_plain {u : UInt16} (h1 : u ≠ unit '"') (h2 : u ≠ unit '\\') (h3 : ¬ u < 32)
    (rest : Str) : scanString (u :: rest) = pushUnit (some u) (scanString rest) := by
  rw [scanString.eq_def]
  simp [h1, h2, h3]

/-- A two-character escape. -/
theorem scanString_escape {e : UInt16} (he : e ≠ unit 'u') (rest : Str) :
    scanString (unit '\\' :: e :: rest) = pushUnit (unescape e) (scanString rest) := by
  rw [scanString.eq_def]
  have hq : unit '\\' ≠ unit '"' := by decide
  simp [he, hq]

theorem scanString_hex (u : UInt16) (rest : Str) :
    scanString (unit '\\' :: unit 'u' :: (hex4 u ++ rest)) =
      pushUnit (some u) (scanString rest) := by
  rw [scanString.eq_def]
  have hq : unit '\\' ≠ unit '"' := by decide
  simp [hex4, readHex4_hex4, hq]

theorem scanString_escapeUnit (u : UInt16) (rest : Str) :
    scanString (escapeUnit u ++ rest) = pushUnit (some u) (scanString rest) := by
  unfold escapeUnit
  split_ifs with h1 h2 h3 h4 h5 h6 h7 h8
  · subst h1
    exact scanString_escape (e := unit '"') (by decide) rest
  · subst h2
    exact scanString_escape (e := unit '\\') (by decide) rest
  · subst h3
    exact scanString_escape (e := unit 'n') (by decide) rest
  · subst h4
    exact scanString_escape (e := unit 'r') (by decide) rest
  · subst h5
    exact scanString_escape (e := unit 't') (by decide) rest
  · subst h6
    exact scanString_escape (e := unit 'f') (by decide) rest
  · subst h7
    exact scanString_escape (e := unit 'b') (by decide) rest
  · exact scanString_plain h1 h2 (by simpa using h8.1) rest
  · exact scanString_hex u rest

theorem scanString_dumpsStr (s rest : Str) :
    scanString (s.flatMap escapeUnit ++ unit '"' :: rest) = some (s, rest) := by
  induction s with
  | nil => exact scanString_quote rest
  | cons u s ih =>
    rw [List.flatMap_cons, List.append_assoc, scanString_escapeUnit, ih]
    rfl

/-! ## Numbers -/

theorem isDigit_digit {d : ℕ} (h : d < 10) : isDigit (48 + d).toUInt16 = true := by
  interval_cases d <;> decide

theorem digitValue_digit {d : ℕ} (h : d < 10) : digitValue (48 + d).toUInt16 = d := by
  interval_cases d <;> decide

theorem natText_eq (n : ℕ) (h : n ≠ 0) :
    natText n = ((Nat.digits 10 n).reverse).map fun d => (48 + d).toUInt16 := by
  simp [natText, h]

theorem foldl_digits (ds : List ℕ) (h : ∀ d ∈ ds, d < 10) :
    natOfDigits ((ds.reverse).map fun d => (48 + d).toUInt16) = Nat.ofDigits 10 ds := by
  induction ds with
  | nil => rfl
  | cons d ds ih =>
    have hd := digitValue_digit (h d List.mem_cons_self)
    have ih := ih fun x hx => h x (List.mem_cons_of_mem _ hx)
    unfold natOfDigits at ih ⊢
    rw [List.reverse_cons, List.map_append, List.foldl_append, ih]
    simp only [List.map_cons, List.map_nil, List.foldl_cons, List.foldl_nil, hd,
      Nat.ofDigits_cons]
    omega

@[simp] theorem natOfDigits_natText (n : ℕ) : natOfDigits (natText n) = n := by
  by_cases h : n = 0
  · subst h
    decide
  · rw [natText_eq n h, foldl_digits _ fun d hd => Nat.digits_lt_base (by decide) hd,
      Nat.ofDigits_digits]

theorem isNatToken_natText (n : ℕ) : isNatToken (natText n) = true := by
  by_cases h : n = 0
  · subst h
    decide
  · rw [natText_eq n h]
    have hne : Nat.digits 10 n ≠ [] := Nat.digits_ne_nil_iff_ne_zero.mpr h
    have hlast : (Nat.digits 10 n).getLast hne ≠ 0 := Nat.getLast_digit_ne_zero 10 h
    have hlt : ∀ d ∈ Nat.digits 10 n, d < 10 := fun d hd => Nat.digits_lt_base (by decide) hd
    cases hr : (Nat.digits 10 n).reverse with
    | nil => exact absurd (List.reverse_eq_nil_iff.mp hr) hne
    | cons d ds =>
      have hd : d = (Nat.digits 10 n).getLast hne := by
        rw [List.getLast_eq_head_reverse]
        simp [hr]
      have hmem : ∀ x ∈ d :: ds, x < 10 := by
        intro x hx
        rw [← hr] at hx
        exact hlt x (List.mem_reverse.mp hx)
      have hd10 : d < 10 := hmem d List.mem_cons_self
      have hall : (ds.map fun d => (48 + d).toUInt16).all isDigit = true := by
        rw [List.all_eq_true]
        intro u hu
        rcases List.mem_map.mp hu with ⟨x, hx, rfl⟩
        exact isDigit_digit (hmem x (List.mem_cons_of_mem _ hx))
      have hz : (48 + d).toUInt16 ≠ unit '0' := by
        have hd0 : d ≠ 0 := hd ▸ hlast
        interval_cases d <;> first | omega | decide
      simp only [List.map_cons, isNatToken, isDigit_digit hd10, hall, Bool.true_and,
        Bool.or_eq_true, bne_iff_ne]
      exact Or.inl hz

theorem isDigit_head_natText (n : ℕ) : ∃ c ds, natText n = c :: ds ∧ isDigit c = true := by
  have h := isNatToken_natText n
  cases ht : natText n with
  | nil => simp [ht, isNatToken] at h
  | cons c ds =>
    simp only [ht, isNatToken, Bool.and_eq_true] at h
    exact ⟨c, ds, rfl, h.1.1⟩

theorem isDigit_ne {c u : UInt16} (h : isDigit c = true) (hu : isDigit u = false) : c ≠ u := by
  rintro rfl
  rw [h] at hu
  cases hu

theorem unsigned_natText (n : ℕ) : unsigned (natText n) = natText n := by
  rcases isDigit_head_natText n with ⟨c, ds, hc, hd⟩
  have hne : c ≠ unit '-' := isDigit_ne hd (by decide)
  simp [hc, unsigned, hne]

theorem readNumber_intText (n : ℤ) : readNumber (intText n) = some (.int n) := by
  unfold intText
  split_ifs with h
  · simp [readNumber, isIntToken, unsigned, isNatToken_natText, abs_of_neg h]
  · rcases isDigit_head_natText n.natAbs with ⟨c, ds, hc, hd⟩
    have hne : c ≠ unit '-' := isDigit_ne hd (by decide)
    have hhead : (natText n.natAbs).head? ≠ some (unit '-') := by simpa [hc] using hne
    have hpos : (n.natAbs : ℤ) = n := by omega
    simp [readNumber, isIntToken, unsigned_natText, isNatToken_natText, hhead, hpos]

theorem isNatToken_all {s : Str} (h : isNatToken s = true) : s.all isDigit = true := by
  cases s with
  | nil => rfl
  | cons c ds =>
    simp only [isNatToken, Bool.and_eq_true] at h
    simp [h.1.1, h.1.2]

/-- A token is not both an integer and a float: after its digits a float has something left. -/
theorem isIntToken_of_isFloatToken {s : Str} (h : isFloatToken s = true) :
    isIntToken s = false := by
  by_contra hi
  have hi : isNatToken (unsigned s) = true := by simpa [isIntToken] using hi
  have hall := List.all_eq_true.mp (isNatToken_all hi)
  have hdrop : (unsigned s).dropWhile isDigit = [] := List.dropWhile_eq_nil_iff.mpr hall
  simp [isFloatToken, hdrop, isFraction] at h

theorem readNumber_float (x : FloatText) : readNumber x.text = some (.float (.finite x)) := by
  simp [readNumber, isIntToken_of_isFloatToken x.token, x.token]

theorem isNumberUnit_of_isDigit {u : UInt16} (h : isDigit u = true) : isNumberUnit u = true := by
  simp [isNumberUnit, h]

theorem all_isNumberUnit_of_all_isDigit {s : Str} (h : s.all isDigit = true) :
    s.all isNumberUnit = true :=
  List.all_eq_true.mpr fun u hu => isNumberUnit_of_isDigit (List.all_eq_true.mp h u hu)

theorem all_isNumberUnit_unsigned {s : Str} (h : (unsigned s).all isNumberUnit = true) :
    s.all isNumberUnit = true := by
  cases s with
  | nil => rfl
  | cons c ds =>
    by_cases hc : c = unit '-'
    · subst hc
      simpa [unsigned, isNumberUnit] using h
    · simpa [unsigned, hc] using h

theorem isExponent_all {s : Str} (h : isExponent s = true) : s.all isNumberUnit = true := by
  cases s with
  | nil => rfl
  | cons c ds =>
    by_cases hc : c = unit '+' ∨ c = unit '-'
    · have hds : ds.all isDigit = true := by
        have hc' : (c == unit '+' || c == unit '-') = true := by simpa using hc
        rw [isExponent, if_pos hc', Bool.and_eq_true] at h
        exact h.2
      have hcn : isNumberUnit c = true := by rcases hc with rfl | rfl <;> decide
      simp [hcn, all_isNumberUnit_of_all_isDigit hds]
    · have hc' : ¬ (c == unit '+' || c == unit '-') = true := by simpa using hc
      rw [isExponent, if_neg hc', Bool.and_eq_true] at h
      simp [isNumberUnit_of_isDigit h.1, all_isNumberUnit_of_all_isDigit h.2]

theorem isExponentPart_all {s : Str} (h : isExponentPart s = true) :
    s.all isNumberUnit = true := by
  cases s with
  | nil => rfl
  | cons c x =>
    simp only [isExponentPart, Bool.and_eq_true, Bool.or_eq_true, beq_iff_eq] at h
    have hcn : isNumberUnit c = true := by rcases h.1 with rfl | rfl <;> decide
    simp [hcn, isExponent_all h.2]

theorem all_of_takeWhile_dropWhile {s : Str} (h₁ : (s.takeWhile isDigit).all isNumberUnit = true)
    (h₂ : (s.dropWhile isDigit).all isNumberUnit = true) : s.all isNumberUnit = true := by
  rw [← List.takeWhile_append_dropWhile (p := isDigit) (l := s), List.all_append, h₁, h₂]
  rfl

theorem takeWhile_isDigit_all (s : Str) : (s.takeWhile isDigit).all isNumberUnit = true :=
  all_isNumberUnit_of_all_isDigit (List.all_takeWhile)

theorem isFraction_all {s : Str} (h : isFraction s = true) : s.all isNumberUnit = true := by
  cases s with
  | nil => rfl
  | cons c x =>
    by_cases hc : c = unit '.'
    · subst hc
      simp only [isFraction, beq_self_eq_true, if_true, Bool.and_eq_true] at h
      have hx : x.all isNumberUnit = true :=
        all_of_takeWhile_dropWhile (takeWhile_isDigit_all x) (isExponentPart_all h.2)
      simpa [isNumberUnit] using hx
    · have hc' : ¬ (c == unit '.') = true := by simpa using hc
      rw [isFraction, if_neg hc'] at h
      exact isExponentPart_all h

theorem floatText_all (x : FloatText) : x.text.all isNumberUnit = true := by
  have h := x.token
  simp only [isFloatToken, Bool.and_eq_true] at h
  exact all_isNumberUnit_unsigned
    (all_of_takeWhile_dropWhile (takeWhile_isDigit_all _) (isFraction_all h.2))

theorem intText_all (n : ℤ) : (intText n).all isNumberUnit = true := by
  have hnat : (natText n.natAbs).all isNumberUnit = true :=
    all_isNumberUnit_of_all_isDigit (isNatToken_all (isNatToken_natText _))
  unfold intText
  split_ifs
  · simpa [isNumberUnit] using hnat
  · exact hnat

/-! ## A number followed by something else -/

/-- What follows a token does not continue it. -/
def Stops (rest : Str) : Prop := ∀ u, rest.head? = some u → isNumberUnit u = false

theorem stops_cons {u : UInt16} {rest : Str} (h : isNumberUnit u = false) : Stops (u :: rest) := by
  intro v hv
  obtain rfl : u = v := by simpa using hv
  exact h

theorem takeWhile_token {tok rest : Str} (ht : tok.all isNumberUnit = true) (hr : Stops rest) :
    (tok ++ rest).takeWhile isNumberUnit = tok := by
  rw [List.takeWhile_append_of_pos fun u hu => List.all_eq_true.mp ht u hu]
  cases rest with
  | nil => simp
  | cons u rest => simp [hr u rfl]

theorem dropWhile_token {tok rest : Str} (ht : tok.all isNumberUnit = true) (hr : Stops rest) :
    (tok ++ rest).dropWhile isNumberUnit = rest := by
  rw [List.dropWhile_append_of_pos fun u hu => List.all_eq_true.mp ht u hu]
  cases rest with
  | nil => simp
  | cons u rest => simp [hr u rfl]

/-- A number starts with a digit, or with a minus sign and a digit. -/
def NumberStart (tok : Str) : Prop :=
  ∃ c ds, tok = c :: ds ∧
    (isDigit c = true ∨ c = unit '-' ∧ ∃ d ds', ds = d :: ds' ∧ isDigit d = true)

theorem numberStart_of_unsigned {tok : Str} {c : UInt16} {ds : Str} (h : unsigned tok = c :: ds)
    (hc : isDigit c = true) : NumberStart tok := by
  cases tok with
  | nil => cases h
  | cons d t =>
    by_cases hd : d = unit '-'
    · subst hd
      have ht : t = c :: ds := by simpa [unsigned] using h
      exact ⟨_, _, rfl, Or.inr ⟨rfl, c, ds, ht, hc⟩⟩
    · have hdt : d = c ∧ t = ds := by simpa [unsigned, hd] using h
      exact ⟨_, _, rfl, Or.inl (hdt.1 ▸ hc)⟩

theorem numberStart_intText (n : ℤ) : NumberStart (intText n) := by
  rcases isDigit_head_natText n.natAbs with ⟨c, ds, hc, hd⟩
  unfold intText
  split_ifs
  · exact ⟨_, _, rfl, Or.inr ⟨rfl, c, ds, hc, hd⟩⟩
  · exact ⟨c, ds, hc, Or.inl hd⟩

theorem floatText_numberStart (x : FloatText) : NumberStart x.text := by
  have h := x.token
  simp only [isFloatToken, Bool.and_eq_true] at h
  cases hu : unsigned x.text with
  | nil => simp [hu, isNatToken] at h
  | cons c ds =>
    have hc : isDigit c = true := by
      by_contra hc
      simp [hu, hc, isNatToken] at h
    exact numberStart_of_unsigned hu hc

theorem scanValue_number {n : ℕ} {tok rest : Str} {j : Json} (hs : NumberStart tok)
    (ht : tok.all isNumberUnit = true) (hj : readNumber tok = some j) (hr : Stops rest) :
    scanValue (n + 1) (tok ++ rest) = some (j, rest) := by
  have htake := takeWhile_token ht hr
  have hdrop := dropWhile_token ht hr
  rcases hs with ⟨c, ds, rfl, hstart⟩
  have hword : ∀ u : UInt16, isDigit u = false → u ≠ unit '-' → c ≠ u := by
    intro u hu hm
    rcases hstart with hd | ⟨rfl, _⟩
    · exact isDigit_ne hd hu
    · exact hm.symm
  have hminus : ¬ (c = unit '-' ∧ (ds ++ rest).head? = some (unit 'I')) := by
    rintro ⟨hc, hh⟩
    rcases hstart with hd | ⟨_, d, ds', rfl, hd⟩
    · exact isDigit_ne hd (by decide) hc
    · have hdI : d = unit 'I' := by simpa using hh
      exact isDigit_ne hd (by decide) hdI
  rw [List.cons_append] at htake hdrop ⊢
  rw [scanValue, if_neg (hword _ (by decide) (by decide)), if_neg (hword _ (by decide) (by decide)),
    if_neg (hword _ (by decide) (by decide)), if_neg (hword _ (by decide) (by decide)),
    if_neg (hword _ (by decide) (by decide)), if_neg (hword _ (by decide) (by decide)),
    if_neg (hword _ (by decide) (by decide)), if_neg (hword _ (by decide) (by decide)),
    if_neg hminus, htake, hdrop, hj]
  rfl

/-! ## The round trip -/

theorem skipBlanks_cons {c : UInt16} (h : isBlank c = false) (t : Str) :
    skipBlanks (c :: t) = c :: t := by
  simp [skipBlanks, h]

/-- No value starts with white space, nor with the bracket that would end a list. -/
theorem dumps_head (j : Json) :
    ∃ c t, dumps j = c :: t ∧ isBlank c = false ∧ c ≠ unit ']' := by
  have hnum : ∀ {tok : Str}, NumberStart tok →
      ∃ c t, tok = c :: t ∧ isBlank c = false ∧ c ≠ unit ']' := by
    rintro tok ⟨c, ds, rfl, hc | ⟨rfl, _⟩⟩
    · refine ⟨c, ds, rfl, ?_, isDigit_ne hc (by decide)⟩
      have h1 : c ≠ 32 := isDigit_ne hc (by decide)
      have h2 : c ≠ 9 := isDigit_ne hc (by decide)
      have h3 : c ≠ 10 := isDigit_ne hc (by decide)
      have h4 : c ≠ 13 := isDigit_ne hc (by decide)
      simp [isBlank, h1, h2, h3, h4]
    · exact ⟨_, ds, rfl, by decide, by decide⟩
  cases j with
  | null => exact ⟨_, _, rfl, by decide, by decide⟩
  | bool b => cases b <;> exact ⟨_, _, rfl, by decide, by decide⟩
  | int n => exact hnum (numberStart_intText n)
  | float x =>
    cases x with
    | finite x => exact hnum (floatText_numberStart x)
    | nan => exact ⟨_, _, rfl, by decide, by decide⟩
    | inf => exact ⟨_, _, rfl, by decide, by decide⟩
    | negInf => exact ⟨_, _, rfl, by decide, by decide⟩
  | str s => exact ⟨_, _, rfl, by decide, by decide⟩
  | arr xs => exact ⟨_, _, by rw [dumps], by decide, by decide⟩
  | obj ms => exact ⟨_, _, by rw [dumps], by decide, by decide⟩

theorem dumpsElements_head (x : Json) (xs : List Json) :
    ∃ c t, dumpsElements (x :: xs) = c :: t ∧ isBlank c = false ∧ c ≠ unit ']' := by
  rcases dumps_head x with ⟨c, t, hc, hb, hne⟩
  cases xs with
  | nil => exact ⟨c, t ++ [unit ']'], by rw [dumpsElements, hc, List.cons_append], hb, hne⟩
  | cons y ys =>
    exact ⟨c, t ++ (lit ", " ++ dumpsElements (y :: ys)),
      by rw [dumpsElements, hc, List.cons_append], hb, hne⟩

theorem dumpsMembers_head (m : Str × Json) (ms : List (Str × Json)) :
    ∃ t, dumpsMembers (m :: ms) = unit '"' :: t := by
  rcases m with ⟨k, v⟩
  cases ms with
  | nil => exact ⟨_, by rw [dumpsMembers, dumpsStr, List.cons_append]⟩
  | cons m ms => exact ⟨_, by rw [dumpsMembers, dumpsStr, List.cons_append]⟩

/-- The text starts with something other than white space. -/
def StartsToken (s : Str) : Prop := ∃ c t, s = c :: t ∧ isBlank c = false

theorem StartsToken.append {s : Str} (h : StartsToken s) (t : Str) : StartsToken (s ++ t) := by
  rcases h with ⟨c, s', rfl, hc⟩
  exact ⟨c, s' ++ t, rfl, hc⟩

theorem startsToken_dumps (j : Json) : StartsToken (dumps j) := by
  rcases dumps_head j with ⟨c, t, hc, hb, _⟩
  exact ⟨c, t, hc, hb⟩

theorem startsToken_dumpsElements (x : Json) (xs : List Json) :
    StartsToken (dumpsElements (x :: xs)) := by
  rcases dumpsElements_head x xs with ⟨c, t, hc, hb, _⟩
  exact ⟨c, t, hc, hb⟩

theorem startsToken_dumpsMembers (m : Str × Json) (ms : List (Str × Json)) :
    StartsToken (dumpsMembers (m :: ms)) := by
  rcases dumpsMembers_head m ms with ⟨t, ht⟩
  exact ⟨_, t, ht, by decide⟩

/-- White space after a separator is skipped down to the next value. -/
theorem skipBlanks_space {s : Str} (h : StartsToken s) :
    skipBlanks (32 :: s) = s := by
  rcases h with ⟨c, t, rfl, hc⟩
  simp [skipBlanks, hc, show isBlank 32 = true by decide]

theorem scanSeparator_close {bracket : UInt16} (h : isBlank bracket = false) (rest : Str) :
    scanSeparator bracket (bracket :: rest) = some (.close rest) := by
  simp [scanSeparator, skipBlanks_cons h]

theorem scanSeparator_comma {bracket : UInt16} {s : Str} (h : bracket ≠ unit ',')
    (hs : StartsToken s) :
    scanSeparator bracket (lit ", " ++ s) = some (.comma s) := by
  show scanSeparator bracket (unit ',' :: 32 :: s) = _
  have hc : isBlank (unit ',') = false := by decide
  simp [scanSeparator, skipBlanks_cons hc, skipBlanks_space hs, h.symm]

theorem scanName_dumpsStr {s : Str} (k : Str) (hs : StartsToken s) :
    scanName (dumpsStr k ++ (lit ": " ++ s)) = some (k, s) := by
  have hc : isBlank (unit ':') = false := by decide
  have htext : dumpsStr k ++ (lit ": " ++ s) =
      unit '"' :: (k.flatMap escapeUnit ++ unit '"' :: (unit ':' :: 32 :: s)) := by
    simp [dumpsStr, show lit ": " = [unit ':', 32] by decide]
  rw [htext, scanName, if_pos rfl, scanString_dumpsStr]
  simp [skipBlanks_cons hc, skipBlanks_space hs]

mutual

/-- The recursion depth `scanValue` needs on what `dumps` wrote. -/
def depth : Json → ℕ
  | .arr xs => depthElements xs + 1
  | .obj ms => depthMembers ms + 1
  | _ => 1

def depthElements : List Json → ℕ
  | [] => 0
  | x :: xs => depth x + depthElements xs + 1

def depthMembers : List (Str × Json) → ℕ
  | [] => 0
  | (_, x) :: ms => depth x + depthMembers ms + 1

end

mutual

theorem scanValue_dumps : ∀ (j : Json) (n : ℕ) (rest : Str), depth j ≤ n → Stops rest →
    scanValue n (dumps j ++ rest) = some (j, rest)
  | .null, n, rest, hn, _ => by
    obtain ⟨n, rfl⟩ : ∃ m, n = m + 1 := ⟨n - 1, by simp [depth] at hn; omega⟩
    rfl
  | .bool true, n, rest, hn, _ => by
    obtain ⟨n, rfl⟩ : ∃ m, n = m + 1 := ⟨n - 1, by simp [depth] at hn; omega⟩
    rfl
  | .bool false, n, rest, hn, _ => by
    obtain ⟨n, rfl⟩ : ∃ m, n = m + 1 := ⟨n - 1, by simp [depth] at hn; omega⟩
    rfl
  | .int k, n, rest, hn, hr => by
    obtain ⟨n, rfl⟩ : ∃ m, n = m + 1 := ⟨n - 1, by simp [depth] at hn; omega⟩
    exact scanValue_number (numberStart_intText k) (intText_all k) (readNumber_intText k) hr
  | .float x, n, rest, hn, hr => by
    obtain ⟨n, rfl⟩ : ∃ m, n = m + 1 := ⟨n - 1, by simp [depth] at hn; omega⟩
    cases x with
    | finite x =>
      exact scanValue_number (floatText_numberStart x) (floatText_all x) (readNumber_float x) hr
    | nan => rfl
    | inf => rfl
    | negInf => rfl
  | .str s, n, rest, hn, _ => by
    obtain ⟨n, rfl⟩ : ∃ m, n = m + 1 := ⟨n - 1, by simp [depth] at hn; omega⟩
    simp [dumps, dumpsStr, scanValue, scanString_dumpsStr]
  | .arr xs, n, rest, hn, _ => by
    obtain ⟨n, rfl⟩ : ∃ m, n = m + 1 := ⟨n - 1, by simp [depth] at hn; omega⟩
    have hn : depthElements xs ≤ n := by simpa [depth] using hn
    rw [dumps, List.cons_append, scanValue, if_neg (by decide), if_pos rfl]
    cases xs with
    | nil => rfl
    | cons x xs =>
      rcases dumpsElements_head x xs with ⟨c, t, hc, hb, hne⟩
      have hrec := scanElements_dumps x xs n rest hn
      rw [hc, List.cons_append] at hrec ⊢
      simp [skipBlanks_cons hb, hne, hrec]
  | .obj ms, n, rest, hn, _ => by
    obtain ⟨n, rfl⟩ : ∃ m, n = m + 1 := ⟨n - 1, by simp [depth] at hn; omega⟩
    have hn : depthMembers ms ≤ n := by simpa [depth] using hn
    rw [dumps, List.cons_append, scanValue, if_neg (by decide), if_neg (by decide), if_pos rfl]
    cases ms with
    | nil => rfl
    | cons m ms =>
      rcases dumpsMembers_head m ms with ⟨t, hc⟩
      have hrec := scanMembers_dumps m ms n rest hn
      rw [hc, List.cons_append] at hrec ⊢
      have hq : unit '"' ≠ unit '}' := by decide
      simp [skipBlanks_cons (show isBlank (unit '"') = false by decide), hrec, hq]

theorem scanElements_dumps : ∀ (x : Json) (xs : List Json) (n : ℕ) (rest : Str),
    depthElements (x :: xs) ≤ n →
    scanElements n (dumpsElements (x :: xs) ++ rest) = some (x :: xs, rest)
  | x, [], n, rest, hn => by
    obtain ⟨n, rfl⟩ : ∃ m, n = m + 1 := ⟨n - 1, by simp [depthElements] at hn; omega⟩
    have hn : depth x ≤ n := by simp [depthElements] at hn; omega
    have hx := scanValue_dumps x n (unit ']' :: rest) hn (stops_cons (by decide))
    rw [dumpsElements, List.append_assoc, List.singleton_append, scanElements, hx]
    simp [scanSeparator_close (show isBlank (unit ']') = false by decide)]
  | x, y :: ys, n, rest, hn => by
    obtain ⟨n, rfl⟩ : ∃ m, n = m + 1 := ⟨n - 1, by simp [depthElements] at hn; omega⟩
    have hn : depth x + depthElements (y :: ys) ≤ n := by
      rw [depthElements] at hn
      omega
    have hx := scanValue_dumps x n (lit ", " ++ (dumpsElements (y :: ys) ++ rest)) (by omega)
      (stops_cons (by decide))
    have hrec := scanElements_dumps y ys n rest (by omega)
    have hsep := scanSeparator_comma (show unit ']' ≠ unit ',' by decide)
      ((startsToken_dumpsElements y ys).append rest)
    rw [dumpsElements, List.append_assoc, List.append_assoc, scanElements, hx]
    simp [hsep, hrec]

theorem scanMembers_dumps : ∀ (m : Str × Json) (ms : List (Str × Json)) (n : ℕ) (rest : Str),
    depthMembers (m :: ms) ≤ n →
    scanMembers n (dumpsMembers (m :: ms) ++ rest) = some (m :: ms, rest)
  | (k, v), [], n, rest, hn => by
    obtain ⟨n, rfl⟩ : ∃ m, n = m + 1 := ⟨n - 1, by simp [depthMembers] at hn; omega⟩
    have hn : depth v ≤ n := by simp [depthMembers] at hn; omega
    have hv := scanValue_dumps v n (unit '}' :: rest) hn (stops_cons (by decide))
    have hname := scanName_dumpsStr k ((startsToken_dumps v).append (unit '}' :: rest))
    have htext : dumpsMembers [(k, v)] ++ rest =
        dumpsStr k ++ (lit ": " ++ (dumps v ++ unit '}' :: rest)) := by
      simp [dumpsMembers]
    rw [htext, scanMembers, hname]
    simp [hv, scanSeparator_close (show isBlank (unit '}') = false by decide)]
  | (k, v), m :: ms, n, rest, hn => by
    obtain ⟨n, rfl⟩ : ∃ m, n = m + 1 := ⟨n - 1, by simp [depthMembers] at hn; omega⟩
    have hn : depth v + depthMembers (m :: ms) ≤ n := by
      rw [depthMembers] at hn
      omega
    have hv := scanValue_dumps v n (lit ", " ++ (dumpsMembers (m :: ms) ++ rest)) (by omega)
      (stops_cons (by decide))
    have hrec := scanMembers_dumps m ms n rest (by omega)
    have hname := scanName_dumpsStr k
      ((startsToken_dumps v).append (lit ", " ++ (dumpsMembers (m :: ms) ++ rest)))
    have hsep := scanSeparator_comma (show unit '}' ≠ unit ',' by decide)
      ((startsToken_dumpsMembers m ms).append rest)
    have htext : dumpsMembers ((k, v) :: m :: ms) ++ rest =
        dumpsStr k ++ (lit ": " ++ (dumps v ++ (lit ", " ++ (dumpsMembers (m :: ms) ++ rest)))) := by
      simp [dumpsMembers]
    rw [htext, scanMembers, hname]
    simp [hv, hsep, hrec]

end

mutual

theorem depth_le_length : ∀ j : Json, depth j ≤ (dumps j).length
  | .null => by decide
  | .bool true => by decide
  | .bool false => by decide
  | .int n => by
    rcases dumps_head (.int n) with ⟨c, t, hc, _⟩
    simp [hc, depth]
  | .float x => by
    rcases dumps_head (.float x) with ⟨c, t, hc, _⟩
    simp [hc, depth]
  | .str s => by simp [depth, dumps, dumpsStr]
  | .arr xs => by
    have h := depthElements_le_length xs
    simpa [depth, dumps] using h
  | .obj ms => by
    have h := depthMembers_le_length ms
    simpa [depth, dumps] using h

theorem depthElements_le_length : ∀ xs : List Json, depthElements xs ≤ (dumpsElements xs).length
  | [] => by decide
  | [x] => by
    have h := depth_le_length x
    simp [depthElements, dumpsElements]
    omega
  | x :: y :: ys => by
    have h := depth_le_length x
    have h' := depthElements_le_length (y :: ys)
    rw [depthElements, dumpsElements]
    simp only [List.length_append, show (lit ", ").length = 2 by decide]
    omega

theorem depthMembers_le_length :
    ∀ ms : List (Str × Json), depthMembers ms ≤ (dumpsMembers ms).length
  | [] => by decide
  | [(k, v)] => by
    have h := depth_le_length v
    simp [depthMembers, dumpsMembers]
    omega
  | (k, v) :: m :: ms => by
    have h := depth_le_length v
    have h' := depthMembers_le_length (m :: ms)
    rw [depthMembers, dumpsMembers]
    simp only [List.length_append, show (lit ", ").length = 2 by decide]
    omega

end

/-- `json.loads(json.dumps(j))` is `j`. -/
@[simp] theorem loads_dumps (j : Json) : loads (dumps j) = some j := by
  rcases dumps_head j with ⟨c, t, hc, hb, _⟩
  have hskip : skipBlanks (dumps j) = dumps j := by
    rw [hc]
    exact skipBlanks_cons hb t
  have hdepth : depth j ≤ (dumps j).length + 1 := Nat.le_succ_of_le (depth_le_length j)
  have hstop : Stops [] := by
    intro u hu
    cases hu
  have hscan := scanValue_dumps j _ [] hdepth hstop
  rw [List.append_nil] at hscan
  rw [loads, hskip, hscan]
  rfl

/-! ## The text is printable ASCII

`ensure_ascii` is the default of `json.dumps`: no control character, and nothing beyond `~`, is
left in the text, whatever the strings of the value hold. -/

def isPrintable (u : UInt16) : Bool := 32 ≤ u && u ≤ 126

theorem isPrintable_of_isNumberUnit {u : UInt16} (h : isNumberUnit u = true) :
    isPrintable u = true := by
  simp only [isNumberUnit, Bool.or_eq_true, beq_iff_eq] at h
  rcases h with ((((h | rfl) | rfl) | rfl) | rfl) | rfl
  · simp only [isDigit, Bool.and_eq_true, decide_eq_true_eq] at h
    simp only [isPrintable, Bool.and_eq_true, decide_eq_true_eq]
    have hlow : (32 : UInt16) ≤ 48 := by decide
    have hhigh : (57 : UInt16) ≤ 126 := by decide
    exact ⟨UInt16.le_trans hlow h.1, UInt16.le_trans h.2 hhigh⟩
  all_goals decide

theorem all_isPrintable_of_token {s : Str} (h : s.all isNumberUnit = true) :
    s.all isPrintable = true :=
  List.all_eq_true.mpr fun u hu => isPrintable_of_isNumberUnit (List.all_eq_true.mp h u hu)

theorem isPrintable_hexDigit {d : ℕ} (h : d < 16) : isPrintable (hexDigit d) = true := by
  interval_cases d <;> decide

theorem all_isPrintable_hex4 (u : UInt16) : (hex4 u).all isPrintable = true := by
  have hu : u.toNat < 65536 := u.toNat_lt
  simp [hex4, isPrintable_hexDigit (d := u.toNat / 4096) (by omega),
    isPrintable_hexDigit (Nat.mod_lt _ (by decide : 0 < 16))]

theorem all_isPrintable_escapeUnit (u : UInt16) : (escapeUnit u).all isPrintable = true := by
  unfold escapeUnit
  split_ifs with h1 h2 h3 h4 h5 h6 h7 h8
  · decide
  · decide
  · decide
  · decide
  · decide
  · decide
  · decide
  · simpa [isPrintable] using h8
  · rw [List.all_append, all_isPrintable_hex4]
    decide

theorem all_isPrintable_dumpsStr (s : Str) : (dumpsStr s).all isPrintable = true := by
  have hquote : isPrintable (unit '"') = true := by decide
  have hbody : (s.flatMap escapeUnit).all isPrintable = true := by
    rw [List.all_flatMap]
    exact List.all_eq_true.mpr fun u _ => all_isPrintable_escapeUnit u
  simp [dumpsStr, hquote, hbody]

mutual

theorem all_isPrintable_dumps : ∀ j : Json, (dumps j).all isPrintable = true
  | .null => by decide
  | .bool true => by decide
  | .bool false => by decide
  | .int n => all_isPrintable_of_token (intText_all n)
  | .float (.finite x) => all_isPrintable_of_token (floatText_all x)
  | .float .nan => by decide
  | .float .inf => by decide
  | .float .negInf => by decide
  | .str s => all_isPrintable_dumpsStr s
  | .arr xs => by
    have h := all_isPrintable_dumpsElements xs
    rw [dumps, List.all_cons, h]
    decide
  | .obj ms => by
    have h := all_isPrintable_dumpsMembers ms
    rw [dumps, List.all_cons, h]
    decide

theorem all_isPrintable_dumpsElements :
    ∀ xs : List Json, (dumpsElements xs).all isPrintable = true
  | [] => by decide
  | [x] => by
    have h := all_isPrintable_dumps x
    rw [dumpsElements, List.all_append, h]
    decide
  | x :: y :: ys => by
    have h := all_isPrintable_dumps x
    have h' := all_isPrintable_dumpsElements (y :: ys)
    rw [dumpsElements, List.all_append, List.all_append, h, h']
    decide

theorem all_isPrintable_dumpsMembers :
    ∀ ms : List (Str × Json), (dumpsMembers ms).all isPrintable = true
  | [] => by decide
  | [(k, v)] => by
    have hk := all_isPrintable_dumpsStr k
    have h := all_isPrintable_dumps v
    simp only [dumpsMembers, List.all_append, hk, h]
    decide
  | (k, v) :: m :: ms => by
    have hk := all_isPrintable_dumpsStr k
    have h := all_isPrintable_dumps v
    have h' := all_isPrintable_dumpsMembers (m :: ms)
    simp only [dumpsMembers, List.all_append, hk, h, h']
    decide

end

end Json
