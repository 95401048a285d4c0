import Doppelganger.Lib.Html

/-!
# String literals of JavaScript

`read` reads a literal in double quotes, of a script that is not strict, from behind its opening
quote; it is `none` where the script is not well-formed.

Text without a quote can be put into a literal. `read_append`: the literal still ends with the quote
it ended with before, or with an escape that takes that quote in, or the script is not well-formed.
-/

open Text Html

namespace JsString

def quote : UInt16 := unit '"'

def backslash : UInt16 := unit '\\'

def isOctalDigit (u : UInt16) : Bool := 0x30 ≤ u && u ≤ 0x37

def hexValue (ds : Str) : ℕ := ds.foldl (fun acc d => acc * 16 + hexDigitValue d) 0

def octalValue (ds : Str) : ℕ := ds.foldl (fun acc d => acc * 8 + digitValue d) 0

/-- `n` hexadecimal digits, after `k` units that are read already. -/
def hexEscape (k n : ℕ) (s : Str) : Option (Str × ℕ) :=
  if (s.take n).length = n ∧ (s.take n).all isHexDigit then
    some ([(hexValue (s.take n)).toUInt16], k + n)
  else none

/-- The digits between braces, after `u{`. -/
def bracedEscape (s : Str) : Option (Str × ℕ) :=
  let ds := s.takeWhile isHexDigit
  if ds = [] ∨ (s.drop ds.length).head? ≠ some (unit '}') ∨ 0x10FFFF < hexValue ds then none
  -- a surrogate is a unit of its own
  else if hexValue ds < 0x10000 then some ([(hexValue ds).toUInt16], ds.length + 3)
  else some (unitsOfChar (Char.ofNat (hexValue ds)), ds.length + 3)

/-- One to three octal digits, for a unit below 256. -/
def octalEscape (c : UInt16) (s : Str) : Str × ℕ :=
  let ds := c :: (s.take (if c ≤ 0x33 then 2 else 1)).takeWhile isOctalDigit
  ([(octalValue ds).toUInt16], ds.length)

def unicodeEscape (s : Str) : Option (Str × ℕ) :=
  if s.head? = some (unit '{') then bracedEscape s.tail else hexEscape 1 4 s

def isLineTerminator (u : UInt16) : Bool := u == 10 || u == 13 || u == 0x2028 || u == 0x2029

/-- The letters that stand for control characters. -/
def singleEscapes : List (UInt16 × UInt16) :=
  [(unit 'b', 8), (unit 't', 9), (unit 'n', 10), (unit 'v', 11), (unit 'f', 12), (unit 'r', 13)]

/-- An escape after its backslash: what it stands for, and how long it is. -/
def escape : Str → Option (Str × ℕ)
  | [] => none
  | c :: s =>
    if isLineTerminator c then some ([], if c = 13 ∧ s.head? = some 10 then 2 else 1)
    else if c = unit 'x' then hexEscape 1 2 s
    else if c = unit 'u' then unicodeEscape s
    else if isOctalDigit c then some (octalEscape c s)
    else some ([(singleEscapes.lookup c).getD c], 1)

/-- Read on; the first argument counts the units that belong to an escape. -/
def readFrom : ℕ → Str → Option (Str × Str)
  | _, [] => none
  | k + 1, _ :: s => readFrom k s
  | 0, c :: s =>
    if c = quote then some ([], s)
    else if c = 10 ∨ c = 13 then none
    else if c = backslash then
      match escape s with
      | some (text, k) => (readFrom k s).map fun r => (text ++ r.1, r.2)
      | none => none
    else (readFrom 0 s).map fun r => (c :: r.1, r.2)

/-- The value of the literal, and what follows it. -/
def read (s : Str) : Option (Str × Str) := readFrom 0 s

/-! ## Text in a literal -/

variable {s t : Str} {q : UInt16} {p : UInt16 → Bool} {k n : ℕ} {text : Str}

/-- Units of one kind that stand at the start do not go beyond one of another kind. -/
theorem length_le_of_all (hq : p q = false) (hall : ((s ++ q :: t).take n).all p = true) :
    n ≤ s.length := by
  by_contra hlt
  push Not at hlt
  have hmem : q ∈ (s ++ q :: t).take n := by
    rw [List.take_append, List.take_of_length_le hlt.le]
    obtain ⟨m, hm⟩ : ∃ m, n - s.length = m + 1 := ⟨n - s.length - 1, by omega⟩
    simp [hm]
  rw [List.all_eq_true] at hall
  rw [hall q hmem] at hq
  cases hq

theorem takeWhile_append_length (hq : p q = false) :
    ((s ++ q :: t).takeWhile p).length ≤ s.length := by
  induction s with
  | nil => simp [hq]
  | cons c s ih =>
    simp only [List.cons_append, List.takeWhile_cons]
    split
    · simpa using ih
    · simp

theorem isHexDigit_quote : isHexDigit quote = false := by decide

theorem isOctalDigit_quote : isOctalDigit quote = false := by decide

theorem hexEscape_append (h : hexEscape 1 n (s ++ quote :: t) = some (text, k)) :
    k ≤ s.length + 1 := by
  unfold hexEscape at h
  split_ifs at h with hall
  obtain rfl := (Prod.mk.inj (Option.some.inj h)).2
  have hle := length_le_of_all isHexDigit_quote hall.2
  omega

/-- The closing brace comes before the quote. -/
theorem bracedEscape_append (h : bracedEscape (s ++ quote :: t) = some (text, k)) :
    k ≤ s.length + 2 := by
  have hdigits := takeWhile_append_length (s := s) (t := t) isHexDigit_quote
  simp only [bracedEscape] at h
  split_ifs at h with hbad hsmall
  all_goals
    obtain rfl := (Prod.mk.inj (Option.some.inj h)).2
    have hbrace : ((s ++ quote :: t).drop
        ((s ++ quote :: t).takeWhile isHexDigit).length).head? = some (unit '}') := by
      by_contra hne
      exact hbad (Or.inr (Or.inl hne))
    rcases hdigits.lt_or_eq with hlt | heq
    · omega
    · -- the quote is no brace
      rw [heq] at hbrace
      simp [quote, unit] at hbrace

theorem unicodeEscape_append (h : unicodeEscape (s ++ quote :: t) = some (text, k)) :
    k ≤ s.length + 1 := by
  unfold unicodeEscape at h
  split_ifs at h with hbrace
  · cases s with
    | nil => simp [quote, unit] at hbrace
    | cons c s =>
      have hle := bracedEscape_append h
      simpa using hle
  · exact hexEscape_append h

theorem octalEscape_append (c : UInt16) : (octalEscape c (s ++ quote :: t)).2 ≤ s.length + 1 := by
  have hdigits : ∀ n, (((s ++ quote :: t).take n).takeWhile isOctalDigit).length ≤ s.length := by
    intro n
    rw [List.take_append]
    rcases Nat.lt_or_ge s.length n with hlt | hge
    · obtain ⟨m, hm⟩ : ∃ m, n - s.length = m + 1 := ⟨n - s.length - 1, by omega⟩
      rw [List.take_of_length_le hlt.le, hm, List.take_succ_cons]
      exact takeWhile_append_length isOctalDigit_quote
    · rw [Nat.sub_eq_zero_of_le hge, List.take_zero, List.append_nil]
      exact (List.takeWhile_prefix _).length_le.trans (List.length_take_le' n s)
  simpa [octalEscape] using hdigits _

/-- An escape in text without a quote stays in it, unless it is the quote that is escaped. -/
theorem escape_append (h : escape (s ++ quote :: t) = some (text, k)) :
    k ≤ s.length ∨ s = [] ∧ k = 1 := by
  cases s with
  | nil =>
    have hquote : escape ([] ++ quote :: t) = some ([quote], 1) := rfl
    rcases Prod.mk.inj (Option.some.inj (hquote.symm.trans h)) with ⟨_, rfl⟩
    exact Or.inr ⟨rfl, rfl⟩
  | cons c s =>
    left
    rw [List.length_cons]
    rw [List.cons_append, escape] at h
    split_ifs at h with hline hlf hx hu hoctal
    · obtain rfl := (Prod.mk.inj (Option.some.inj h)).2
      cases s with
      | nil => simp [quote, unit] at hlf
      | cons d s => simp
    · obtain rfl := (Prod.mk.inj (Option.some.inj h)).2
      omega
    · exact hexEscape_append h
    · exact unicodeEscape_append h
    · have hle := octalEscape_append (s := s) (t := t) c
      rw [Option.some.inj h] at hle
      exact hle
    · obtain rfl := (Prod.mk.inj (Option.some.inj h)).2
      omega

/-- What is read from behind an escape. -/
theorem readFrom_append (hk : k ≤ s.length) :
    readFrom k (s ++ quote :: t) = readFrom 0 (s.drop k ++ quote :: t) := by
  induction s generalizing k with
  | nil =>
    obtain rfl : k = 0 := by simpa using hk
    rfl
  | cons c s ih =>
    cases k with
    | zero => rfl
    | succ k =>
      rw [List.cons_append, readFrom, List.drop_succ_cons]
      exact ih (by simpa using hk)

/-- Text without a quote, put into a literal before its end: if the script can be read at all, the
literal ends where it did, or its end is escaped and it goes on in what comes after. -/
theorem read_append (hs : quote ∉ s) {v rest : Str} (h : read (s ++ quote :: t) = some (v, rest)) :
    rest = t ∨ ∃ v', read t = some (v', rest) := by
  induction hn : s.length using Nat.strongRecOn generalizing s v with
  | ind n ih =>
    cases s with
    | nil =>
      rcases Prod.mk.inj (Option.some.inj h) with ⟨_, rfl⟩
      exact Or.inl rfl
    | cons c s =>
      have hc : c ≠ quote := fun hc => hs (hc ▸ List.mem_cons_self)
      have hs' : quote ∉ s := fun hmem => hs (List.mem_cons_of_mem _ hmem)
      rw [List.length_cons] at hn
      rw [List.cons_append, read, readFrom, if_neg hc] at h
      split_ifs at h with hline hescape
      · cases hesc : escape (s ++ quote :: t) with
        | none => simp [hesc] at h
        | some r =>
          rcases r with ⟨text, k⟩
          simp only [hesc] at h
          rcases Option.map_eq_some_iff.mp h with ⟨⟨v', rest'⟩, hrest, heq⟩
          obtain rfl := (Prod.mk.inj heq).2
          rcases escape_append hesc with hk | ⟨rfl, rfl⟩
          · rw [readFrom_append hk] at hrest
            exact ih (s.drop k).length (by simp; omega)
                (fun hmem => hs' (List.mem_of_mem_drop hmem)) hrest rfl
          · exact Or.inr ⟨v', hrest⟩
      · rcases Option.map_eq_some_iff.mp h with ⟨⟨v', rest'⟩, hrest, heq⟩
        obtain rfl := (Prod.mk.inj heq).2
        exact ih s.length (by omega) hs' hrest rfl

/-- Text without quotes, backslashes and ends of lines is read as it is. -/
theorem read_plain (h : ∀ u ∈ s, u ≠ quote ∧ u ≠ backslash ∧ u ≠ 10 ∧ u ≠ 13) :
    read (s ++ quote :: t) = some (s, t) := by
  induction s with
  | nil => rfl
  | cons c s ih =>
    rcases h c List.mem_cons_self with ⟨hquote, hbackslash, hlf, hcr⟩
    have hrest : readFrom 0 (s ++ quote :: t) = some (s, t) :=
      ih fun u hu => h u (List.mem_cons_of_mem _ hu)
    simp [read, readFrom, hquote, hbackslash, hlf, hcr, hrest]

end JsString
