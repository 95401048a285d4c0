import Doppelganger.Lib.Text

/-!
# UTF-8 in the browser

`TextEncoder` reads a text as scalar values, a lone surrogate as U+FFFD, and writes each of them as
one to four bytes. `TextDecoder`, with its default options, reads bytes one at a time, answers
U+FFFD for what is not UTF-8, and drops a byte order mark at the very beginning.

The decoder undoes the encoder on scalar values (`decodeFrom_encode`), and so on every well-formed
text, up to the mark (`decode_encode`, `decode_encode_mark`).
-/

open Text

namespace Utf8

/-- U+FFFD. -/
def replacement : Char := '\uFFFD'

/-- U+FEFF. -/
def byteOrderMark : Char := '\uFEFF'

/-! ## Encoder -/

/-- The scalar value of a surrogate pair. -/
def scalarOfPair (high low : UInt16) : Char :=
  Char.ofNat (0x10000 + (high.toNat - 0xD800) * 0x400 + (low.toNat - 0xDC00))

/-- The scalar value of a unit that is not half of a pair. -/
def scalarOfUnit (u : UInt16) : Char :=
  if isHighSurrogate u || isLowSurrogate u then replacement else Char.ofNat u.toNat

def scalars : Str → List Char
  | [] => []
  | [a] => [scalarOfUnit a]
  | a :: b :: rest =>
    if isHighSurrogate a && isLowSurrogate b then scalarOfPair a b :: scalars rest
    else scalarOfUnit a :: scalars (b :: rest)

/-- `new TextEncoder().encode(s)`. -/
def encode (s : Str) : List UInt8 := (scalars s).flatMap String.utf8EncodeChar

/-! ## Decoder -/

structure Decoder where
  codePoint : ℕ
  bytesSeen : ℕ
  bytesNeeded : ℕ
  /-- The bounds of the next byte. -/
  lower : ℕ
  upper : ℕ

def Decoder.start : Decoder := ⟨0, 0, 0, 0x80, 0xBF⟩

/-- A byte between two characters. -/
def Decoder.lead (b : ℕ) : Decoder × List Char :=
  if b ≤ 0x7F then (start, [Char.ofNat b])
  else if 0xC2 ≤ b ∧ b ≤ 0xDF then (⟨b % 0x20, 0, 1, 0x80, 0xBF⟩, [])
  else if 0xE0 ≤ b ∧ b ≤ 0xEF then
    -- E0 would start a shorter character, ED a surrogate
    (⟨b % 0x10, 0, 2, if b = 0xE0 then 0xA0 else 0x80, if b = 0xED then 0x9F else 0xBF⟩, [])
  else if 0xF0 ≤ b ∧ b ≤ 0xF4 then
    -- F0 would start a shorter character, F4 one beyond U+10FFFF
    (⟨b % 0x08, 0, 3, if b = 0xF0 then 0x90 else 0x80, if b = 0xF4 then 0x8F else 0xBF⟩, [])
  else (start, [replacement])

def Decoder.step (d : Decoder) (byte : UInt8) : Decoder × List Char :=
  let b := byte.toNat
  if d.bytesNeeded = 0 then lead b
  else if d.lower ≤ b ∧ b ≤ d.upper then
    let codePoint := d.codePoint * 64 + b % 64
    if d.bytesSeen + 1 = d.bytesNeeded then (start, [Char.ofNat codePoint])
    else (⟨codePoint, d.bytesSeen + 1, d.bytesNeeded, 0x80, 0xBF⟩, [])
  else
    -- the character is broken off, and the byte is read again
    ((lead b).1, replacement :: (lead b).2)

def decodeFrom : Decoder → List UInt8 → List Char
  | d, [] => if d.bytesNeeded = 0 then [] else [replacement]
  | d, b :: bs => (d.step b).2 ++ decodeFrom (d.step b).1 bs

/-- `new TextDecoder().decode(bytes)`. -/
def decode (bytes : List UInt8) : Str :=
  let cs := decodeFrom .start bytes
  (if cs.head? = some byteOrderMark then cs.tail else cs).flatMap unitsOfChar

/-! ## The decoder undoes the encoder -/

theorem step_lead (byte : UInt8) : Decoder.start.step byte = Decoder.lead byte.toNat := rfl

theorem toNat_byte {b : ℕ} (h : b < 256) : (UInt8.ofNat b).toNat = b :=
  UInt8.toNat_ofNat_of_lt' h

/-- A byte within a character. -/
theorem step_more {cp seen needed lower upper b : ℕ} (hneed : seen + 1 < needed)
    (hlow : lower ≤ b) (hup : b ≤ upper) (hb : b < 256) :
    Decoder.step ⟨cp, seen, needed, lower, upper⟩ (UInt8.ofNat b) =
      (⟨cp * 64 + b % 64, seen + 1, needed, 0x80, 0xBF⟩, []) := by
  have h₀ : needed ≠ 0 := by omega
  have h₁ : seen + 1 ≠ needed := by omega
  simp only [Decoder.step, toNat_byte hb, h₀, hlow, hup, and_self, h₁, if_true, if_false]

/-- The last byte of a character. -/
theorem step_last {cp seen b : ℕ} (hlow : 0x80 ≤ b) (hup : b ≤ 0xBF) :
    Decoder.step ⟨cp, seen, seen + 1, 0x80, 0xBF⟩ (UInt8.ofNat b) =
      (Decoder.start, [Char.ofNat (cp * 64 + b % 64)]) := by
  have hb : b < 256 := by omega
  simp only [Decoder.step, toNat_byte hb, Nat.succ_ne_zero, hlow, hup, and_self, if_true, if_false]

theorem lead_one {n : ℕ} (h : n ≤ 0x7F) :
    Decoder.lead n = (Decoder.start, [Char.ofNat n]) := by
  simp [Decoder.lead, h]

theorem lead_two {b : ℕ} (hlow : 0xC2 ≤ b) (hup : b ≤ 0xDF) :
    Decoder.lead b = (⟨b % 0x20, 0, 1, 0x80, 0xBF⟩, []) := by
  have h₁ : ¬ b ≤ 0x7F := by omega
  simp only [Decoder.lead, h₁, hlow, hup, and_self, if_true, if_false]

theorem lead_three {b : ℕ} (hlow : 0xE0 ≤ b) (hup : b ≤ 0xEF) :
    Decoder.lead b = (⟨b % 0x10, 0, 2, if b = 0xE0 then 0xA0 else 0x80,
      if b = 0xED then 0x9F else 0xBF⟩, []) := by
  have h₁ : ¬ b ≤ 0x7F := by omega
  have h₂ : ¬ (0xC2 ≤ b ∧ b ≤ 0xDF) := by omega
  simp only [Decoder.lead, h₁, h₂, hlow, hup, and_self, if_true, if_false]

theorem lead_four {b : ℕ} (hlow : 0xF0 ≤ b) (hup : b ≤ 0xF4) :
    Decoder.lead b = (⟨b % 0x08, 0, 3, if b = 0xF0 then 0x90 else 0x80,
      if b = 0xF4 then 0x8F else 0xBF⟩, []) := by
  have h₁ : ¬ b ≤ 0x7F := by omega
  have h₂ : ¬ (0xC2 ≤ b ∧ b ≤ 0xDF) := by omega
  have h₃ : ¬ (0xE0 ≤ b ∧ b ≤ 0xEF) := by omega
  simp only [Decoder.lead, h₁, h₂, h₃, hlow, hup, and_self, if_true, if_false]

/-- One character: the cases are the lengths of its encoding. -/
theorem decodeFrom_encodeChar (c : Char) (bs : List UInt8) :
    decodeFrom .start (String.utf8EncodeChar c ++ bs) = c :: decodeFrom .start bs := by
  obtain ⟨n, hn⟩ : ∃ n, c.toNat = n := ⟨_, rfl⟩
  have hc : Char.ofNat n = c := by rw [← hn, Char.ofNat_toNat]
  have hvalid : n < 0xD800 ∨ (0xDFFF < n ∧ n < 0x110000) := hn ▸ c.valid
  have hval : c.val.toNat = n := hn
  unfold String.utf8EncodeChar
  simp only [hval]
  split_ifs with h₁ h₂ h₃
  · have hbyte : n < 256 := by omega
    simp [decodeFrom, step_lead, toNat_byte hbyte, lead_one h₁, hc]
  · have hbyte : n / 64 % 32 + 0xC0 < 256 := by omega
    have hcp : (n / 64 % 32 + 0xC0) % 32 * 64 + (n % 64 + 0x80) % 64 = n := by omega
    simp only [List.cons_append, List.nil_append, decodeFrom, step_lead, toNat_byte hbyte,
      lead_two (b := n / 64 % 32 + 0xC0) (by omega) (by omega),
      step_last (b := n % 64 + 0x80) (by omega) (by omega), hcp, hc]
  · have hbyte : n / 4096 % 16 + 0xE0 < 256 := by omega
    have hcp : ((n / 4096 % 16 + 0xE0) % 16 * 64 + (n / 64 % 64 + 0x80) % 64) * 64 +
        (n % 64 + 0x80) % 64 = n := by omega
    have hlow : (if n / 4096 % 16 + 0xE0 = 0xE0 then 0xA0 else 0x80) ≤ n / 64 % 64 + 0x80 := by
      split_ifs <;> omega
    have hup : n / 64 % 64 + 0x80 ≤ if n / 4096 % 16 + 0xE0 = 0xED then 0x9F else 0xBF := by
      split_ifs <;> omega
    simp only [List.cons_append, List.nil_append, decodeFrom, step_lead, toNat_byte hbyte,
      lead_three (b := n / 4096 % 16 + 0xE0) (by omega) (by omega),
      step_more (b := n / 64 % 64 + 0x80) (by omega : 0 + 1 < 2) hlow hup (by omega),
      step_last (b := n % 64 + 0x80) (by omega) (by omega), hcp, hc]
  · have hbyte : n / 262144 % 8 + 0xF0 < 256 := by omega
    have hcp : (((n / 262144 % 8 + 0xF0) % 8 * 64 + (n / 4096 % 64 + 0x80) % 64) * 64 +
        (n / 64 % 64 + 0x80) % 64) * 64 + (n % 64 + 0x80) % 64 = n := by omega
    have hlow : (if n / 262144 % 8 + 0xF0 = 0xF0 then 0x90 else 0x80) ≤ n / 4096 % 64 + 0x80 := by
      split_ifs <;> omega
    have hup : n / 4096 % 64 + 0x80 ≤ if n / 262144 % 8 + 0xF0 = 0xF4 then 0x8F else 0xBF := by
      split_ifs <;> omega
    simp only [List.cons_append, List.nil_append, decodeFrom, step_lead, toNat_byte hbyte,
      lead_four (b := n / 262144 % 8 + 0xF0) (by omega) (by omega),
      step_more (b := n / 4096 % 64 + 0x80) (by omega : 0 + 1 < 3) hlow hup (by omega),
      step_more (b := n / 64 % 64 + 0x80) (by omega : 0 + 1 + 1 < 3)
        (by omega : 0x80 ≤ n / 64 % 64 + 0x80) (by omega : n / 64 % 64 + 0x80 ≤ 0xBF) (by omega),
      step_last (b := n % 64 + 0x80) (by omega) (by omega), hcp, hc]

theorem decodeFrom_encode (cs : List Char) :
    decodeFrom .start (cs.flatMap String.utf8EncodeChar) = cs := by
  induction cs with
  | nil => rfl
  | cons c cs ih => rw [List.flatMap_cons, decodeFrom_encodeChar, ih]

/-! ## Units and scalar values -/

theorem toNat_ofNat {n : ℕ} (h : n.isValidChar) : (Char.ofNat n).toNat = n := by
  rw [Char.ofNat, dif_pos h]
  rfl

theorem isHighSurrogate_iff (u : UInt16) :
    isHighSurrogate u = true ↔ 0xD800 ≤ u.toNat ∧ u.toNat ≤ 0xDBFF := by
  simp [isHighSurrogate, UInt16.le_iff_toNat_le]

theorem isLowSurrogate_iff (u : UInt16) :
    isLowSurrogate u = true ↔ 0xDC00 ≤ u.toNat ∧ u.toNat ≤ 0xDFFF := by
  simp [isLowSurrogate, UInt16.le_iff_toNat_le]

theorem toUInt16_eq {n : ℕ} {u : UInt16} (h : n = u.toNat) : n.toUInt16 = u := by
  subst h
  simp

section

variable {a b : UInt16}

/-- A unit that is no surrogate is its own scalar value. -/
theorem toNat_scalarOfUnit (hhigh : isHighSurrogate a = false) (hlow : isLowSurrogate a = false) :
    (scalarOfUnit a).toNat = a.toNat := by
  have hh := (isHighSurrogate_iff a).not.mp (by simp [hhigh])
  have hl := (isLowSurrogate_iff a).not.mp (by simp [hlow])
  have hlt : a.toNat < 65536 := a.toNat_lt
  have hvalid : a.toNat.isValidChar := by
    unfold Nat.isValidChar
    omega
  simp only [scalarOfUnit, hhigh, hlow, Bool.or_self, Bool.false_eq_true, if_false,
    toNat_ofNat hvalid]

theorem toNat_scalarOfPair (hhigh : isHighSurrogate a = true) (hlow : isLowSurrogate b = true) :
    (scalarOfPair a b).toNat =
      0x10000 + (a.toNat - 0xD800) * 0x400 + (b.toNat - 0xDC00) := by
  have hh := (isHighSurrogate_iff a).mp hhigh
  have hl := (isLowSurrogate_iff b).mp hlow
  have hvalid : Nat.isValidChar (0x10000 + (a.toNat - 0xD800) * 0x400 + (b.toNat - 0xDC00)) := by
    unfold Nat.isValidChar
    omega
  exact toNat_ofNat hvalid

theorem unitsOfChar_scalarOfUnit (hhigh : isHighSurrogate a = false)
    (hlow : isLowSurrogate a = false) : unitsOfChar (scalarOfUnit a) = [a] := by
  have hlt : a.toNat < 65536 := a.toNat_lt
  have hnat := toNat_scalarOfUnit hhigh hlow
  have hsmall : (scalarOfUnit a).toNat < 0x10000 := by omega
  rw [unitsOfChar, if_pos hsmall, unit, toUInt16_eq hnat]

theorem unitsOfChar_scalarOfPair (hhigh : isHighSurrogate a = true)
    (hlow : isLowSurrogate b = true) : unitsOfChar (scalarOfPair a b) = [a, b] := by
  have hh := (isHighSurrogate_iff a).mp hhigh
  have hl := (isLowSurrogate_iff b).mp hlow
  have hnat := toNat_scalarOfPair hhigh hlow
  have hlarge : ¬ (scalarOfPair a b).toNat < 0x10000 := by omega
  rw [unitsOfChar, if_neg hlarge, toUInt16_eq (u := a) (by omega), toUInt16_eq (u := b) (by omega)]

end

theorem wellFormed_unit {a : UInt16} (h : wellFormed [a] = true) :
    isHighSurrogate a = false ∧ isLowSurrogate a = false := by
  simpa [wellFormed] using h

theorem flatMap_scalars {s : Str} (h : wellFormed s = true) :
    (scalars s).flatMap unitsOfChar = s := by
  fun_induction scalars s with
  | case1 => rfl
  | case2 a =>
    rcases wellFormed_unit h with ⟨hhigh, hlow⟩
    simp [unitsOfChar_scalarOfUnit hhigh hlow]
  | case3 a b rest hpair ih =>
    rcases Bool.and_eq_true_iff.mp hpair with ⟨hhigh, hlow⟩
    have hrest : wellFormed rest = true := by simpa [wellFormed, hhigh, hlow] using h
    simp [unitsOfChar_scalarOfPair hhigh hlow, ih hrest]
  | case4 a b rest hpair ih =>
    -- a high surrogate would have its partner behind it
    have hhigh : isHighSurrogate a = false := by
      by_contra hne
      simp only [Bool.not_eq_false] at hne
      simp [wellFormed, hne] at h
      simp [hne, h.1] at hpair
    simp only [wellFormed, hhigh, Bool.false_eq_true, if_false, Bool.and_eq_true,
      Bool.not_eq_true'] at h
    simp [unitsOfChar_scalarOfUnit hhigh h.1, ih h.2]

/-- The mark is one unit, and the scalar value of no other unit or pair. -/
theorem head_scalars (s : Str) :
    (scalars s).head? = some byteOrderMark ↔ s.head? = some 0xFEFF := by
  have hunit : ∀ a : UInt16, scalarOfUnit a = byteOrderMark ↔ a = 0xFEFF := by
    intro a
    constructor
    · intro h
      cases hsurrogate : isHighSurrogate a || isLowSurrogate a with
      | true =>
        rw [scalarOfUnit, hsurrogate, if_pos rfl] at h
        exact absurd h (by decide)
      | false =>
        rcases Bool.or_eq_false_iff.mp hsurrogate with ⟨hhigh, hlow⟩
        have hnat := toNat_scalarOfUnit hhigh hlow
        rw [h] at hnat
        exact UInt16.toNat_inj.mp hnat.symm
    · rintro rfl
      decide
  fun_cases scalars s with
  | case1 => simp
  | case2 a => simp [hunit]
  | case3 a b rest hpair =>
    rcases Bool.and_eq_true_iff.mp hpair with ⟨hhigh, hlow⟩
    have hh := (isHighSurrogate_iff a).mp hhigh
    have hnat := toNat_scalarOfPair hhigh hlow
    constructor
    · intro h
      have hmark : scalarOfPair a b = byteOrderMark := Option.some.inj h
      rw [hmark] at hnat
      have hvalue : byteOrderMark.toNat = 0xFEFF := rfl
      omega
    · intro h
      obtain rfl : a = 0xFEFF := Option.some.inj h
      exact absurd hhigh (by decide)
  | case4 a b rest _ => simp [hunit]

/-! ## Texts -/

theorem decodeFrom_encode_scalars (s : Str) : decodeFrom .start (encode s) = scalars s :=
  decodeFrom_encode (scalars s)

theorem decode_encode {s : Str} (h : wellFormed s = true) (hmark : s.head? ≠ some 0xFEFF) :
    decode (encode s) = s := by
  have hhead : (scalars s).head? ≠ some byteOrderMark := (head_scalars s).not.mpr hmark
  simp only [decode, decodeFrom_encode_scalars, hhead, if_false]
  exact flatMap_scalars h

/-- A byte order mark in front is taken for one, and lost. -/
theorem decode_encode_mark {s : Str} (h : wellFormed (0xFEFF :: s) = true) :
    decode (encode (0xFEFF :: s)) = s := by
  have hall : (scalars (0xFEFF :: s)).flatMap unitsOfChar = 0xFEFF :: s := flatMap_scalars h
  have hhead : (scalars (0xFEFF :: s)).head? = some byteOrderMark := (head_scalars _).mpr rfl
  rcases List.head?_eq_some_iff.mp hhead with ⟨cs, hcs⟩
  rw [hcs] at hall
  have hunits : unitsOfChar byteOrderMark = [0xFEFF] := by decide
  simp only [decode, decodeFrom_encode_scalars, hcs, List.head?_cons, if_true, List.tail_cons]
  simpa [hunits] using hall

theorem decode_encode_iff {s : Str} (h : wellFormed s = true) :
    decode (encode s) = s ↔ s.head? ≠ some 0xFEFF := by
  constructor
  · intro hround hhead
    rcases List.head?_eq_some_iff.mp hhead with ⟨rest, rfl⟩
    rw [decode_encode_mark h] at hround
    exact absurd hround (List.cons_ne_self _ _).symm
  · exact decode_encode h

end Utf8
