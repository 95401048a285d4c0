import Mathlib.Tactic
import Mathlib.Data.List.DropRight

/-!
# Text as UTF-16 code units

JSON and the browser handle text as sequences of 16-bit code units. A Python
`str` decoded from JSON never holds a surrogate pair split in two, so it is
determined by its code units too, and one type serves both sides of the wire.
A lone surrogate is representable; such a text is not `wellFormed` and cannot be
encoded as UTF-8.
-/

namespace Text

/-- A text, as its UTF-16 code units. -/
abbrev Str := List UInt16

instance : LawfulBEq Str := inferInstance

/-- The code unit of a character of the basic plane. -/
def unit (c : Char) : UInt16 := c.toNat.toUInt16

/-- The code units of one Unicode scalar value. -/
def unitsOfChar (c : Char) : Str :=
  if c.toNat < 0x10000 then [unit c]
  else [(0xD800 + (c.toNat - 0x10000) / 0x400).toUInt16,
        (0xDC00 + (c.toNat - 0x10000) % 0x400).toUInt16]

/-- A text written in the source. -/
def lit (s : String) : Str := s.toList.flatMap unitsOfChar

def isHighSurrogate (u : UInt16) : Bool := 0xD800 ≤ u && u ≤ 0xDBFF

def isLowSurrogate (u : UInt16) : Bool := 0xDC00 ≤ u && u ≤ 0xDFFF

/-- Every surrogate is one half of a pair: the text can be encoded as UTF-8. -/
def wellFormed : Str → Bool
  | [] => true
  | [a] => !isHighSurrogate a && !isLowSurrogate a
  | a :: b :: rest =>
    if isHighSurrogate a then isLowSurrogate b && wellFormed rest
    else !isLowSurrogate a && wellFormed (b :: rest)

/-- `len(s)` in Python: the number of code points. -/
def len : Str → ℕ
  | [] => 0
  | [_] => 1
  | a :: b :: rest =>
    if isHighSurrogate a && isLowSurrogate b then len rest + 1 else len (b :: rest) + 1

/-- `str.isspace` on one code point; every whitespace code point is a single unit. -/
def isSpace (u : UInt16) : Bool :=
  (9 ≤ u && u ≤ 13) || (28 ≤ u && u ≤ 32) || u == 0x85 || u == 0xA0 || u == 0x1680 ||
  (0x2000 ≤ u && u ≤ 0x200A) || u == 0x2028 || u == 0x2029 || u == 0x202F || u == 0x205F ||
  u == 0x3000

/-- `s.strip()`. -/
def strip (s : Str) : Str := (s.dropWhile isSpace).rdropWhile isSpace

/-! ## Decimal digits -/

/-- The decimal digits of a natural number, most significant first. -/
def natText (n : ℕ) : Str :=
  if n = 0 then lit "0" else ((Nat.digits 10 n).reverse).map fun d => (48 + d).toUInt16

/-- `str(n)` of an integer. -/
def intText (n : ℤ) : Str :=
  if n < 0 then unit '-' :: natText n.natAbs else natText n.natAbs

def isDigit (u : UInt16) : Bool := 48 ≤ u && u ≤ 57

def digitValue (u : UInt16) : ℕ := u.toNat - 48

/-- The number a run of decimal digits spells. -/
def natOfDigits (ds : Str) : ℕ := ds.foldl (fun acc d => acc * 10 + digitValue d) 0

end Text
