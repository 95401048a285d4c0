import Doppelganger.Lib.RoundEven
import Doppelganger.Lib.Text
import Mathlib.Data.Rat.Floor

/-!
# Scores

The similarity score is a Python float; here it is an exact rational. `round` is `roundEven`,
`pct` the percentage the routes report, and `scoreText` / `pyFloat` are the
`str(round(score, 4))` that goes into the session hash and the `float(...)` that reads it back.
-/

open Text

namespace Doppelganger

/-- `round(score * 100)`. -/
def pct (score : ℚ) : ℤ := roundEven (score * 100)

/-- The four decimals of a rounded score, without trailing zeros but with at least one digit. -/
def fractionText (m : ℕ) : Str :=
  let ds := (List.range 4).map fun i => (48 + m / 10 ^ (3 - i) % 10).toUInt16
  match ds.rdropWhile (· == unit '0') with
  | [] => lit "0"
  | ds => ds

/-- `str(round(score, 4))`; a negative score that rounds to zero keeps its sign. -/
def scoreText (score : ℚ) : Str :=
  let m := (roundEven (|score| * 10000)).natAbs
  (if score < 0 then lit "-" else []) ++ natText (m / 10000) ++ lit "." ++ fractionText (m % 10000)

/-- `float(s)` on a plain decimal; `none` where it raises `ValueError`. -/
def pyFloat (s : Str) : Option ℚ :=
  let neg := s.head? == some (unit '-')
  let body := if neg then s.tail else s
  let whole := body.takeWhile isDigit
  let frac : Option Str :=
    match body.dropWhile isDigit with
    | [] => some []
    | c :: ds => if c == unit '.' && ds.all isDigit then some ds else none
  if whole.isEmpty then none
  else frac.map fun ds =>
    let x : ℚ := natOfDigits whole + natOfDigits ds / 10 ^ ds.length
    if neg then -x else x

end Doppelganger
