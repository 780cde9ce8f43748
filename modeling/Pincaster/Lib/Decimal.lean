import Pincaster.Lib.CString
import Mathlib.Data.Rat.Defs
/-!
# Decimal — decimal numbers read exactly

`strtod` on decimal notation without an exponent, with rational numbers for its results.
-/
namespace Lib

/-- The number read and what is left; `none` when there is no digit. -/
def strtodDecimal (s : Bytes) : Option (ℚ × Bytes) :=
  let s := s.dropWhile isspace
  let neg := s.head? = some 45
  let s := if s.head? = some 45 ∨ s.head? = some 43 then s.tail else s
  let ds := s.takeWhile (isDigitOf 10)
  let s := s.drop ds.length
  let fs := if s.head? = some 46 then s.tail.takeWhile (isDigitOf 10) else []
  if ds = [] ∧ fs = [] then none
  else
    let n : ℚ := mkRat (ofDigits 10 (ds ++ fs)) (10 ^ fs.length)
    some (if neg then -n else n, if s.head? = some 46 then s.drop (1 + fs.length) else s)

example : strtodDecimal (bytes "-12.50,3") = some (-25 / 2, bytes ",3") := by decide +kernel

end Lib
