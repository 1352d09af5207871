import ClassAbi.Text.Number

/-!
# Integers in scientific notation

A floating point constant is written with one digit before the point and six after it. The constants come from integers:
an integer is first rounded to the nearest double, and that is rounded to seven digits; both times a tie goes to the even
neighbour.
-/

namespace ClassAbi.Text

/-- The quotient `n / d`, rounded to the nearest integer, a tie to the even one. -/
def divEven (n d : Nat) : Nat :=
  let q := n / d
  let r := 2 * (n % d)
  if r < d then q else if d < r then q + 1 else if q % 2 = 0 then q else q + 1

/-- The double nearest to a natural number: it has at most 53 significant bits. -/
def nearestDouble (n : Nat) : Nat :=
  let excess := n.log2 + 1 - 53
  divEven n (1 <<< excess) <<< excess

/-- The digits and the exponent of `n`, rounded to seven digits. -/
def sevenDigits (n : Nat) : Nat × Nat :=
  let places := (ofNat n).length
  if places ≤ 7 then (n * Nat.pow 10 (7 - places), if n = 0 then 0 else places - 1)
  else
    let m := divEven n (Nat.pow 10 (places - 7))
    if m = Nat.pow 10 7 then (Nat.pow 10 6, places) else (m, places - 1)

def ofIntScientific (v : Int) : Text :=
  let (digits, exponent) := sevenDigits (nearestDouble v.natAbs)
  let text := zeroFill 7 (ofNat digits)
  onlyIf (v < 0) "-" ++ text.take 1 ++ "." ++ text.drop 1 ++ "e+" ++ zeroFill 2 (ofNat exponent)

end ClassAbi.Text
