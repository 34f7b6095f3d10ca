/-!
# Floating-point numbers of 64 bits

A finite number is a sign, a whole number below 2^53 and a power of two. `ofRat` rounds to the
nearest one, a tie to the even one; what lies beyond the greatest becomes infinite.
-/

namespace TuringTable

inductive Binary64 where
  /-- `mantissa * 2 ^ exponent`, with the least exponent from -1074 on that has room for it. -/
  | finite (negative : Bool) (mantissa : Nat) (exponent : Int)
  | infinite (negative : Bool)
  | nan
deriving Repr, DecidableEq

namespace Binary64

/-- Two to the power of 53, above every mantissa. -/
def mantissaLimit : Nat := 0x20000000000000

/-- The whole number nearest to `x`, which is not negative; of two the even one. -/
def roundEven (x : Rat) : Nat :=
  let n := x.floor.toNat
  let r := x - n
  if r < 1 / 2 then n
  else if 1 / 2 < r then n + 1
  else n + n % 2

/-- The exponent of the greatest power of two that is not above `x`, which is positive. -/
def floorLog2 (x : Rat) : Int :=
  let l : Int := x.num.toNat.log2 - x.den.log2
  if (2 : Rat) ^ l ≤ x then l else l - 1

/-- The number nearest to `x`, which is not negative, with a sign put before it. -/
def ofRat (negative : Bool) (x : Rat) : Binary64 :=
  if x = 0 then finite negative 0 (-1074)
  else
    let e := max (floorLog2 x - 52) (-1074)
    let m := roundEven (x / 2 ^ e)
    let (m, e) := if m = mantissaLimit then (m / 2, e + 1) else (m, e)
    if 971 < e then infinite negative else finite negative m e

/-- The number nearest to `n * 10 ^ k`. Powers far beyond the range are not computed. -/
def ofDecimal (negative : Bool) (n : Nat) (k : Int) : Binary64 :=
  let length : Int := (Nat.toDigits 10 n).length
  if n = 0 ∨ length + k < -400 then ofRat negative 0
  else if 400 < length + k then infinite negative
  else ofRat negative (n * (10 : Rat) ^ k)

/-- The two zeros count as one number, and what is not a number counts as one. -/
def same : Binary64 → Binary64 → Bool
  | finite _ 0 _, finite _ 0 _ => true
  | a, b => a == b

end Binary64

end TuringTable
