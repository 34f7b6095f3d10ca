import TuringTable.Decimal.Binary64

/-!
# Shortest decimals

The decimal with the fewest digits that rounds to a given floating-point number, and the nearest
of these to it; of two equally near the one with the even last digit.
-/

namespace TuringTable

/-- The number `digits * 10 ^ exponent`. -/
structure Decimal where
  digits : Nat
  exponent : Int
deriving Repr, DecidableEq

namespace Decimal

/-- `x` rounds to `m * 2 ^ e`. Below a power of two the numbers lie twice as close. -/
def roundsTo (m : Nat) (e : Int) (x : Rat) : Bool :=
  let below : Rat := if 2 * m = Binary64.mantissaLimit ∧ -1074 < e then 1 / 4 else 1 / 2
  let unit := (2 : Rat) ^ e
  let low := (m - below) * unit
  let high := (m + 1 / 2) * unit
  (low < x && x < high) || (m % 2 == 0 && (x == low || x == high))

/-- The multiple of `10 ^ k` nearest to `m * 2 ^ e` among those that round to it. -/
def nearest? (m : Nat) (e k : Int) : Option Nat :=
  let unit := (10 : Rat) ^ k
  let v := m * (2 : Rat) ^ e / unit
  let n := v.floor.toNat
  match roundsTo m e (n * unit), roundsTo m e ((n + 1) * unit) with
  | false, false => none
  | true, false => some n
  | false, true => some (n + 1)
  | true, true =>
    let r := v - n
    if r < 1 / 2 then some n
    else if 1 / 2 < r then some (n + 1)
    else some (n + n % 2)

/-- An exponent of ten that is not below that of any power of ten up to `x`, which is positive. -/
def ceilLog10 (x : Rat) : Int :=
  ((Nat.toDigits 10 x.num.toNat).length : Int) - (Nat.toDigits 10 x.den).length + 1

/-- The shortest decimal that rounds to `m * 2 ^ e`, for a positive `m`. No more than 17 digits are
ever needed. -/
def shortest (m : Nat) (e : Int) : Decimal :=
  let top := ceilLog10 (m * (2 : Rat) ^ e)
  ((List.range 20).findSome? fun (i : Nat) =>
    let k := top - i
    (nearest? m e k).map (⟨·, k⟩)).getD ⟨m, 0⟩

end Decimal

end TuringTable
