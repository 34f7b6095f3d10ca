import TuringTable.Decimal.Shortest

/-!
# Numbers of a document
-/

namespace TuringTable.Yaml

/-- A whole number stays apart from a float of the same value. -/
inductive Number where
  | integer (n : Int)
  | float (x : Binary64)
deriving Repr, DecidableEq

namespace Number

/-- The same number as a key. -/
def same : Number → Number → Bool
  | integer m, integer n => m == n
  | float x, float y => x.same y
  | _, _ => false

/-- A decimal with a point or an exponent: the point is written where it comes after at most 16
digits and before at most 4 zeros. -/
def decimalText (d : Decimal) : String :=
  let digits := Nat.toDigits 10 d.digits
  let point : Int := digits.length + d.exponent
  let zeros (n : Int) := List.replicate n.toNat '0'
  String.ofList <|
    if 0 ≤ d.exponent ∧ point ≤ 16 then digits ++ zeros d.exponent ++ ['.', '0']
    else if 0 < point ∧ point ≤ 16 then
      digits.take point.toNat ++ '.' :: digits.drop point.toNat
    else if -5 < point ∧ point ≤ 0 then '0' :: '.' :: zeros (-point) ++ digits
    else
      let tail := digits.tail
      let fraction := if tail.isEmpty then [] else '.' :: tail
      digits.take 1 ++ fraction ++ 'e' :: (toString (point - 1)).toList

def floatText : Binary64 → String
  | .nan => ".nan"
  | .infinite negative => if negative then "-.inf" else ".inf"
  | .finite negative m e =>
    let size := if m = 0 then "0.0" else decimalText (.shortest m e)
    if negative then "-" ++ size else size

def text : Number → String
  | integer n => toString n
  | float x => floatText x

end Number

end TuringTable.Yaml
