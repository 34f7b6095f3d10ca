import TuringTable.Text.Quoted
import TuringTable.Yaml.Number

/-!
# What a scalar stands for

The types that plain scalars have by their looks.
-/

namespace TuringTable.Yaml.Scalar

def isNull (s : String) : Bool := ["null", "Null", "NULL", "~"].contains s

def boolean? (s : String) : Option Bool :=
  if ["true", "True", "TRUE"].contains s then some true
  else if ["false", "False", "FALSE"].contains s then some false
  else none

/-- The number with the given digits; there has to be one. -/
def digits? (base : Nat) : List Char → Option Nat
  | [] => none
  | cs => cs.foldlM (fun n c => do
      let d ← Text.hexDigit? c
      if d < base then some (base * n + d) else none) 0

/-- A size in base sixteen, eight, two or ten. -/
def size? : List Char → Option Nat
  | '0' :: 'x' :: cs => digits? 16 cs
  | '0' :: 'o' :: cs => digits? 8 cs
  | '0' :: 'b' :: cs => digits? 2 cs
  | cs => digits? 10 cs

/-- Digits with a zero before them are no number, such as `007`. -/
def isPadded (cs : List Char) : Bool :=
  let cs := match cs with
    | '+' :: cs => cs
    | '-' :: cs => cs
    | cs => cs
  match cs with
  | '0' :: c :: cs => (c :: cs).all Char.isDigit
  | _ => false

/-- An integer, however large. -/
def anyInteger? (cs : List Char) : Option Int :=
  if isPadded cs then none
  else match cs with
    | '-' :: cs => (size? cs).map fun n => -(n : Int)
    | '+' :: cs => (size? cs).map fun n => (n : Int)
    | cs => (size? cs).map fun n => (n : Int)

/-- Whether an integer is kept, refused or not taken for one. -/
inductive Range where
  | kept
  | refused
  | beyond
deriving Repr, DecidableEq

/-- Integers are kept within 64 bits, with a sign or without, and refused within 128. -/
def rangeOf (n : Int) : Range :=
  if -0x8000000000000000 ≤ n ∧ n < 0x10000000000000000 then .kept
  else if -0x80000000000000000000000000000000 ≤ n ∧ n < 0x100000000000000000000000000000000 then
    .refused
  else .beyond

/-- The number of a decimal with a point or an exponent, or without either. -/
def decimal? (negative : Bool) (cs : List Char) : Option Binary64 := do
  let whole := cs.takeWhile Char.isDigit
  let rest := cs.dropWhile Char.isDigit
  let (fraction, rest) := match rest with
    | '.' :: rest => (rest.takeWhile Char.isDigit, rest.dropWhile Char.isDigit)
    | rest => ([], rest)
  let n ← digits? 10 (whole ++ fraction)
  let exponent ← match rest with
    | [] => some 0
    | e :: rest =>
      if e == 'e' || e == 'E' then
        match rest with
        | '-' :: rest => (digits? 10 rest).map fun n => -(n : Int)
        | '+' :: rest => (digits? 10 rest).map fun n => (n : Int)
        | rest => (digits? 10 rest).map fun n => (n : Int)
      else none
  some (.ofDecimal negative n (exponent - fraction.length))

/-- A float: a finite decimal, or one of the names for what is not finite. -/
def float? (s : String) : Option Binary64 :=
  if [".inf", ".Inf", ".INF", "+.inf", "+.Inf", "+.INF"].contains s then some (.infinite false)
  else if ["-.inf", "-.Inf", "-.INF"].contains s then some (.infinite true)
  else if [".nan", ".NaN", ".NAN"].contains s then some .nan
  else
    let x := match s.toList with
      | '-' :: cs => decimal? true cs
      | '+' :: cs => decimal? false cs
      | cs => decimal? false cs
    x.filter fun | .finite .. => true | _ => false

end TuringTable.Yaml.Scalar
