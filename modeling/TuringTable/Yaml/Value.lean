import TuringTable.Yaml.Number

/-!
# Values

What a text stands for. A mapping is the list of its entries in the order they are written.
-/

namespace TuringTable.Yaml

inductive Value where
  | null
  | boolean (b : Bool)
  | number (n : Number)
  | string (s : String)
  | sequence (items : List Value)
  | mapping (entries : List (Value × Value))
  | tagged (tag : String) (value : Value)
deriving Repr, Inhabited

namespace Value

mutual

/-- The same key: numbers as `Number.same` says, mappings whatever the order of their entries. -/
def same : Value → Value → Bool
  | null, null => true
  | boolean a, boolean b => a == b
  | number a, number b => a.same b
  | string a, string b => a == b
  | sequence as, sequence bs => sameItems as bs
  | mapping as, mapping bs => as.length == bs.length && sameEntries as bs
  | tagged s a, tagged t b => s == t && same a b
  | _, _ => false
termination_by structural v => v

def sameItems : List Value → List Value → Bool
  | [], [] => true
  | a :: as, b :: bs => same a b && sameItems as bs
  | _, _ => false
termination_by structural vs => vs

/-- Every entry of the first list is among those of the second. -/
def sameEntries : List (Value × Value) → List (Value × Value) → Bool
  | [], _ => true
  | a :: as, bs => bs.any (sameEntry a ·) && sameEntries as bs
termination_by structural es => es

def sameEntry : Value × Value → Value × Value → Bool
  | (k, v), (l, w) => same k l && same v w
termination_by structural e => e

end

/-- The value under its tags. -/
def untag : Value → Value
  | tagged _ v => untag v
  | v => v

/-- What the key `name`, a string without a tag, stands for. -/
def lookup (name : String) : List (Value × Value) → Option Value
  | [] => none
  | (string s, v) :: es => if s = name then some v else lookup name es
  | _ :: es => lookup name es

/-- The entries of a mapping, tagged or not. -/
def entries? (v : Value) : Option (List (Value × Value)) :=
  match v.untag with
  | mapping es => some es
  | _ => none

/-- The text of a scalar, tagged or not; null has none. -/
def text? (v : Value) : Option String :=
  match v.untag with
  | string s => some s
  | number n => some n.text
  | boolean b => some (if b then "true" else "false")
  | _ => none

/-- The text of a string, tagged or not. -/
def string? (v : Value) : Option String :=
  match v.untag with
  | string s => some s
  | _ => none

/-- What kind of value it is, under its tags. -/
def typeName (v : Value) : String :=
  match v.untag with
  | null => "null"
  | boolean _ => "boolean"
  | number _ => "number"
  | string _ => "string"
  | sequence _ => "sequence"
  | mapping _ => "mapping"
  | tagged .. => "tagged value"

mutual

/-- A value in a message: the text of a scalar, the items of a sequence, otherwise its kind. -/
def describe : Value → String
  | tagged _ v => describe v
  | sequence items => "[" ++ ", ".intercalate (describeItems items) ++ "]"
  | v => (text? v).getD (typeName v)
termination_by structural v => v

def describeItems : List Value → List String
  | [] => []
  | v :: vs => describe v :: describeItems vs
termination_by structural vs => vs

end

@[simp] theorem untag_tagged (t : String) (v : Value) : (tagged t v).untag = v.untag := by
  rw [untag]

theorem untag_of_ne_tagged {v : Value} (h : ∀ t w, v ≠ tagged t w) : v.untag = v :=
  untag.eq_2 v h

@[simp] theorem untag_untag (v : Value) : v.untag.untag = v.untag := by
  induction v using untag.induct with
  | case1 t v ih => simpa using ih
  | case2 v h => rw [untag_of_ne_tagged h, untag_of_ne_tagged h]

@[simp] theorem text?_untag (v : Value) : v.untag.text? = v.text? := by
  rw [text?, text?, untag_untag]

theorem typeName_untag (v : Value) : v.untag.typeName = v.typeName := by
  rw [typeName, typeName, untag_untag]

theorem describe_untag (v : Value) : v.untag.describe = v.describe := by
  induction v using untag.induct with
  | case1 t v ih => rw [untag_tagged, ih, describe]
  | case2 v h => rw [untag_of_ne_tagged h]

end Value

end TuringTable.Yaml
