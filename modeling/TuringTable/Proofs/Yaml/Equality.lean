import TuringTable.Yaml.Value

/-!
# Equality of values

Values are equal if they are written with the same tags and entries in the same order, which is
finer than being the same key (`Value.same`).
-/

namespace TuringTable.Yaml.Value

mutual

def equal : Value → Value → Bool
  | null, null => true
  | boolean a, boolean b => a = b
  | number a, number b => a = b
  | string a, string b => a = b
  | sequence as, sequence bs => equalItems as bs
  | mapping as, mapping bs => equalEntries as bs
  | tagged s a, tagged t b => s = t && equal a b
  | _, _ => false
termination_by structural v => v

def equalItems : List Value → List Value → Bool
  | [], [] => true
  | a :: as, b :: bs => equal a b && equalItems as bs
  | _, _ => false
termination_by structural vs => vs

def equalEntries : List (Value × Value) → List (Value × Value) → Bool
  | [], [] => true
  | a :: as, b :: bs => equalEntry a b && equalEntries as bs
  | _, _ => false
termination_by structural es => es

def equalEntry : Value × Value → Value × Value → Bool
  | (k, v), (l, w) => equal k l && equal v w
termination_by structural e => e

end

mutual

theorem equal_iff : ∀ v w : Value, v.equal w = true ↔ v = w
  | null, w => by cases w <;> simp [equal]
  | boolean a, w => by cases w <;> simp [equal]
  | number a, w => by cases w <;> simp [equal]
  | string a, w => by cases w <;> simp [equal]
  | sequence as, w => by cases w <;> simp [equal, equalItems_iff as]
  | mapping as, w => by cases w <;> simp [equal, equalEntries_iff as]
  | tagged s a, w => by cases w <;> simp [equal, equal_iff a]
termination_by structural v => v

theorem equalItems_iff : ∀ as bs : List Value, equalItems as bs = true ↔ as = bs
  | [], bs => by cases bs <;> simp [equalItems]
  | a :: as, bs => by cases bs <;> simp [equalItems, equal_iff a, equalItems_iff as]
termination_by structural as => as

theorem equalEntries_iff : ∀ as bs : List (Value × Value), equalEntries as bs = true ↔ as = bs
  | [], bs => by cases bs <;> simp [equalEntries]
  | a :: as, bs => by cases bs <;> simp [equalEntries, equalEntry_iff a, equalEntries_iff as]
termination_by structural as => as

theorem equalEntry_iff : ∀ a b : Value × Value, equalEntry a b = true ↔ a = b
  | (k, v), (l, w) => by simp [equalEntry, equal_iff k, equal_iff v]
termination_by structural a => a

end

instance : DecidableEq Value := fun v w => decidable_of_iff _ (equal_iff v w)

end TuringTable.Yaml.Value
