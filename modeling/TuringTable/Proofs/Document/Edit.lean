import Mathlib.Data.List.Basic
import TuringTable.Yaml.Value

/-!
# Changes to a document

Changing the entries of a mapping under its tags (`onEntries`), the value of one field (`onField`),
leaving a field out (`dropField`) and giving it a value whether it is there or not (`setField`). The
lemmas say what is then found: the changed field under its name and everything else as it was.
-/

namespace TuringTable.Yaml.Value

variable {f : List (Value × Value) → List (Value × Value)}

/-- Under its tags a mapping gets other entries; what is no mapping stays. -/
def onEntries (f : List (Value × Value) → List (Value × Value)) : Value → Value
  | tagged t v => tagged t (onEntries f v)
  | mapping es => mapping (f es)
  | v => v

theorem untag_onEntries (v : Value) : (v.onEntries f).untag = v.untag.onEntries f := by
  induction v using untag.induct with
  | case1 t v ih => rw [onEntries, untag_tagged, untag_tagged, ih]
  | case2 v h =>
    cases v with
    | tagged t v => exact absurd rfl (h t v)
    | _ => rfl

theorem entries?_onEntries (v : Value) : (v.onEntries f).entries? = v.entries?.map f := by
  rw [entries?, entries?, untag_onEntries]
  cases v.untag <;> rfl

theorem typeName_onEntries (v : Value) : (v.onEntries f).typeName = v.typeName := by
  rw [typeName, typeName, untag_onEntries]
  cases v.untag <;> rfl

theorem onEntries_id (v : Value) : v.onEntries id = v := by
  induction v using untag.induct with
  | case1 t v ih => rw [onEntries, ih]
  | case2 v h =>
    cases v with
    | tagged t v => exact absurd rfl (h t v)
    | _ => rfl

theorem onEntries_eq_null_iff {v : Value} : v.onEntries f = null ↔ v = null := by
  cases v <;> simp [onEntries]

/-! ### Fields -/

/-- The key is the string `name`, without a tag. -/
def isField (name : String) : Value → Bool
  | string s => s = name
  | _ => false

/-- The field of the name gets another value. -/
def onField (name : String) (f : Value → Value) (es : List (Value × Value)) :
    List (Value × Value) :=
  es.map fun e => if e.1.isField name then (e.1, f e.2) else e

def dropField (name : String) (es : List (Value × Value)) : List (Value × Value) :=
  es.filter fun e => !e.1.isField name

/-- The field of the name gets the value. One that is missing is added after `n` entries. -/
def setField (name : String) (v : Value) (n : Nat) (es : List (Value × Value)) :
    List (Value × Value) :=
  if (lookup name es).isSome then onField name (fun _ => v) es
  else es.take n ++ (string name, v) :: es.drop n

theorem lookup_cons (name : String) (k v : Value) (es : List (Value × Value)) :
    lookup name ((k, v) :: es) = if k.isField name then some v else lookup name es := by
  cases k with
  | string s => simp [lookup, isField]
  | _ => rfl

theorem not_isField_of_ne {name other : String} (h : name ≠ other) {k : Value}
    (hk : k.isField other = true) : k.isField name = false := by
  cases k with
  | string s =>
    rw [of_decide_eq_true hk]
    exact decide_eq_false h.symm
  | _ => rfl

section Lookup
variable {name other : String}

theorem lookup_onField_self (name : String) (g : Value → Value) (es : List (Value × Value)) :
    lookup name (onField name g es) = (lookup name es).map g := by
  induction es with
  | nil => rfl
  | cons e es ih =>
    obtain ⟨k, v⟩ := e
    rw [onField, List.map_cons, ← onField.eq_def, lookup_cons]
    cases hk : k.isField name
    · rw [if_neg Bool.false_ne_true, lookup_cons, hk]
      exact ih
    · rw [if_pos rfl, lookup_cons, hk]
      rfl

theorem lookup_onField_of_ne (h : name ≠ other) (g : Value → Value) (es : List (Value × Value)) :
    lookup name (onField other g es) = lookup name es := by
  induction es with
  | nil => rfl
  | cons e es ih =>
    obtain ⟨k, v⟩ := e
    rw [onField, List.map_cons, ← onField.eq_def, lookup_cons]
    cases hk : k.isField other
    · rw [if_neg Bool.false_ne_true, lookup_cons, ih]
    · rw [if_pos rfl, lookup_cons, ih, not_isField_of_ne h hk]
      rfl

theorem lookup_dropField_self (name : String) (es : List (Value × Value)) :
    lookup name (dropField name es) = none := by
  induction es with
  | nil => rfl
  | cons e es ih =>
    obtain ⟨k, v⟩ := e
    cases hk : k.isField name
    · rw [dropField, List.filter_cons_of_pos (by simp [hk]), lookup_cons, hk]
      exact ih
    · rw [dropField, List.filter_cons_of_neg (by simp [hk])]
      exact ih

theorem lookup_dropField_of_ne (h : name ≠ other) (es : List (Value × Value)) :
    lookup name (dropField other es) = lookup name es := by
  induction es with
  | nil => rfl
  | cons e es ih =>
    obtain ⟨k, v⟩ := e
    cases hk : k.isField other
    · rw [dropField, List.filter_cons_of_pos (by simp [hk]), lookup_cons, lookup_cons,
        ← dropField.eq_def, ih]
    · rw [dropField, List.filter_cons_of_neg (by simp [hk]), lookup_cons, not_isField_of_ne h hk]
      exact ih

theorem lookup_append (name : String) (es fs : List (Value × Value)) :
    lookup name (es ++ fs) = (lookup name es).or (lookup name fs) := by
  induction es with
  | nil => rfl
  | cons e es ih =>
    obtain ⟨k, v⟩ := e
    rw [List.cons_append, lookup_cons, lookup_cons, ih]
    split <;> rfl

theorem lookup_setField_self (name : String) (v : Value) (n : Nat) (es : List (Value × Value)) :
    lookup name (setField name v n es) = some v := by
  rw [setField]
  split
  · rename_i h
    obtain ⟨w, hw⟩ := Option.isSome_iff_exists.1 h
    rw [lookup_onField_self, hw, Option.map_some]
  · rename_i h
    have hes : lookup name (es.take n ++ es.drop n) = none := by
      rw [List.take_append_drop]
      exact Option.not_isSome_iff_eq_none.1 h
    have hself : (string name).isField name = true := decide_eq_true rfl
    rw [lookup_append, Option.or_eq_none_iff] at hes
    rw [lookup_append, hes.1, lookup_cons, hself, if_pos rfl, Option.none_or]

theorem lookup_setField_of_ne (h : name ≠ other) (v : Value) (n : Nat)
    (es : List (Value × Value)) : lookup name (setField other v n es) = lookup name es := by
  rw [setField]
  split
  · exact lookup_onField_of_ne h _ es
  · have hother : (string other).isField name = false := decide_eq_false h.symm
    rw [lookup_append, lookup_cons, hother, if_neg Bool.false_ne_true, ← lookup_append,
      List.take_append_drop]

end Lookup

end TuringTable.Yaml.Value

/-- The fields of a document. -/
def TuringTable.Document.fieldNames : List String :=
  ["blank", "start state", "input", "synonyms", "table"]
