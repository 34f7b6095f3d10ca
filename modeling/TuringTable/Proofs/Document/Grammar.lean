import Mathlib.Data.List.Forall2
import TuringTable.Document

/-!
# The grammar of documents

What a document has to look like and what it then means, said without reading it. `Accepted d` is
the form alone. `Describes d s` also says what each part means, so that `s` is what `d` describes:
of the entries of a mapping with one name the last one counts, and of the keys for a symbol the
last one.
-/

namespace TuringTable.Grammar

open Yaml (Value)

/-- The entries of a mapping as they are written. -/
abbrev Entries := List (Value × Value)

/-! ### Scalars -/

/-- Under its tags the first value is the second, which has none. -/
inductive Under : Value → Value → Prop where
  | bare {v : Value} : (∀ t w, v ≠ .tagged t w) → Under v v
  | tagged {t : String} {v w : Value} : Under v w → Under (.tagged t v) w

/-- A string, a number or a boolean with its text. Null is none of them. -/
inductive Scalar (v : Value) : String → Prop where
  | string {s : String} : Under v (.string s) → Scalar v s
  | number {n : Yaml.Number} : Under v (.number n) → Scalar v n.text
  | boolean {b : Bool} : Under v (.boolean b) → Scalar v (if b then "true" else "false")

/-- A scalar of one character. -/
def IsSymbol (v : Value) (c : Char) : Prop := ∃ s, Scalar v s ∧ s.toList = [c]

/-! ### Fields of the document -/

/-- The document has `v` under the key `name`, a string without a tag. -/
def HasField (es : Entries) (name : String) (v : Value) : Prop :=
  ∃ before after, es = before ++ (.string name, v) :: after ∧ ∀ e ∈ before, e.1 ≠ .string name

/-- The document does not have the key, or a null without a tag under it. -/
def Omitted (es : Entries) (name : String) : Prop :=
  (∀ e ∈ es, e.1 ≠ .string name) ∨ HasField es name .null

/-! ### Instructions -/

/-- Under its tags the key is the string `name`. -/
def Named (name : String) (key : Value) : Prop := Under key (.string name)

/-- The last entry with the name has the value `v`. -/
def Part (ps : Entries) (name : String) (v : Value) : Prop :=
  ∃ before key after, ps = before ++ (key, v) :: after ∧ Named name key ∧
    ∀ e ∈ after, ¬ Named name e.1

/-- No entry has the name. -/
def NoPart (ps : Entries) (name : String) : Prop := ∀ e ∈ ps, ¬ Named name e.1

/-- The state to enter; null stays. -/
inductive Target (v : Value) : Option String → Prop where
  | stay : Under v .null → Target v none
  | enter {q : String} : Scalar v q → Target v (some q)

/-- The symbol to write, if there is an entry for it. -/
inductive Written (ps : Entries) : Option Char → Prop where
  | keep : NoPart ps "write" → Written ps none
  | symbol {v : Value} {c : Char} : Part ps "write" v → IsSymbol v c → Written ps (some c)

/-- An instruction as a mapping: one direction with a target, a symbol to write or none, and
nothing else. -/
structure Object (ps : Entries) (i : Instruction) : Prop where
  direction : ∃ target, Target target i.nextState ∧
    (i.direction = .left ∧ Part ps "L" target ∧ NoPart ps "R" ∨
      i.direction = .right ∧ NoPart ps "L" ∧ Part ps "R" target)
  write : Written ps i.write
  keys : ∀ e ∈ ps, Named "L" e.1 ∨ Named "R" e.1 ∨ Named "write" e.1

/-- An instruction that needs no synonym: a direction on its own, or a mapping. -/
inductive Plain (v : Value) : Instruction → Prop where
  | left : Under v (.string "L") → Plain v ⟨none, .left, none⟩
  | right : Under v (.string "R") → Plain v ⟨none, .right, none⟩
  | object {ps : Entries} {i : Instruction} : Under v (.mapping ps) → Object ps i → Plain v i

/-- The synonyms in the order they are written, with their names. -/
inductive Synonyms (es : Entries) : List (String × Instruction) → Prop where
  | omitted : Omitted es "synonyms" → Synonyms es []
  | mapping {v : Value} {ps : Entries} {names : List (String × Instruction)} :
      HasField es "synonyms" v → Under v (.mapping ps) →
      List.Forall₂ (fun e k => Scalar e.1 k.1 ∧ Plain e.2 k.2) ps names → Synonyms es names

/-- The instruction of a table cell. Any string but the two directions is a synonym, and the last
one of that name counts. -/
inductive Cell (names : List (String × Instruction)) (v : Value) : Instruction → Prop where
  | plain {i : Instruction} : Plain v i → Cell names v i
  | synonym {name : String} {i : Instruction} : Under v (.string name) → name ≠ "L" → name ≠ "R" →
      names.reverse.lookup name = some i → Cell names v i

/-! ### The table -/

/-- The symbols of a key: a single character, which may be a comma; two or more characters joined by
commas and none of them a comma; or a list. -/
inductive Key (v : Value) : List Char → Prop where
  | single {c : Char} : IsSymbol v c → Key v [c]
  | joined {s : String} {cs : List Char} : Scalar v s → 2 ≤ cs.length → ',' ∉ cs →
      s.toList = cs.intersperse ',' → Key v cs
  | list {items : List Value} {cs : List Char} : Under v (.sequence items) →
      List.Forall₂ IsSymbol items cs → Key v cs

/-- The instructions of a state: a symbol has the instruction of the last key that names it. -/
def RowOf (names : List (String × Instruction)) (cells : Entries) (row : Row) : Prop :=
  ∃ ks : List (List Char × Instruction),
    List.Forall₂ (fun e k => Key e.1 k.1 ∧ Cell names e.2 k.2) cells ks ∧
    ∀ c, row.get? c = (ks.flatMap fun k => k.1.map (·, k.2)).reverse.lookup c

/-- The entry of a state: null for a halting one, and otherwise its cells. -/
inductive State (names : List (String × Instruction)) (v : Value) : Option Row → Prop where
  | halting : Under v .null → State names v none
  | row {cells : Entries} {row : Row} : Under v (.mapping cells) → RowOf names cells row →
      State names v (some row)

/-- The table: a state has the last entry of its name, as a whole. -/
def TableOf (names : List (String × Instruction)) (es : Entries) (table : Table) : Prop :=
  ∃ v ps, ∃ ks : List (String × Option Row), HasField es "table" v ∧ Under v (.mapping ps) ∧
    List.Forall₂ (fun e k => Scalar e.1 k.1 ∧ State names e.2 k.2) ps ks ∧
    ∀ q, table.get? q = ks.reverse.lookup q

/-! ### The document -/

/-- The input: nothing, the characters of a scalar, or a list of symbols. -/
inductive Input (es : Entries) : List Char → Prop where
  | omitted : Omitted es "input" → Input es []
  | text {v : Value} {s : String} : HasField es "input" v → Scalar v s → Input es s.toList
  | list {v : Value} {items : List Value} {cs : List Char} : HasField es "input" v →
      Under v (.sequence items) → List.Forall₂ IsSymbol items cs → Input es cs

/-- The document has the right form and describes `s`. -/
def Describes (document : Value) (s : Specification) : Prop :=
  ∃ es names, Under document (.mapping es) ∧
    (∃ v, HasField es "blank" v ∧ IsSymbol v s.blank) ∧
    (∃ v, HasField es "start state" v ∧ Scalar v s.startState) ∧
    Input es s.input ∧ Synonyms es names ∧ TableOf names es s.table

/-- One of the synonyms has the name. -/
def IsSynonym (es : Entries) (name : String) : Prop :=
  ∃ v ps, HasField es "synonyms" v ∧ Under v (.mapping ps) ∧ ∃ e ∈ ps, Scalar e.1 name

/-- The document has the right form. -/
def Accepted (document : Value) : Prop :=
  ∃ es, Under document (.mapping es) ∧
    (∃ v c, HasField es "blank" v ∧ v ≠ .null ∧ IsSymbol v c) ∧
    (∃ v q, HasField es "start state" v ∧ v ≠ .null ∧ Scalar v q) ∧
    (Omitted es "input" ∨ ∃ v, HasField es "input" v ∧
      ((∃ s, Scalar v s) ∨ ∃ items, Under v (.sequence items) ∧ ∀ x ∈ items, ∃ c, IsSymbol x c)) ∧
    (Omitted es "synonyms" ∨ ∃ v ps, HasField es "synonyms" v ∧ Under v (.mapping ps) ∧
      ∀ e ∈ ps, (∃ name, Scalar e.1 name) ∧ ∃ i, Plain e.2 i) ∧
    ∃ v ps, HasField es "table" v ∧ Under v (.mapping ps) ∧
      ∀ e ∈ ps, (∃ q, Scalar e.1 q) ∧
        (Under e.2 .null ∨ ∃ cells, Under e.2 (.mapping cells) ∧
          ∀ x ∈ cells, (∃ cs, Key x.1 cs) ∧
            ((∃ i, Plain x.2 i) ∨ ∃ name, Under x.2 (.string name) ∧ IsSynonym es name))

end TuringTable.Grammar
