import TuringTable.Json

/-!
# Reading a written specification

The form in which a specification is written is read again as what was written
(`ofJson?_toJson`). The reader takes more than the writer gives: the fields of an object in any
order and among others, a list in place of an object, and of two entries of a map with one key the
later one. Null is read as nothing where something may be left out, and what is written of something
is never null (`option?_option`), so a row without cells is not taken for a halting state. No two
specifications are written in one form (`written_form_tells_apart`).
-/

namespace TuringTable

namespace Json

/-! ### Readers -/

def text? : Json → Option String
  | text s => some s
  | _ => none

/-- A text of one character. -/
def char? (v : Json) : Option Char := do
  match (← v.text?).toList with
  | [c] => some c
  | _ => none

section
variable {α κ ν : Type}

/-- What may be left out, and then is null. -/
def option? (f : Json → Option α) : Json → Option (Option α)
  | null => some none
  | v => (f v).map some

def list? (f : Json → Option α) : Json → Option (List α)
  | list items => items.mapM f
  | _ => none

/-- A map, whose keys are read as texts. Of two entries with the same key the later one counts. -/
def map? [LT κ] [DecidableLT κ] [LE κ] [Std.IsLinearOrder κ] [Std.LawfulOrderLT κ]
    (key : Json → Option κ) (f : Json → Option ν) : Json → Option (SortedMap κ ν)
  | object fields => do
    let entries ← fields.mapM fun (k, v) => return (← key (text k), ← f v)
    return .ofList entries
  | _ => none

/-- The value of the field with a name, if there is such a field. There cannot be two. -/
def field? (fields : List (String × Json)) (name : String) : Option (Option Json) :=
  match fields.filter (·.1 = name) with
  | [] => some none
  | [e] => some (some e.2)
  | _ => none

/-- A field that has to be there. -/
def required (f : Json → Option α) (fields : List (String × Json)) (name : String) : Option α :=
  (field? fields name).join.bind f

/-- A field that may be left out. -/
def optional (f : Json → Option α) (fields : List (String × Json)) (name : String) :
    Option (Option α) := do
  match ← field? fields name with
  | none => return none
  | some v => option? f v

end

end Json

namespace Direction

def ofName? : String → Option Direction
  | "Left" => some .left
  | "Right" => some .right
  | _ => none

/-- A name, on its own or as the only field of an object, without a value. -/
def ofJson? : Json → Option Direction
  | .text s => ofName? s
  | .object [(s, .null)] => ofName? s
  | _ => none

end Direction

open Json in
/-- An object with the parts by name, or a list of the parts in order. -/
def Instruction.ofJson? : Json → Option Instruction
  | .object fields => do
    return ⟨← optional char? fields "write", ← required Direction.ofJson? fields "direction",
      ← optional text? fields "next_state"⟩
  | .list [w, d, q] => do return ⟨← option? char? w, ← Direction.ofJson? d, ← option? text? q⟩
  | _ => none

def Row.ofJson? : Json → Option Row := Json.map? Json.char? Instruction.ofJson?

def Table.ofJson? : Json → Option Table := Json.map? Json.text? (Json.option? Row.ofJson?)

open Json in
/-- An object with the parts by name, or a list of the parts in order. -/
def Specification.ofJson? : Json → Option Specification
  | .object fields => do
    return ⟨← required char? fields "blank", ← required text? fields "start_state",
      ← required Table.ofJson? fields "table", ← required (list? char?) fields "input"⟩
  | .list [b, q, t, i] => do return ⟨← char? b, ← text? q, ← Table.ofJson? t, ← list? char? i⟩
  | _ => none

/-! ### What was written -/

namespace Json
variable {α β κ ν : Type}

theorem char?_char (c : Char) : char? (char c) = some c := by
  show (match (String.singleton c).toList with | [c] => some c | _ => none) = some c
  rw [String.toList_singleton]

/-- What is written of something is not null, so it is not read as nothing. -/
theorem option?_option {f : Json → Option α} {g : α → Json} (hf : ∀ a, f (g a) = some a)
    (hg : ∀ a, g a ≠ null) (a? : Option α) : option? f (option g a?) = some a? := by
  cases a? with
  | none => rfl
  | some a => rw [option, option?.eq_2 _ _ (hg a), hf, Option.map_some]

theorem mapM_map_eq_some {f : β → Option α} {g : α → β} (h : ∀ a, f (g a) = some a)
    (as : List α) : (as.map g).mapM f = some as := by
  induction as with
  | nil => rfl
  | cons a as ih => rw [List.map_cons, List.mapM_cons, h, ih]; rfl

theorem list?_list {f : Json → Option α} {g : α → Json} (h : ∀ a, f (g a) = some a)
    (as : List α) : list? f (list (as.map g)) = some as := mapM_map_eq_some h as

/-- The entries of a map are written in order, each key once. -/
theorem map?_object [LT κ] [DecidableLT κ] [LE κ] [Std.IsLinearOrder κ] [Std.LawfulOrderLT κ]
    [DecidableEq κ] {key : Json → Option κ} {f : Json → Option ν} {name : κ → String}
    {g : ν → Json} (hkey : ∀ k, key (text (name k)) = some k) (hf : ∀ v, f (g v) = some v)
    (m : SortedMap κ ν) :
    map? key f (object (m.entries.map fun (k, v) => (name k, g v))) = some m := by
  rw [map?, mapM_map_eq_some (fun (k, v) => by simp only [hkey, hf]; rfl)]
  exact congrArg some (SortedMap.ofList_eq_of_perm (.refl _))

end Json

theorem Direction.ofJson?_name (d : Direction) : ofJson? (.text d.name) = some d := by
  cases d <;> rfl

theorem Instruction.ofJson?_toJson (i : Instruction) : ofJson? i.toJson = some i := by
  obtain ⟨w, d, q⟩ := i
  have hw : Json.option? Json.char? (.option .char w) = some w :=
    Json.option?_option Json.char?_char (fun _ => nofun) w
  have hq : Json.option? Json.text? (.option .text q) = some q :=
    Json.option?_option (g := Json.text) (fun _ => rfl) (fun _ => nofun) q
  show (do return ⟨← Json.option? Json.char? (.option .char w), ← Direction.ofJson? (.text d.name),
    ← Json.option? Json.text? (.option .text q)⟩ : Option Instruction) = _
  rw [hw, hq, d.ofJson?_name]
  rfl

theorem Row.ofJson?_toJson (row : Row) : Row.ofJson? row.toJson = some row :=
  Json.map?_object Json.char?_char Instruction.ofJson?_toJson row

theorem Table.ofJson?_toJson (t : Table) : Table.ofJson? t.toJson = some t := by
  have hrow (row : Option Row) :
      Json.option? Row.ofJson? (.option Row.toJson row) = some row :=
    Json.option?_option Row.ofJson?_toJson (fun _ => nofun) row
  have hname (q : String) : Json.text? (.text (id q)) = some q := rfl
  exact Json.map?_object hname hrow t

namespace Specification

theorem ofJson?_toJson (s : Specification) : ofJson? s.toJson = some s := by
  show (do return ⟨← Json.char? (.char s.blank), ← some s.startState,
    ← Table.ofJson? s.table.toJson,
    ← Json.list? Json.char? (.list (s.input.map .char))⟩ : Option Specification) = _
  rw [Json.char?_char, Table.ofJson?_toJson, Json.list?_list Json.char?_char]
  rfl

theorem toJson_inj {s s' : Specification} : s.toJson = s'.toJson ↔ s = s' := by
  refine ⟨fun h => ?_, congrArg toJson⟩
  have hread := s.ofJson?_toJson
  rw [h, s'.ofJson?_toJson] at hread
  exact (Option.some.inj hread).symm

/-- The specification with another entry for a state. -/
def withEntry (s : Specification) (q : String) (row : Option Row) : Specification :=
  { s with table := s.table.insert q row }

theorem withEntry_inj {s : Specification} {q : String} {row row' : Option Row} :
    s.withEntry q row = s.withEntry q row' ↔ row = row' := by
  refine ⟨fun h => ?_, congrArg (s.withEntry q)⟩
  have hget : (s.withEntry q row).table.get? q = (s.withEntry q row').table.get? q := by rw [h]
  rw [withEntry, withEntry, SortedMap.get?_insert, SortedMap.get?_insert, if_pos rfl, if_pos rfl]
    at hget
  exact Option.some.inj hget

/-- What is written is read as the specification that was written, and no two specifications are
written alike. So a halting state and one without instructions stay apart, and so do an instruction
that leaves out its target and one that names the state it is in. -/
theorem written_form_tells_apart (s : Specification) :
    ofJson? s.toJson = some s ∧ (∀ s', s'.toJson = s.toJson → s' = s) ∧
      (∀ q, (s.withEntry q none).toJson ≠ (s.withEntry q (some ∅)).toJson) ∧
      ∀ q (row : Row) c w d, (s.withEntry q (some (row.insert c ⟨w, d, none⟩))).toJson ≠
        (s.withEntry q (some (row.insert c ⟨w, d, some q⟩))).toJson := by
  refine ⟨s.ofJson?_toJson, fun s' => toJson_inj.1, fun q h => ?_, fun q row c w d h => ?_⟩
  · cases withEntry_inj.1 (toJson_inj.1 h)
  · have hrow := Option.some.inj (withEntry_inj.1 (toJson_inj.1 h))
    have hget := congrArg (SortedMap.get? · c) hrow
    simp [SortedMap.get?_insert] at hget

end Specification

end TuringTable
