import TuringTable.Analysis
import TuringTable.Document

/-!
# The faults of a document

All that is wrong with a document, each fault with its place, in the order in which faults count:
the fields `blank`, `start state`, `input`, `synonyms` and `table` one after the other, the entries
of a mapping as they are written, in an entry the name or the key before the value. A part that
cannot be taken apart at all has that one fault. `Specification.faults` are the faults of the whole
table, for a document that has none. The kind of a fault decides what is known of its place
(`Defect.Lies`, `lies_of_mem_faults`).
-/

namespace TuringTable

open Yaml (Value)

/-! ### Places -/

namespace Place

def ofSynonym (name : String) : Place := ⟨none, none, some name⟩

def ofState (q : String) : Place := ⟨some q, none, none⟩

def ofCell (q label : String) : Place := ⟨some q, some label, none⟩

end Place

namespace Document

/-- The defect if there is none of what is wanted. -/
def absent {α : Type} (x : Option α) (d : Defect) : List Defect := if x.isSome then [] else [d]

/-! ### Instructions -/

/-- What the last entry with the name says. -/
def part? (ps : List (Value × Value)) (name : String) : Option Value :=
  (ps.reverse.find? fun e => e.1.string? = some name).map (·.2)

/-- A key that names no part of an instruction. -/
def isForeign (key : Value) : Bool :=
  !(key.string? = some "L" || key.string? = some "R" || key.string? = some "write")

def targetFaults (v : Value) : List Defect :=
  match v.untag with
  | .null => []
  | _ => absent v.text? (.invalidTargetState v.typeName)

def writeFaults (v : Value) : List Defect := absent (symbol? v) (.invalidWriteLength v.describe)

/-- Two directions or none, a bad target, a bad symbol to write, keys that name no part; in this
order, whatever the order of the keys is. -/
def objectFaults (ps : List (Value × Value)) : List Defect :=
  let left := part? ps "L"
  let right := part? ps "R"
  (if left.isSome && right.isSome then [.conflictingDirections] else []) ++
    (if left.isNone && right.isNone then [.missingDirection] else []) ++
    (left.toList ++ right.toList).flatMap targetFaults ++
    (part? ps "write").toList.flatMap writeFaults ++
    (ps.filter fun e => isForeign e.1).map fun e => .unrecognizedKey e.1.describe

/-- What is wrong with an instruction where the synonyms have the given names. -/
def instructionFaults (names : List String) (v : Value) : List Defect :=
  match v.untag with
  | .null => [.missingInstruction]
  | .string s => if s = "L" ∨ s = "R" ∨ s ∈ names then [] else [.unrecognizedSynonym s]
  | .mapping ps => objectFaults ps
  | _ => [.invalidInstructionType v.typeName]

/-! ### Fields -/

def blankFaults : Option Value → List Defect
  | none | some .null => [.missingBlank]
  | some v => absent (symbol? v) (.invalidBlank v.describe)

def startStateFaults : Option Value → List Defect
  | none | some .null => [.missingStartState]
  | some v => absent v.text? (.invalidStartState v.typeName)

def inputFaults : Option Value → List Defect
  | none | some .null => []
  | some v =>
    match v.untag with
    | .sequence items => items.flatMap fun x => absent (symbol? x) (.invalidInput x.describe)
    | _ => absent v.text? (.invalidInput v.describe)

/-- The name has no place, what is wrong with the value lies at the name. -/
def synonymFaults (e : Value × Value) : List SpecError :=
  e.1.text?.elim [.of (.invalidName e.1.describe)] fun name =>
    (instructionFaults [] e.2).map (⟨·, .ofSynonym name⟩)

def synonymsFaults : Option Value → List SpecError
  | none | some .null => []
  | some v => v.entries?.elim [.of (.invalidSynonymsType v.typeName)] (·.flatMap synonymFaults)

/-- The synonyms as they are written, if there are any. -/
def synonymEntries (es : List (Value × Value)) : List (Value × Value) :=
  ((Value.lookup "synonyms" es).bind Value.entries?).getD []

theorem synonymEntries_eq {es ps : List (Value × Value)} {v : Value}
    (hv : Value.lookup "synonyms" es = some v) (hps : v.entries? = some ps) :
    synonymEntries es = ps := by
  rw [synonymEntries, hv, Option.bind_some, hps, Option.getD_some]

theorem exists_of_mem_synonymEntries {es : List (Value × Value)} {e : Value × Value}
    (h : e ∈ synonymEntries es) :
    ∃ v, Value.lookup "synonyms" es = some v ∧ v.entries? = some (synonymEntries es) := by
  cases hps : (Value.lookup "synonyms" es).bind Value.entries? with
  | none =>
    rw [synonymEntries, hps] at h
    cases h
  | some ps =>
    obtain ⟨v, hv, hps⟩ := Option.bind_eq_some_iff.1 hps
    exact ⟨v, hv, synonymEntries_eq hv hps ▸ hps⟩

/-- The names that are given to synonyms, whether or not their values are instructions. -/
def synonymNames (es : List (Value × Value)) : List String :=
  (synonymEntries es).filterMap (·.1.text?)

/-- A text of more than one character is taken apart at the commas. -/
def symbolFaults (key : Value) : List Defect :=
  match key.untag with
  | .sequence items => items.flatMap fun x => absent (symbol? x) (.invalidSymbol x.describe)
  | _ => key.text?.elim [.invalidSymbol key.describe] fun s =>
    if s.toList.length = 1 then []
    else ((s.toList.splitOn ',').filter (·.length ≠ 1)).map fun p => .invalidSymbol (.ofList p)

/-- All that is wrong with a cell of `q` lies at its key. -/
def cellFaults (names : List String) (q : String) (e : Value × Value) : List SpecError :=
  (symbolFaults e.1 ++ instructionFaults names e.2).map (⟨·, .ofCell q e.1.describe⟩)

def entryFaults (names : List String) (q : String) (v : Value) : List SpecError :=
  match v.untag with
  | .null => []
  | .mapping cells => cells.flatMap (cellFaults names q)
  | _ => [⟨.invalidStateEntryType v.typeName, .ofState q⟩]

def stateFaults (names : List String) (e : Value × Value) : List SpecError :=
  e.1.text?.elim [.of (.invalidName e.1.describe)] fun q => entryFaults names q e.2

def tableFaults (names : List String) : Option Value → List SpecError
  | none | some .null => [.of .missingTable]
  | some v =>
    v.entries?.elim [.of (.invalidTableType v.typeName)] (·.flatMap (stateFaults names))

/-- All that is wrong with a document, what counts first first. -/
def faults (document : Value) : List SpecError :=
  document.entries?.elim [.of .emptyDocument] fun es =>
    (blankFaults (Value.lookup "blank" es) ++ startStateFaults (Value.lookup "start state" es) ++
        inputFaults (Value.lookup "input" es)).map .of ++
      synonymsFaults (Value.lookup "synonyms" es) ++
      tableFaults (synonymNames es) (Value.lookup "table" es)

end Document

namespace Specification

/-- A cell is at fault if its target is not declared. -/
def cellFaults (s : Specification) (cell : String × Char × Instruction) : List SpecError :=
  (cell.2.2.nextState.filter fun t => !s.declares t).toList.map fun t =>
    ⟨.undeclaredState t, .ofCell cell.1 (String.singleton cell.2.1)⟩

/-- The targets that are not declared, by state and symbol of their cells, and then the start
state. -/
def faults (s : Specification) : List SpecError :=
  s.table.cells.flatMap s.cellFaults ++
    if s.declares s.startState then [] else [.of (.undeclaredStartState s.startState)]

end Specification

/-! ### Where faults lie -/

namespace Defect

/-- What can be wrong with an instruction, in a cell or as the value of a synonym. -/
def isOfInstruction : Defect → Bool
  | missingInstruction | invalidInstructionType _ | unrecognizedSynonym _ | conflictingDirections
  | missingDirection | unrecognizedKey _ | invalidWriteLength _ | invalidTargetState _ => true
  | _ => false

/-- Nothing is known of the place of a field, of a bad name and of the start state. -/
def Lies (d : Defect) (p : Place) : Prop :=
  match d with
  | invalidStateEntryType _ => ∃ q, p = .ofState q
  | invalidSymbol _ | undeclaredState _ => ∃ q label, p = .ofCell q label
  | d => if d.isOfInstruction then (∃ name, p = .ofSynonym name) ∨ ∃ q label, p = .ofCell q label
    else p = .unknown

theorem lies_of_isOfInstruction {d : Defect} {p : Place} (h : d.isOfInstruction = true)
    (hp : (∃ name, p = .ofSynonym name) ∨ ∃ q label, p = .ofCell q label) : d.Lies p := by
  cases d <;> first | exact hp | cases h

end Defect

namespace Document

section All
variable {α : Type}

theorem forall_mem_absent {P : Defect → Prop} {d : Defect} (h : P d) (x : Option α) :
    ∀ d' ∈ absent x d, P d' := by
  cases x <;> simp [absent, h]

theorem forall_mem_elim {P : SpecError → Prop} {e : SpecError} {f : α → List SpecError}
    (he : P e) (hf : ∀ a, ∀ e' ∈ f a, P e') (x : Option α) : ∀ e' ∈ x.elim [e] f, P e' := by
  cases x with
  | none => exact List.forall_mem_singleton.2 he
  | some a => exact hf a

end All

theorem isOfInstruction_of_mem_objectFaults (ps : List (Value × Value)) :
    ∀ d ∈ objectFaults ps, d.isOfInstruction = true := by
  have htarget (v : Value) : ∀ d ∈ targetFaults v, d.isOfInstruction = true := by
    rw [targetFaults]
    split
    · exact List.forall_mem_nil _
    · exact forall_mem_absent (by rfl) _
  rw [objectFaults, List.forall_mem_append, List.forall_mem_append, List.forall_mem_append,
    List.forall_mem_append]
  refine ⟨⟨⟨⟨?_, ?_⟩, List.forall_mem_flatMap.2 fun v _ => htarget v⟩,
    List.forall_mem_flatMap.2 fun v _ => forall_mem_absent (by rfl) _⟩,
    List.forall_mem_map.2 fun k _ => rfl⟩
  · split
    · exact List.forall_mem_singleton.2 rfl
    · exact List.forall_mem_nil _
  · split
    · exact List.forall_mem_singleton.2 rfl
    · exact List.forall_mem_nil _

theorem isOfInstruction_of_mem (names : List String) (v : Value) :
    ∀ d ∈ instructionFaults names v, d.isOfInstruction = true := by
  rw [instructionFaults]
  split
  · exact List.forall_mem_singleton.2 rfl
  · split
    · exact List.forall_mem_nil _
    · exact List.forall_mem_singleton.2 rfl
  · exact isOfInstruction_of_mem_objectFaults _
  · exact List.forall_mem_singleton.2 rfl

theorem lies_of_mem_symbolFaults (key : Value) (q label : String) :
    ∀ d ∈ symbolFaults key, d.Lies (.ofCell q label) := by
  rw [symbolFaults]
  split
  · exact List.forall_mem_flatMap.2 fun x _ => forall_mem_absent ⟨q, label, rfl⟩ _
  · cases key.text? with
    | none => exact List.forall_mem_singleton.2 ⟨q, label, rfl⟩
    | some s =>
      rw [Option.elim_some]
      split
      · exact List.forall_mem_nil _
      · exact List.forall_mem_map.2 fun p _ => ⟨q, label, rfl⟩

theorem lies_of_mem_blankFaults (v? : Option Value) :
    ∀ d ∈ blankFaults v?, d.Lies .unknown := by
  rw [blankFaults.eq_def]
  split
  · exact List.forall_mem_singleton.2 rfl
  · exact List.forall_mem_singleton.2 rfl
  · exact forall_mem_absent (by rfl) _

theorem lies_of_mem_startStateFaults (v? : Option Value) :
    ∀ d ∈ startStateFaults v?, d.Lies .unknown := by
  rw [startStateFaults.eq_def]
  split
  · exact List.forall_mem_singleton.2 rfl
  · exact List.forall_mem_singleton.2 rfl
  · exact forall_mem_absent (by rfl) _

theorem lies_of_mem_inputFaults (v? : Option Value) :
    ∀ d ∈ inputFaults v?, d.Lies .unknown := by
  rw [inputFaults.eq_def]
  split
  · exact List.forall_mem_nil _
  · exact List.forall_mem_nil _
  · split
    · exact List.forall_mem_flatMap.2 fun x _ => forall_mem_absent (by rfl) _
    · exact forall_mem_absent (by rfl) _

theorem lies_of_mem_synonymsFaults (v? : Option Value) :
    ∀ e ∈ synonymsFaults v?, e.defect.Lies e.place := by
  rw [synonymsFaults.eq_def]
  split
  · exact List.forall_mem_nil _
  · exact List.forall_mem_nil _
  · refine forall_mem_elim (by rfl) (fun ps => List.forall_mem_flatMap.2 fun k _ => ?_) _
    refine forall_mem_elim (by rfl) (fun name => List.forall_mem_map.2 fun d hd => ?_) _
    exact Defect.lies_of_isOfInstruction (isOfInstruction_of_mem [] k.2 d hd) (.inl ⟨name, rfl⟩)

theorem lies_of_mem_cellFaults (names : List String) (q : String) (cell : Value × Value) :
    ∀ e ∈ cellFaults names q cell, e.defect.Lies e.place := by
  rw [cellFaults, List.map_append, List.forall_mem_append]
  constructor
  · exact List.forall_mem_map.2 (lies_of_mem_symbolFaults cell.1 q cell.1.describe)
  · refine List.forall_mem_map.2 fun d hd => ?_
    exact Defect.lies_of_isOfInstruction (isOfInstruction_of_mem names cell.2 d hd)
      (.inr ⟨q, cell.1.describe, rfl⟩)

theorem lies_of_mem_tableFaults (names : List String) (v? : Option Value) :
    ∀ e ∈ tableFaults names v?, e.defect.Lies e.place := by
  rw [tableFaults.eq_def]
  split
  · exact List.forall_mem_singleton.2 rfl
  · exact List.forall_mem_singleton.2 rfl
  · refine forall_mem_elim (by rfl) (fun es => List.forall_mem_flatMap.2 fun k _ => ?_) _
    refine forall_mem_elim (by rfl) (fun q => ?_) _
    rw [entryFaults]
    split
    · exact List.forall_mem_nil _
    · exact List.forall_mem_flatMap.2 fun cell _ => lies_of_mem_cellFaults names q cell
    · exact List.forall_mem_singleton.2 ⟨q, rfl⟩

/-- Every fault of a document lies where its kind does. -/
theorem lies_of_mem_faults (document : Value) : ∀ e ∈ faults document, e.defect.Lies e.place := by
  refine forall_mem_elim (by rfl) (fun es => ?_) _
  simp only [List.forall_mem_append, List.forall_mem_map]
  exact ⟨⟨⟨⟨lies_of_mem_blankFaults _, lies_of_mem_startStateFaults _⟩, lies_of_mem_inputFaults _⟩,
    lies_of_mem_synonymsFaults _⟩, lies_of_mem_tableFaults _ _⟩

end Document

theorem Specification.lies_of_mem_faults (s : Specification) :
    ∀ e ∈ s.faults, e.defect.Lies e.place := by
  rw [faults, List.forall_mem_append]
  constructor
  · refine List.forall_mem_flatMap.2 fun cell _ => List.forall_mem_map.2 fun t _ => ?_
    exact ⟨cell.1, String.singleton cell.2.1, rfl⟩
  · split
    · exact List.forall_mem_nil _
    · exact List.forall_mem_singleton.2 rfl

end TuringTable
