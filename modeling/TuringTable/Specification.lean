import TuringTable.Instruction
import TuringTable.SortedMap
import TuringTable.Tape

/-!
# Specifications

A machine as data: blank, start state, table and input. A state's entry in the table is `none` if
the state is declared halting, and otherwise a row of instructions, which may be empty.
-/

namespace TuringTable

/-- The instructions of one state, by the symbol read. -/
abbrev Row := SortedMap Char Instruction

/-- The states and their rows; `none` declares a halting state. -/
abbrev Table := SortedMap String (Option Row)

/-- A machine as data. Nothing says here that the states it names are declared. -/
structure Specification where
  blank : Char
  startState : String
  table : Table
  input : List Char
deriving DecidableEq

namespace Table

/-- Every cell of the table with its state, by state and then by symbol. -/
def cells (t : Table) : List (String × Char × Instruction) :=
  t.entries.flatMap fun (q, row) =>
    (row.elim [] (·.entries)).map fun (c, i) => (q, c, i)

theorem mem_cells_iff (t : Table) {q : String} {c : Char} {i : Instruction} :
    (q, c, i) ∈ t.cells ↔ ∃ row, t.get? q = some (some row) ∧ row.get? c = some i := by
  simp only [cells, List.mem_flatMap, List.mem_map, Prod.exists, SortedMap.get?_eq_some_iff_mem]
  constructor
  · rintro ⟨q', row?, hq, c', i', hi, h⟩
    obtain ⟨rfl, rfl, rfl⟩ := h
    cases row? with
    | none => cases hi
    | some row => exact ⟨row, hq, hi⟩
  · rintro ⟨row, hq, hi⟩
    exact ⟨q, some row, hq, c, i, hi, rfl⟩

end Table

namespace Specification

/-- The number of declared states. -/
def stateCount (s : Specification) : Nat := s.table.size

/-- The number of cells of the table. -/
def transitionCount (s : Specification) : Nat := s.table.cells.length

/-- A state declared without a row. -/
def isHaltingState (s : Specification) (q : String) : Bool :=
  s.table.get? q == some none

def initialTape (s : Specification) : Tape := .ofInput s.blank s.input

def withInput (s : Specification) (cs : List Char) : Specification := { s with input := cs }

end Specification

end TuringTable
