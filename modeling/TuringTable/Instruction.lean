/-!
# Instructions

What a table cell says: the symbol to write, the move, the state to enter. A part left out means
"leave as it is"; `Instruction.resolve` fills it in from the state and the symbol read.
-/

namespace TuringTable

inductive Direction where
  | left
  | right
deriving Repr, DecidableEq

namespace Direction

/-- The letter that stands for a direction in documents and labels. -/
def letter : Direction → Char
  | left => 'L'
  | right => 'R'

/-- The word that stands for a direction in a written specification. -/
def name : Direction → String
  | left => "Left"
  | right => "Right"

/-- The step of the head's position. -/
def offset : Direction → Int
  | left => -1
  | right => 1

end Direction

/-- A table cell. `none` leaves the symbol, or the state, as it is. -/
structure Instruction where
  write : Option Char
  direction : Direction
  nextState : Option String
deriving Repr, DecidableEq

/-- A table cell with every part filled in. -/
structure Transition where
  write : Char
  direction : Direction
  nextState : String
deriving Repr, DecidableEq

namespace Instruction

/-- The instruction that only moves. -/
def move (d : Direction) : Instruction := ⟨none, d, none⟩

def withWrite (i : Instruction) (c : Char) : Instruction := { i with write := some c }

def withNextState (i : Instruction) (q : String) : Instruction := { i with nextState := some q }

/-- The state entered from `q`. -/
def target (i : Instruction) (q : String) : String := i.nextState.getD q

/-- What the instruction does in state `q` with `c` under the head. -/
def resolve (i : Instruction) (q : String) (c : Char) : Transition :=
  ⟨i.write.getD c, i.direction, i.target q⟩

end Instruction

end TuringTable
