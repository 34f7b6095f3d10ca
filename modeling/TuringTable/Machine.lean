import TuringTable.Specification
import TuringTable.Text.Quoted

/-!
# Running machines

A `Machine` is a specification with a state and a tape. Every operation answers the machine after
it together with an account of what happened: the transitions taken, a halt found, a reset.
Observers and the log are told from that account.
-/

namespace TuringTable

/-- Why a machine cannot be stepped. A computation that ends is no error. -/
inductive MachineError where
  | unknownState (state : String)
  | haltingState (state : String)
  | alreadyHalted (state : String) (symbol : Char)
deriving Repr, DecidableEq

def MachineError.message : MachineError → String
  | unknownState q => s!"Unknown state: {q}"
  | haltingState q => s!"State {q} is a halting state and cannot be stepped"
  | alreadyHalted q c =>
    s!"Machine already halted in state {q} reading " ++ Text.quoteChar c

inductive Step where
  | continued
  | halted
deriving Repr, DecidableEq

/-- The symbol whose instruction serves the symbols without one. -/
def wildcard : Char := '_'

/-- How many steps a run takes at most if nothing else is said. -/
def defaultStepLimit : Nat := 10000

inductive Happening where
  | moved (state : String) (symbol : Char) (transition : Transition)
  | halted (state : String) (symbol : Char) (steps : Nat)
  | wasReset (previous start : String)
deriving Repr, DecidableEq

namespace Happening

/-- The states before and after, if the state was set. -/
def change? : Happening → Option (String × String)
  | moved q _ t => some (q, t.nextState)
  | halted .. => none
  | wasReset p q => some (p, q)

def logLine? : Happening → Option String
  | moved q c t =>
    some (q ++ " " ++ Text.quoteChar c ++ " -> write " ++ Text.quoteChar t.write ++ ", move " ++
      String.singleton t.direction.letter ++ ", " ++ t.nextState)
  | halted q c n =>
    some (s!"Halted in state '{q}' reading " ++ Text.quoteChar c ++ s!" after {n} steps")
  | wasReset .. => none

end Happening

namespace Specification

/-- The instruction for a symbol: its own or else that of the wildcard. -/
def instruction? (row : Row) (c : Char) : Option Instruction :=
  (row.get? c).or (row.get? wildcard)

/-- What the table says in state `q` with `c` under the head; `none` if it says nothing. -/
def lookup (s : Specification) (q : String) (c : Char) :
    Except MachineError (Option Transition) :=
  match s.table.get? q with
  | none => .error (.unknownState q)
  | some none => .error (.haltingState q)
  | some (some row) => .ok ((instruction? row c).map (·.resolve q c))

end Specification

structure Machine where
  spec : Specification
  state : String
  tape : Tape
  steps : Nat
  /-- A step has found no instruction since the last reset. -/
  haltReported : Bool
  /-- The observers, first one first. -/
  observers : List String
deriving DecidableEq

/-- The machine after an operation, its result, and what happened, first thing first. -/
structure Outcome (α : Type) where
  machine : Machine
  result : α
  account : List Happening

namespace Machine

def ofSpec (s : Specification) : Machine :=
  ⟨s, s.startState, s.initialTape, 0, false, []⟩

/-- The transition that the table gives for the configuration. -/
def nextTransition (m : Machine) : Except MachineError (Option Transition) :=
  m.spec.lookup m.state m.tape.head

/-- No step is possible: nothing applies, or the state is halting or unknown. -/
def isHalted (m : Machine) : Bool :=
  match m.nextTransition with
  | .ok (some _) => false
  | _ => true

def apply (m : Machine) (t : Transition) : Machine :=
  { m with
    state := t.nextState
    tape := (m.tape.write t.write).move t.direction
    steps := m.steps + 1 }

/-- Takes one transition. Where none applies the machine halts, and stepping it again is an
error. -/
def step (m : Machine) : Outcome (Except MachineError Step) :=
  if m.haltReported then ⟨m, .error (.alreadyHalted m.state m.tape.head), []⟩
  else match m.nextTransition with
    | .error e => ⟨m, .error e, []⟩
    | .ok none =>
      ⟨{ m with haltReported := true }, .ok .halted, [.halted m.state m.tape.head m.steps]⟩
    | .ok (some t) => ⟨m.apply t, .ok .continued, [.moved m.state m.tape.head t]⟩

/-- Runs for `n` steps; `told` is what happened before, last thing first. -/
def runTelling (m : Machine) (told : List Happening) :
    Nat → Outcome (Except MachineError Step)
  | 0 => ⟨m, .ok .continued, told.reverse⟩
  | n + 1 =>
    if m.spec.isHaltingState m.state then ⟨m, .ok .halted, told.reverse⟩
    else
      let o := m.step
      let told := o.account.reverseAux told
      match o.result with
      | .ok .continued => o.machine.runTelling told n
      | r => ⟨o.machine, r, told.reverse⟩

/-- Steps until the machine halts or `n` transitions are taken. A declared halting state ends the
run and is never stepped. -/
def runFor (m : Machine) (n : Nat) : Outcome (Except MachineError Step) := m.runTelling [] n

def run (m : Machine) : Outcome (Except MachineError Step) := m.runFor defaultStepLimit

def reset (m : Machine) : Outcome Unit :=
  ⟨{ ofSpec m.spec with observers := m.observers }, (), [.wasReset m.state m.spec.startState]⟩

/-- Adds an observer, to be told of every change of state from now on. -/
def observe (m : Machine) (name : String) : Machine :=
  { m with observers := m.observers ++ [name] }

end Machine

/-- What one observer is told: its name, the state before and the state after. -/
structure Notice where
  observer : String
  previous : String
  current : String
deriving Repr, DecidableEq

namespace Outcome

/-- What the observers are told, all of them of each change before the next one. -/
def notices {α : Type} (o : Outcome α) : List Notice :=
  o.account.flatMap fun h =>
    match h.change? with
    | none => []
    | some (p, q) => o.machine.observers.map fun name => ⟨name, p, q⟩

def log {α : Type} (o : Outcome α) : List String := o.account.filterMap (·.logLine?)

end Outcome

end TuringTable
