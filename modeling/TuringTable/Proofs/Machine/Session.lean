import TuringTable.Proofs.Machine.Operation

/-!
# Sessions

A `Request` is what a caller can say to a machine: carry out an operation, or ask for something,
which changes nothing. The `transcript` is all that the caller gets to see. A reset forgets the past
(`transcript_reset`): the machine is a new one with the same observers.
-/

namespace TuringTable

/-- What can be read off a tape. -/
inductive Reading where
  | blank
  | head
  | offset (i : Int)
  | range (a b : Int)
  | cells
  | headIndex
  | position
  | text
deriving Repr, DecidableEq

/-- What a caller can say to a machine. -/
inductive Request where
  | perform (op : Operation)
  | lookup (state : String) (symbol : Char)
  | nextTransition
  | read (r : Reading)
deriving Repr, DecidableEq

/-- What a request is answered with. -/
inductive Answer where
  | done
  | ran (result : Except MachineError Step)
  | found (result : Except MachineError (Option Transition))
  | symbols (cs : List Char)
  | number (z : Int)
  | text (s : String)
deriving DecidableEq

/-- What a caller sees of a request: the answer, the machine after it and what observers were
told. -/
structure Response where
  answer : Answer
  state : String
  steps : Nat
  halted : Bool
  tape : Tape
  notices : List Notice
deriving DecidableEq

/-- The name of the observer that is added. -/
def Operation.observer? : Operation → Option String
  | .observe name => some name
  | _ => none

def Request.observer? : Request → Option String
  | .perform op => op.observer?
  | _ => none

def Tape.answer (t : Tape) : Reading → Answer
  | .blank => .symbols [t.blank]
  | .head => .symbols [t.head]
  | .offset i => .symbols [t.read i]
  | .range a b => .symbols (t.readRange a b)
  | .cells => .symbols t.cells
  | .headIndex => .number t.headIndex
  | .position => .number t.position
  | .text => .text t.text

def Outcome.response (o : Outcome Answer) : Response :=
  ⟨o.result, o.machine.state, o.machine.steps, o.machine.isHalted, o.machine.tape, o.notices⟩

namespace Machine

def answer (m : Machine) : Request → Outcome Answer
  | .perform op => (m.perform op).map fun result? => result?.elim .done .ran
  | .lookup q c => ⟨m, .found (m.spec.lookup q c), []⟩
  | .nextTransition => ⟨m, .found m.nextTransition, []⟩
  | .read r => ⟨m, m.tape.answer r, []⟩

/-- The machine after a sequence of requests. -/
def after (m : Machine) (rs : List Request) : Machine :=
  rs.foldl (fun m r => (m.answer r).machine) m

/-- What a caller sees of a sequence of requests. -/
def transcript (m : Machine) : List Request → List Response
  | [] => []
  | r :: rs => (m.answer r).response :: (m.answer r).machine.transcript rs

/-! ### Resets -/

theorem observers_step (m : Machine) : m.step.machine.observers = m.observers := by
  rcases m.step_cases with ⟨-, hs⟩ | ⟨e, -, -, hs⟩ | ⟨-, -, hs⟩ | ⟨t, -, -, hs⟩ <;>
    simp [hs, apply]

theorem observers_runFor (m : Machine) (n : Nat) : (m.runFor n).machine.observers = m.observers :=
  runFor_keeps (P := fun m' => m'.observers = m.observers)
    (fun m' h => m'.observers_step.trans h) n rfl

theorem observers_perform (m : Machine) (op : Operation) :
    (m.perform op).machine.observers = m.observers ++ op.observer?.toList := by
  have hrun (n : Nat) : (m.runFor n).machine.observers = m.observers ++ [] := by
    rw [observers_runFor, List.append_nil]
  cases op with
  | step => exact m.observers_step.trans (List.append_nil _).symm
  | run => exact hrun defaultStepLimit
  | runFor n => exact hrun n
  | reset => exact (List.append_nil _).symm
  | observe name => rfl

theorem spec_answer (m : Machine) (r : Request) : (m.answer r).machine.spec = m.spec := by
  cases r with
  | perform op => exact m.spec_performAll [op]
  | lookup q c => rfl
  | nextTransition => rfl
  | read r => rfl

theorem spec_after (m : Machine) (rs : List Request) : (m.after rs).spec = m.spec := by
  induction rs generalizing m with
  | nil => rfl
  | cons r rs ih => exact (ih (m.answer r).machine).trans (m.spec_answer r)

/-- The observers are those that were added, in the order in which they were. -/
theorem observers_after (m : Machine) (rs : List Request) :
    (m.after rs).observers = m.observers ++ rs.filterMap Request.observer? := by
  induction rs generalizing m with
  | nil => exact (List.append_nil _).symm
  | cons r rs ih =>
    have hr : (m.answer r).machine.observers = m.observers ++ r.observer?.toList := by
      cases r with
      | perform op => exact m.observers_perform op
      | lookup q c => exact (List.append_nil _).symm
      | nextTransition => exact (List.append_nil _).symm
      | read r => exact (List.append_nil _).symm
    show ((m.answer r).machine.after rs).observers = _
    rw [ih, hr, List.append_assoc]
    cases ho : r.observer? <;> simp [ho]

theorem foldl_observe (m : Machine) (names : List String) :
    names.foldl observe m = { m with observers := m.observers ++ names } := by
  induction names generalizing m with
  | nil => simp
  | cons name names ih =>
    rw [List.foldl_cons, ih]
    simp [observe]

/-- After a reset the machine is a new one to which the same observers were added, whatever was done
before. So nothing that follows tells the two apart. The latch is taken back, and another reset
changes nothing. -/
theorem transcript_reset (s : Specification) (past future : List Request) :
    let m := ((ofSpec s).after past).reset.machine
    let fresh := (past.filterMap Request.observer?).foldl observe (ofSpec s)
    m = fresh ∧ m.transcript future = fresh.transcript future ∧ m.haltReported = false ∧
      m.reset.machine = m := by
  intro m fresh
  have hs : ((ofSpec s).after past).spec = s := spec_after _ past
  have ho : ((ofSpec s).after past).observers = past.filterMap Request.observer? :=
    observers_after _ past
  -- a reset keeps only the specification and the observers
  have hm : m = { ofSpec s with observers := past.filterMap Request.observer? } := by
    show { ofSpec ((ofSpec s).after past).spec with
      observers := ((ofSpec s).after past).observers } = _
    rw [hs, ho]
  have hf : m = fresh := hm.trans (foldl_observe (ofSpec s) _).symm
  refine ⟨hf, by rw [hf], by rw [hm]; rfl, ?_⟩
  rw [hm]
  rfl

end Machine

end TuringTable
