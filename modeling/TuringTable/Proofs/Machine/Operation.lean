import Mathlib.Data.List.Induction
import TuringTable.Proofs.Machine.Step

/-!
# Operations on a machine

`performAll` carries out any sequence of operations. What steps, resets and observers keep every
sequence keeps (`performAll_keeps`). The halt latch tells the truth: it is set only if a step or a
run found no instruction and no reset came since (`haltFound_of_reported`).
-/

namespace TuringTable

/-- What a caller can do with a machine. -/
inductive Operation where
  | step
  | run
  | runFor (n : Nat)
  | reset
  | observe (name : String)
deriving Repr, DecidableEq

namespace Outcome

def map {α β : Type} (f : α → β) (o : Outcome α) : Outcome β := ⟨o.machine, f o.result, o.account⟩

end Outcome

namespace Machine

/-- What an operation comes to. Only steps and runs have a result. -/
def perform (m : Machine) : Operation → Outcome (Option (Except MachineError Step))
  | .step => m.step.map some
  | .run => m.run.map some
  | .runFor n => (m.runFor n).map some
  | .reset => m.reset.map fun _ => none
  | .observe name => ⟨m.observe name, none, []⟩

/-- The machine after a sequence of operations. -/
def performAll (m : Machine) (ops : List Operation) : Machine :=
  ops.foldl (fun m op => (m.perform op).machine) m

theorem performAll_concat (m : Machine) (ops : List Operation) (op : Operation) :
    m.performAll (ops ++ [op]) = ((m.performAll ops).perform op).machine := by
  rw [performAll, List.foldl_append]
  rfl

/-- What steps, resets and observers keep every sequence of operations keeps. -/
theorem performAll_keeps {P : Machine → Prop} (hstep : ∀ m, P m → P m.step.machine)
    (hreset : ∀ m, P m → P m.reset.machine) (hobserve : ∀ m name, P m → P (m.observe name))
    {m : Machine} (h : P m) (ops : List Operation) : P (m.performAll ops) := by
  induction ops generalizing m with
  | nil => exact h
  | cons op ops ih =>
    refine ih ?_
    cases op with
    | step => exact hstep m h
    | run => exact runFor_keeps hstep _ h
    | runFor n => exact runFor_keeps hstep n h
    | reset => exact hreset m h
    | observe name => exact hobserve m name h

theorem spec_step (m : Machine) : m.step.machine.spec = m.spec := by
  rcases m.step_cases with ⟨-, hs⟩ | ⟨e, -, -, hs⟩ | ⟨-, -, hs⟩ | ⟨t, -, -, hs⟩ <;> simp [hs, apply]

/-- No operation changes the specification. -/
theorem spec_performAll (m : Machine) (ops : List Operation) : (m.performAll ops).spec = m.spec :=
  performAll_keeps (P := fun m' => m'.spec = m.spec) (fun m' h => m'.spec_step.trans h)
    (fun _ h => h) (fun _ _ h => h) rfl ops

/-! ### The halt latch -/

/-- Among the operations a step or a run ended because it found no instruction, and no reset came
after it. -/
def HaltFound (m : Machine) (ops : List Operation) : Prop :=
  ∃ before op since, ops = before ++ op :: since ∧ Operation.reset ∉ since ∧
    ((m.performAll before).perform op).result = some (.ok .halted) ∧
    (m.performAll (before ++ [op])).nextTransition = .ok none

theorem HaltFound.concat {m : Machine} {ops : List Operation} {op : Operation}
    (h : m.HaltFound ops) (hop : op ≠ .reset) : m.HaltFound (ops ++ [op]) := by
  obtain ⟨before, o, since, rfl, hs, hr, hn⟩ := h
  refine ⟨before, o, since ++ [op], by simp, ?_, hr, hn⟩
  simp [hs, hop.symm]

/-- A step sets the latch only by finding no instruction. -/
theorem step_reported {m : Machine} (h : m.step.machine.haltReported = true) :
    m.haltReported = true ∨
      m.step.result = .ok .halted ∧ m.step.machine.nextTransition = .ok none := by
  rcases m.step_cases with ⟨hr, -⟩ | ⟨e, -, -, hs⟩ | ⟨-, hn, hs⟩ | ⟨t, -, -, hs⟩
  · exact .inl hr
  · rw [hs] at h
    exact .inl h
  · rw [hs]
    exact .inr ⟨rfl, hn⟩
  · rw [hs] at h
    exact .inl h

theorem runFor_reported {m : Machine} {n : Nat} (h : (m.runFor n).machine.haltReported = true) :
    m.haltReported = true ∨
      (m.runFor n).result = .ok .halted ∧ (m.runFor n).machine.nextTransition = .ok none := by
  revert h
  refine runFor_induction (motive := fun m _ o => o.machine.haltReported = true →
    m.haltReported = true ∨ o.result = .ok .halted ∧ o.machine.nextTransition = .ok none)
    ?_ ?_ ?_ ?_ m n
  · exact fun m h => .inl h
  · exact fun m n _ h => .inl h
  · intro m n _ hs ih h
    rcases ih h with hr | hr
    · rcases step_reported hr with hr | ⟨hr, -⟩
      · exact .inl hr
      · rw [hs] at hr
        cases hr
    · exact .inr hr
  · exact fun m n _ _ h => step_reported h

/-- An operation sets the latch only by finding no instruction, and a reset takes it back. -/
theorem perform_reported {m : Machine} {op : Operation}
    (h : (m.perform op).machine.haltReported = true) :
    m.haltReported = true ∧ op ≠ .reset ∨
      (m.perform op).result = some (.ok .halted) ∧
        (m.perform op).machine.nextTransition = .ok none := by
  cases op with
  | step =>
    rcases step_reported h with hr | ⟨hr, hn⟩
    · exact .inl ⟨hr, by simp⟩
    · exact .inr ⟨congrArg some hr, hn⟩
  | run =>
    rcases runFor_reported h with hr | ⟨hr, hn⟩
    · exact .inl ⟨hr, by simp⟩
    · exact .inr ⟨congrArg some hr, hn⟩
  | runFor n =>
    rcases runFor_reported h with hr | ⟨hr, hn⟩
    · exact .inl ⟨hr, by simp⟩
    · exact .inr ⟨congrArg some hr, hn⟩
  | reset => cases h
  | observe name => exact .inl ⟨h, by simp⟩

/-- The latch is set only if a halt was found and no reset came since. -/
theorem haltFound_of_reported {m : Machine} (hm : m.haltReported = false) {ops : List Operation}
    (h : (m.performAll ops).haltReported = true) : m.HaltFound ops := by
  -- from the last operation backwards: it found the halt, or the ones before it did
  induction ops using List.reverseRecOn with
  | nil => exact absurd (hm.symm.trans h) Bool.false_ne_true
  | append_singleton ops op ih =>
    rw [performAll_concat] at h
    rcases perform_reported h with ⟨hr, hop⟩ | ⟨hr, hn⟩
    · exact (ih hr).concat hop
    · refine ⟨ops, op, [], rfl, List.not_mem_nil, hr, ?_⟩
      rw [performAll_concat]
      exact hn

end Machine

end TuringTable
