import Mathlib.Algebra.Group.Int.Defs
import Mathlib.Algebra.Group.Nat.Defs
import Mathlib.Data.List.Induction
import TuringTable.Proofs.Machine.Operation
import TuringTable.Proofs.Tape.Extent

/-!
# Counters and the size of the tape

A transition moves the head by one cell and counts as one step, so everything that a machine counts
stays within the steps since the last reset: the position, the index of the head, the cells that
were added (`Tape.Within`, kept by every operation). The `history` of a machine is all that happened
to it; its position and its steps can be read off the part since the last reset (`Counts`). So can
what counters of 64 bits hold, up to a multiple of 2⁶⁴ (`Registers.after_eq`), and as long as fewer
than 2⁶³ transitions came since, that is the position and the number of steps themselves.
-/

namespace TuringTable

namespace Tape
variable {t : Tape} {n k : Nat}

/-! ### Moves and the size of the tape -/

theorem position_move (t : Tape) (d : Direction) : (t.move d).position = t.position + d.offset := by
  cases d <;> rfl

theorem headIndex_moveLeft (t : Tape) : t.moveLeft.headIndex = t.headIndex - 1 := Array.size_pop

theorem headIndex_moveRight (h : t.after ≠ #[]) : t.moveRight.headIndex = t.headIndex + 1 :=
  size_before_moveRight h

theorem length_cells_write (h : t.after ≠ #[]) (c : Char) :
    (t.write c).cells.length = t.cells.length := by
  have hsize := Array.size_pos_iff.2 h
  rw [length_cells, length_cells, after_write, Array.size_push, Array.size_pop,
    show (t.write c).before = t.before from rfl]
  omega

theorem length_cells_moveLeft_le (t : Tape) : t.moveLeft.cells.length ≤ t.cells.length + 1 := by
  rw [length_cells, length_cells, moveLeft, Array.size_push, Array.size_pop]
  omega

theorem length_cells_moveRight_le (h : t.after ≠ #[]) :
    t.moveRight.cells.length ≤ t.cells.length + 1 := by
  have hsize := Array.size_pos_iff.2 h
  rw [length_cells, length_cells, size_before_moveRight h, size_after_moveRight]
  omega

/-- What `n` moves make of a tape that had `k` cells. -/
structure Within (n k : Nat) (t : Tape) : Prop where
  natAbs_position_le : t.position.natAbs ≤ n
  parity : t.position % 2 = (n : Int) % 2
  position_le_headIndex : t.position ≤ t.headIndex
  headIndex_le : t.headIndex ≤ n
  length_cells_le : t.cells.length ≤ k + n
  headed : t.after ≠ #[]

theorem within_ofInput (b : Char) (cs : List Char) : (ofInput b cs).Within 0 (max cs.length 1) := by
  refine ⟨Nat.le_refl 0, rfl, Int.le_refl 0, Nat.le_refl 0, ?_, after_ofInput_ne b cs⟩
  cases cs with
  | nil => exact Nat.le_refl 1
  | cons c cs => simp [length_cells, ofInput]

namespace Within

theorem write (h : t.Within n k) (c : Char) : (t.write c).Within n k := by
  have hlength := h.length_cells_le
  rw [← length_cells_write h.headed c] at hlength
  exact ⟨h.natAbs_position_le, h.parity, h.position_le_headIndex, h.headIndex_le, hlength,
    t.after_write_ne c⟩

theorem move (h : t.Within n k) (d : Direction) : (t.move d).Within (n + 1) k := by
  have hposition := t.position_move d
  obtain ⟨habs, hparity, hle, hindex, hlength, hne⟩ := h
  cases d with
  | left =>
    -- at the first cell the position goes down and the index of the head stays
    have hhead : (t.move .left).headIndex = t.headIndex - 1 := t.headIndex_moveLeft
    have hcells : (t.move .left).cells.length ≤ _ := t.length_cells_moveLeft_le
    rw [Direction.offset] at hposition
    exact ⟨by omega, by omega, by omega, by omega, by omega, t.after_moveLeft_ne⟩
  | right =>
    have hhead : (t.move .right).headIndex = t.headIndex + 1 := headIndex_moveRight hne
    have hcells : (t.move .right).cells.length ≤ _ := length_cells_moveRight_le hne
    rw [Direction.offset] at hposition
    exact ⟨by omega, by omega, by omega, by omega, by omega, t.after_moveRight_ne⟩

end Within

end Tape

/-! ### What happened since the last reset -/

namespace Happening

def transition? : Happening → Option Transition
  | moved _ _ t => some t
  | halted .. => none
  | wasReset .. => none

def isReset : Happening → Bool
  | wasReset .. => true
  | _ => false

/-- The transitions since the last reset, last one first. -/
def sinceReset (hs : List Happening) : List Transition :=
  (hs.reverse.takeWhile (!·.isReset)).filterMap transition?

/-- How far the transitions take the head to the right. -/
def displacement : List Transition → Int
  | [] => 0
  | t :: ts => t.direction.offset + displacement ts

section Concat
variable (hs : List Happening) (q : String) (c : Char)

theorem sinceReset_moved (t : Transition) :
    sinceReset (hs ++ [moved q c t]) = t :: sinceReset hs := by
  rw [sinceReset, List.reverse_append]
  rfl

theorem sinceReset_halted (n : Nat) : sinceReset (hs ++ [halted q c n]) = sinceReset hs := by
  rw [sinceReset, List.reverse_append]
  rfl

theorem sinceReset_wasReset (q' : String) : sinceReset (hs ++ [wasReset q q']) = [] := by
  rw [sinceReset, List.reverse_append]
  rfl

end Concat

theorem natAbs_displacement_le (ts : List Transition) : (displacement ts).natAbs ≤ ts.length := by
  induction ts with
  | nil => exact Nat.le_refl 0
  | cons t ts ih =>
    have ht : t.direction.offset.natAbs = 1 := by cases t.direction <;> rfl
    rw [displacement, List.length_cons]
    omega

end Happening

open Happening (sinceReset displacement)

namespace Machine
variable {m : Machine} {hs : List Happening}

/-- All that happens during a sequence of operations. -/
def history (m : Machine) : List Operation → List Happening
  | [] => []
  | op :: ops => (m.perform op).account ++ (m.perform op).machine.history ops

/-- The machine counts what happened since the last reset. -/
structure Counts (hs : List Happening) (m : Machine) : Prop where
  steps : m.steps = (sinceReset hs).length
  position : m.tape.position = displacement (sinceReset hs)

namespace Counts

theorem apply (h : m.Counts hs) (q : String) (c : Char) (t : Transition) :
    (m.apply t).Counts (hs ++ [.moved q c t]) := by
  constructor
  · show m.steps + 1 = _
    rw [Happening.sinceReset_moved, List.length_cons, h.steps]
  · show ((m.tape.write t.write).move t.direction).position = _
    rw [Happening.sinceReset_moved, Happening.displacement, Tape.position_move, Int.add_comm,
      ← h.position]
    rfl

theorem step (h : m.Counts hs) : m.step.machine.Counts (hs ++ m.step.account) := by
  rcases m.step_cases with ⟨-, hs'⟩ | ⟨e, -, -, hs'⟩ | ⟨-, -, hs'⟩ | ⟨t, -, -, hs'⟩ <;> rw [hs']
  · rwa [List.append_nil]
  · rwa [List.append_nil]
  · constructor <;> rw [Happening.sinceReset_halted]
    exacts [h.steps, h.position]
  · exact h.apply _ _ t

theorem runFor (h : m.Counts hs) (n : Nat) :
    (m.runFor n).machine.Counts (hs ++ (m.runFor n).account) := by
  revert h
  refine runFor_induction (motive := fun m _ o => ∀ {hs}, m.Counts hs →
    o.machine.Counts (hs ++ o.account)) ?_ ?_ ?_ ?_ m n
  · intro m hs h
    rwa [List.append_nil]
  · intro m n _ hs h
    rwa [List.append_nil]
  · intro m n _ _ ih hs h
    have := ih h.step
    rwa [List.append_assoc] at this
  · exact fun m n _ _ hs h => h.step

theorem perform (h : m.Counts hs) (op : Operation) :
    (m.perform op).machine.Counts (hs ++ (m.perform op).account) := by
  cases op with
  | step => exact h.step
  | run => exact h.runFor defaultStepLimit
  | runFor n => exact h.runFor n
  | reset =>
    show m.reset.machine.Counts (hs ++ [.wasReset m.state m.spec.startState])
    constructor <;> rw [Happening.sinceReset_wasReset] <;> rfl
  | observe name =>
    show (m.observe name).Counts (hs ++ [])
    rw [List.append_nil]
    exact ⟨h.steps, h.position⟩

theorem performAll (h : m.Counts hs) (ops : List Operation) :
    (m.performAll ops).Counts (hs ++ m.history ops) := by
  induction ops generalizing m hs with
  | nil => rwa [history, List.append_nil]
  | cons op ops ih =>
    rw [history, ← List.append_assoc]
    exact ih (h.perform op)

end Counts

theorem counts_ofSpec (s : Specification) : (ofSpec s).Counts [] := ⟨rfl, rfl⟩

/-! ### Bounds that every operation keeps -/

/-- The tape is within the steps since it was new, when it had a cell for each symbol of the input,
or one if there is none. -/
def Bounded (m : Machine) : Prop := m.tape.Within m.steps (max m.spec.input.length 1)

theorem bounded_ofSpec (s : Specification) : (ofSpec s).Bounded :=
  Tape.within_ofInput s.blank s.input

theorem Bounded.step (h : m.Bounded) : m.step.machine.Bounded := by
  rcases m.step_cases with ⟨-, hs⟩ | ⟨e, -, -, hs⟩ | ⟨-, -, hs⟩ | ⟨t, -, -, hs⟩ <;> rw [hs]
  · exact h
  · exact h
  · exact h
  · exact (Tape.Within.write h t.write).move t.direction

theorem Bounded.performAll (h : m.Bounded) (ops : List Operation) : (m.performAll ops).Bounded :=
  performAll_keeps (fun _ h => h.step) (fun m _ => bounded_ofSpec m.spec) (fun _ _ h => h) h ops

end Machine

/-! ### Counters of 64 bits -/

/-- The position and the number of steps in 64 bits each. -/
structure Registers where
  position : Int64
  steps : UInt64
deriving Repr, DecidableEq

namespace Registers

/-- Counting on goes around at the ends of what 64 bits hold. -/
def count (r : Registers) : Happening → Registers
  | .moved _ _ t =>
    match t.direction with
    | .left => ⟨r.position - 1, r.steps + 1⟩
    | .right => ⟨r.position + 1, r.steps + 1⟩
  | .halted .. => r
  | .wasReset .. => ⟨0, 0⟩

def after (hs : List Happening) : Registers := hs.foldl count ⟨0, 0⟩

/-- One of the two would have to hold what 64 bits do not. -/
def Overflows (r : Registers) : Happening → Prop
  | .moved _ _ t =>
    r.position.toInt + t.direction.offset < -2 ^ 63 ∨
      2 ^ 63 ≤ r.position.toInt + t.direction.offset ∨ 2 ^ 64 ≤ r.steps.toNat + 1
  | _ => False

theorem after_eq (hs : List Happening) :
    after hs = ⟨.ofInt (displacement (sinceReset hs)), .ofNat (sinceReset hs).length⟩ := by
  induction hs using List.reverseRecOn with
  | nil => rfl
  | append_singleton hs h ih =>
    rw [after, List.foldl_append, ← after, ih]
    cases h with
    | moved q c t =>
      have hsteps : UInt64.ofNat ((sinceReset hs).length + 1) =
          .ofNat (sinceReset hs).length + 1 := UInt64.ofNat_add _ 1
      rw [Happening.sinceReset_moved, Happening.displacement, List.length_cons, hsteps,
        Int.add_comm, Int64.ofInt_add, List.foldl_cons, List.foldl_nil, count]
      cases t.direction with
      | left => rw [Int64.sub_eq_add_neg]; rfl
      | right => rfl
    | halted q c n =>
      rw [Happening.sinceReset_halted]
      rfl
    | wasReset q q' =>
      rw [Happening.sinceReset_wasReset]
      rfl

variable {hs : List Happening}

/-- Fewer than 2⁶³ transitions since the last reset are counted without going around, whatever came
before it. -/
theorem after_exact (h : (sinceReset hs).length < 2 ^ 63) :
    (after hs).position.toInt = displacement (sinceReset hs) ∧
      (after hs).steps.toNat = (sinceReset hs).length := by
  have habs := Happening.natAbs_displacement_le (sinceReset hs)
  have hsize : UInt64.size = 2 ^ 64 := rfl
  rw [after_eq]
  exact ⟨Int64.toInt_ofInt_of_le (by omega) (by omega), UInt64.toNat_ofNat_of_lt' (by omega)⟩

theorem not_overflows {h : Happening} (hlt : (sinceReset (hs ++ [h])).length < 2 ^ 63) :
    ¬ (after hs).Overflows h := by
  cases h with
  | moved q c t =>
    rw [Happening.sinceReset_moved, List.length_cons] at hlt
    obtain ⟨hposition, hsteps⟩ := after_exact (Nat.lt_of_succ_lt hlt)
    have habs := Happening.natAbs_displacement_le (t :: sinceReset hs)
    rw [Happening.displacement, List.length_cons] at habs
    rintro (hlow | hhigh | hmany)
    · rw [hposition] at hlow
      omega
    · rw [hposition] at hhigh
      omega
    · rw [hsteps] at hmany
      omega
  | halted q c n => exact id
  | wasReset q q' => exact id

end Registers

namespace Machine

/-- The position, the index of the head and the cells added stay within the number of steps,
whatever was done with the machine, and the position is even just when that number is. The steps are
the transitions since the last reset, and the position is where these led. While they are fewer than
2⁶³, counters of 64 bits hold both, and no transition takes them beyond. -/
theorem counters_within_steps (s : Specification) (ops : List Operation) :
    let m := (ofSpec s).performAll ops
    let account := (ofSpec s).history ops
    m.tape.position.natAbs ≤ m.steps ∧ m.tape.position % 2 = (m.steps : Int) % 2 ∧
      m.tape.position ≤ m.tape.headIndex ∧ m.tape.headIndex ≤ m.steps ∧
      m.tape.cells.length ≤ max s.input.length 1 + m.steps ∧
      m.steps = (sinceReset account).length ∧
      m.tape.position = displacement (sinceReset account) ∧
      (∀ done, done <+: account → (sinceReset done).length < 2 ^ 63 →
        (Registers.after done).position.toInt = displacement (sinceReset done) ∧
          (Registers.after done).steps.toNat = (sinceReset done).length) ∧
      ∀ done h, done ++ [h] <+: account → (sinceReset (done ++ [h])).length < 2 ^ 63 →
        ¬ (Registers.after done).Overflows h := by
  intro m account
  have hm : m.Bounded := (bounded_ofSpec s).performAll ops
  have hcounts : m.Counts account := (counts_ofSpec s).performAll ops
  have hcells := hm.length_cells_le
  rw [show m.spec = s from spec_performAll _ ops] at hcells
  exact ⟨hm.natAbs_position_le, hm.parity, hm.position_le_headIndex, hm.headIndex_le, hcells,
    hcounts.steps, hcounts.position, fun done _ => Registers.after_exact,
    fun done h _ => Registers.not_overflows⟩

/-- Three cells to the left of an empty input, and after a reset one. -/
theorem counters_within_steps_of_reset :
    let s : Specification := ⟨' ', "A", .ofList [("A", some (.ofList [(' ', .move .left)]))], []⟩
    let ops : List Operation := [.runFor 3, .reset, .step]
    let m := (ofSpec s).performAll ops
    let account := (ofSpec s).history ops
    let left : Happening := .moved "A" ' ' ⟨' ', .left, "A"⟩
    account = [left, left, left, .wasReset "A" "A", left] ∧ m.steps = 1 ∧ m.tape.position = -1 ∧
      m.tape.headIndex ≤ 1 ∧ m.tape.cells.length ≤ 2 ∧
      (Registers.after [left, left, left]).position.toInt = -3 ∧
      (Registers.after account).position.toInt = -1 ∧
      ¬ (Registers.after [left, left, left, .wasReset "A" "A"]).Overflows left := by
  intro s ops m account left
  have haccount : account = [left, left, left, .wasReset "A" "A", left] := by decide
  obtain ⟨-, -, -, hindex, hcells, hsteps, hposition, hexact, hover⟩ := counters_within_steps s ops
  have hone : m.steps = 1 := by
    rw [hsteps]
    decide
  have hminus : m.tape.position = -1 := by
    rw [hposition]
    decide
  rw [show (ofSpec s).performAll ops = m from rfl, hone] at hindex hcells
  rw [show (ofSpec s).history ops = account from rfl, haccount] at hexact hover
  obtain ⟨hthree, -⟩ := hexact [left, left, left] ⟨_, rfl⟩ (by decide)
  obtain ⟨hall, -⟩ := hexact _ List.prefix_rfl (by decide)
  refine ⟨haccount, hone, hminus, hindex, hcells, hthree.trans (by decide), ?_,
    hover _ left List.prefix_rfl (by decide)⟩
  rw [haccount, hall]
  decide

end Machine

end TuringTable
