import TuringTable.Proofs.Machine.Step
import TuringTable.Proofs.Tape.Line

/-!
# The textbook machine

A `Config` is a state and a line with a head, and `Next` is one step of the textbook machine: the
instruction that the table prescribes is obeyed. `Follows` relates a machine to the configuration
it stands for. A new machine follows the first configuration, a step of one is a step of the other
(`Follows.step`, `Follows.continued_iff`), and so are any number of steps (`stepped_iff_reaches`).
-/

namespace TuringTable

/-- A configuration of the textbook machine. -/
structure Config extends Line where
  state : String

namespace Config

/-- The start state, with the input from 0 on and blanks elsewhere. -/
def start (s : Specification) : Config := ⟨.ofInput s.blank s.input, s.startState⟩

/-- The symbol under the head. -/
def symbol (c : Config) : Char := c.cells c.head

/-- The configuration after an instruction. What the instruction leaves out stays as it is. -/
def obey (c : Config) (i : Instruction) : Config where
  state := i.nextState.getD c.state
  head := c.head + i.direction.offset
  cells := Function.update c.cells c.head (i.write.getD c.symbol)

/-- `d` comes next after `c`. -/
def Next (s : Specification) (c d : Config) : Prop :=
  ∃ i, s.Prescribes c.state c.symbol i ∧ d = c.obey i

/-- `d` comes `n` steps after `c`. -/
inductive Reaches (s : Specification) (c : Config) : Nat → Config → Prop where
  | refl : Reaches s c 0 c
  | step {n : Nat} {d e : Config} : Reaches s c n d → Next s d e → Reaches s c (n + 1) e

/-- A step moves the head by one, so `n` steps by no more than `n`. -/
theorem Reaches.natAbs_head_sub_le {s : Specification} {c d : Config} {n : Nat}
    (h : Reaches s c n d) : (d.head - c.head).natAbs ≤ n := by
  induction h with
  | refl => simp
  | step _ hn ih =>
    obtain ⟨i, -, rfl⟩ := hn
    have : i.direction.offset = -1 ∨ i.direction.offset = 1 := by cases i.direction <;> decide
    simp only [obey]
    omega

end Config

namespace Machine

/-- The machine after `n` calls of `step`. -/
def stepped (m : Machine) : Nat → Machine
  | 0 => m
  | n + 1 => (m.stepped n).step.machine

/-- The machine stands for the configuration `c` of `s`, come to in `n` steps. -/
structure Follows (s : Specification) (n : Nat) (m : Machine) (c : Config) : Prop where
  spec : m.spec = s
  state : m.state = c.state
  tape : m.tape.Shows c.toLine
  steps : m.steps = n
  running : m.haltReported = false

theorem follows_ofSpec (s : Specification) : Follows s 0 (ofSpec s) (.start s) :=
  ⟨rfl, rfl, Tape.shows_ofInput s.blank s.input, rfl, rfl⟩

namespace Follows
variable {s : Specification} {n : Nat} {m : Machine} {c d : Config}

theorem nextTransition (h : Follows s n m c) :
    m.nextTransition = s.lookup c.state c.symbol := by
  rw [Machine.nextTransition, h.spec, h.state, h.tape.head]
  rfl

theorem apply (h : Follows s n m c) (i : Instruction) :
    Follows s (n + 1) (m.apply (i.resolve c.state c.symbol)) (c.obey i) where
  spec := h.spec
  state := rfl
  tape := (h.tape.write _).move _
  steps := congrArg (· + 1) h.steps
  running := h.running

theorem step (h : Follows s n m c) (hn : c.Next s d) :
    m.step.result = .ok .continued ∧ Follows s (n + 1) m.step.machine d := by
  obtain ⟨i, hi, rfl⟩ := hn
  have ht : m.nextTransition = .ok (some (i.resolve c.state c.symbol)) :=
    h.nextTransition.trans (Specification.lookup_eq_some_iff.2 ⟨i, hi, rfl⟩)
  rw [step_of_some h.running ht]
  exact ⟨rfl, h.apply i⟩

theorem continued_iff (h : Follows s n m c) :
    m.step.result = .ok .continued ↔ ∃ d, c.Next s d := by
  constructor
  · intro hc
    obtain ⟨-, t, ht⟩ := step_result_eq_continued_iff.1 hc
    rw [h.nextTransition, Specification.lookup_eq_some_iff] at ht
    obtain ⟨i, hi, -⟩ := ht
    exact ⟨c.obey i, i, hi, rfl⟩
  · rintro ⟨d, hd⟩
    exact (h.step hd).1

theorem halted_iff (h : Follows s n m c) :
    m.step.result = .ok .halted ↔
      ∃ row, s.table.get? c.state = some (some row) ∧ row.get? c.symbol = none ∧
        row.get? wildcard = none := by
  rw [← Specification.lookup_eq_none_iff, ← h.nextTransition]
  rcases m.step_cases with ⟨hr, hs⟩ | ⟨e, -, hn, hs⟩ | ⟨-, hn, hs⟩ | ⟨t, -, hn, hs⟩
  · exact absurd (h.running.symm.trans hr) Bool.false_ne_true
  · simp [hs, hn]
  · simp [hs, hn]
  · simp [hs, hn]

theorem error_iff (h : Follows s n m c) {e : MachineError} :
    m.step.result = .error e ↔
      e = .unknownState c.state ∧ s.table.get? c.state = none ∨
        e = .haltingState c.state ∧ s.table.get? c.state = some none := by
  rw [← Specification.lookup_eq_error_iff, ← h.nextTransition]
  rcases m.step_cases with ⟨hr, hs⟩ | ⟨e, -, hn, hs⟩ | ⟨-, hn, hs⟩ | ⟨t, -, hn, hs⟩
  · exact absurd (h.running.symm.trans hr) Bool.false_ne_true
  · simp [hs, hn]
  · simp [hs, hn]
  · simp [hs, hn]

end Follows

/-- Along `n` steps of the textbook machine a new machine goes on and follows. -/
theorem follows_stepped {s : Specification} {n : Nat} {c : Config}
    (h : Config.Reaches s (.start s) n c) :
    (∀ k < n, ((ofSpec s).stepped k).step.result = .ok .continued) ∧
      Follows s n ((ofSpec s).stepped n) c := by
  induction h with
  | refl => exact ⟨fun k hk => absurd hk k.not_lt_zero, follows_ofSpec s⟩
  | @step n d e _ hn ih =>
    obtain ⟨hall, hf⟩ := ih
    obtain ⟨hc, hf'⟩ := hf.step hn
    refine ⟨fun k hk => ?_, hf'⟩
    rcases Nat.lt_succ_iff_lt_or_eq.1 hk with hk | rfl
    · exact hall k hk
    · exact hc

theorem exists_reaches {s : Specification} {n : Nat}
    (h : ∀ k < n, ((ofSpec s).stepped k).step.result = .ok .continued) :
    ∃ c, Config.Reaches s (.start s) n c := by
  induction n with
  | zero => exact ⟨.start s, .refl⟩
  | succ n ih =>
    obtain ⟨c, hc⟩ := ih fun k hk => h k (Nat.lt_succ_of_lt hk)
    obtain ⟨d, hd⟩ := (follows_stepped hc).2.continued_iff.1 (h n n.lt_succ_self)
    exact ⟨d, hc.step hd⟩

/-- A new machine takes `n` steps exactly if the textbook machine can. It then has the state, the
position and the cells of the textbook machine, and its next step ends as the table says for them:
halted without an instruction, refused in a halting state or in one that is not declared. -/
theorem stepped_iff_reaches (s : Specification) (n : Nat) :
    let m := (ofSpec s).stepped n
    ((∀ k < n, ((ofSpec s).stepped k).step.result = .ok .continued) ↔
        ∃ c, Config.Reaches s (.start s) n c) ∧
      ∀ c, Config.Reaches s (.start s) n c →
        m.state = c.state ∧ m.tape.position = c.head ∧ c.head.natAbs ≤ n ∧ m.steps = n ∧
        (∀ k : Int, m.tape.read k = c.cells (c.head + k)) ∧
        (m.step.result = .ok .continued ↔ ∃ d, c.Next s d) ∧
        (m.step.result = .ok .halted ↔
          ∃ row, s.table.get? c.state = some (some row) ∧ row.get? c.symbol = none ∧
            row.get? wildcard = none) ∧
        (m.step.result = .error (.haltingState c.state) ↔ s.table.get? c.state = some none) ∧
        (m.step.result = .error (.unknownState c.state) ↔ s.table.get? c.state = none) := by
  intro m
  refine ⟨⟨exists_reaches, fun ⟨c, hc⟩ => (follows_stepped hc).1⟩, fun c hc => ?_⟩
  have hf : Follows s n m c := (follows_stepped hc).2
  have hle : (c.head - (Config.start s).head).natAbs ≤ n := hc.natAbs_head_sub_le
  have h0 : (Config.start s).head = 0 := rfl
  refine ⟨hf.state, hf.tape.position, by omega, hf.steps, hf.tape.read, hf.continued_iff,
    hf.halted_iff, ?_, ?_⟩
  · rw [hf.error_iff]
    simp
  · rw [hf.error_iff]
    simp

/-- Two steps to the left and back, the second one by the wildcard, into a halting state. -/
theorem reaches_of_stepped_twice :
    let s : Specification := ⟨' ', "A", .ofList [("A", some (.ofList
      [('a', ⟨some 'b', .left, none⟩), ('_', ⟨none, .right, some "B"⟩)])), ("B", none)], ['a']⟩
    ∃ c, Config.Reaches s (.start s) 2 c ∧ c.state = "B" ∧ c.head = 0 ∧ c.cells 0 = 'b' ∧
      ((ofSpec s).stepped 2).step.result = .error (.haltingState "B") := by
  intro s
  have h := stepped_iff_reaches s 2
  obtain ⟨c, hc⟩ := h.1.1 (by decide)
  obtain ⟨hq, hp, -, -, hr, -⟩ := h.2 c hc
  have hq : c.state = "B" := hq.symm.trans (by decide)
  have hp : c.head = 0 := hp.symm.trans (by decide)
  refine ⟨c, hc, hq, hp, ?_, by decide⟩
  have h0 := hr 0
  rw [hp] at h0
  exact h0.symm.trans (by decide)

end Machine

end TuringTable
