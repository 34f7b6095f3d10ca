import TuringTable.Proofs.Machine.Operation
import TuringTable.Proofs.Machine.Textbook

/-!
# The halt latch

The latch is set only where no transition applies (`Sound`), and every operation keeps it so. From
then on, until a reset, only observers can be added (`performAll_of_reported`): a step and a run are
refused. An operation that fails leaves a machine whose next step fails in the same way
(`step_of_perform_error`). `isHalted`, which does not read the latch, never disagrees with it
(`haltReported_iff_haltFound`).
-/

namespace TuringTable

namespace Machine
variable {m : Machine}

/-- The latch is set only where no transition applies. -/
def Sound (m : Machine) : Prop := m.haltReported = true → m.nextTransition = .ok none

theorem Sound.step (h : m.Sound) : m.step.machine.Sound := by
  intro hr
  rcases step_reported hr with hm | ⟨-, hn⟩
  · rw [step_of_reported hm]
    exact h hm
  · exact hn

theorem Sound.performAll (h : m.Sound) (ops : List Operation) : (m.performAll ops).Sound := by
  refine performAll_keeps (fun m => Sound.step) (fun m _ hr => ?_) (fun m name h hr => h hr) h ops
  -- a reset takes the latch back
  exact absurd hr Bool.false_ne_true

theorem sound_ofSpec (s : Specification) : (ofSpec s).Sound :=
  fun hr => absurd hr Bool.false_ne_true

theorem Sound.isHalted_eq_false_iff (h : m.Sound) :
    m.isHalted = false ↔ m.step.result = .ok .continued := by
  rw [step_result_eq_continued_iff]
  constructor
  · intro hh
    rw [isHalted] at hh
    rcases hn : m.nextTransition with e | _ | t
    · simp [hn] at hh
    · simp [hn] at hh
    · refine ⟨?_, t, rfl⟩
      rw [← Bool.not_eq_true]
      intro hr
      have := h hr
      rw [hn] at this
      cases this
  · rintro ⟨-, t, hn⟩
    rw [isHalted, hn]

/-! ### Steps that take no transition -/

theorem step_of_not_continued (h : m.step.result ≠ .ok .continued) :
    m.step.machine = { m with haltReported := m.step.machine.haltReported } ∧
      m.step.notices = [] := by
  rcases m.step_cases with ⟨-, hs⟩ | ⟨e, -, -, hs⟩ | ⟨-, -, hs⟩ | ⟨t, -, -, hs⟩
  · rw [hs]
    exact ⟨rfl, rfl⟩
  · rw [hs]
    exact ⟨rfl, rfl⟩
  · rw [hs]
    exact ⟨rfl, rfl⟩
  · rw [hs] at h
    exact absurd rfl h

/-- A step that halts sets the latch and changes nothing else. -/
theorem step_of_halted (h : m.step.result = .ok .halted) :
    m.nextTransition = .ok none ∧ m.step.machine = { m with haltReported := true } := by
  rcases m.step_cases with ⟨-, hs⟩ | ⟨e, -, -, hs⟩ | ⟨-, hn, hs⟩ | ⟨t, -, -, hs⟩
  · rw [hs] at h
    cases h
  · rw [hs] at h
    cases h
  · rw [hs]
    exact ⟨hn, rfl⟩
  · rw [hs] at h
    cases h

/-! ### After a halt was reported -/

theorem runFor_machine_of_reported (hr : m.haltReported = true) (n : Nat) :
    (m.runFor n).machine = m := by
  cases n with
  | zero => rfl
  | succ n =>
    cases hh : m.spec.isHaltingState m.state with
    | true => rw [runFor_succ_of_halting hh]
    | false => rw [runFor_succ_of_stopped hh (by simp [step_of_reported hr]), step_of_reported hr]

theorem runFor_succ_of_reported (hr : m.haltReported = true) (hn : m.nextTransition = .ok none)
    (n : Nat) : m.runFor (n + 1) = ⟨m, .error (.alreadyHalted m.state m.tape.head), []⟩ := by
  have hh := isHaltingState_of_nextTransition_ok hn
  rw [runFor_succ_of_stopped hh (by simp [step_of_reported hr]), step_of_reported hr]

theorem performAll_of_reported (hr : m.haltReported = true) {since : List Operation}
    (h : Operation.reset ∉ since) : ∃ os, m.performAll since = { m with observers := os } := by
  induction since generalizing m with
  | nil => exact ⟨m.observers, rfl⟩
  | cons op since ih =>
    rw [List.mem_cons, not_or] at h
    -- steps and runs are refused, so an operation adds at most an observer
    have hop : ∃ os, (m.perform op).machine = { m with observers := os } := by
      cases op with
      | step => exact ⟨m.observers, congrArg Outcome.machine (step_of_reported hr)⟩
      | run => exact ⟨m.observers, runFor_machine_of_reported hr _⟩
      | runFor n => exact ⟨m.observers, runFor_machine_of_reported hr n⟩
      | reset => exact absurd rfl h.1
      | observe name => exact ⟨m.observers ++ [name], rfl⟩
    obtain ⟨os, hm⟩ := hop
    show ∃ os', (m.perform op).machine.performAll since = _
    rw [hm]
    exact ih (m := { m with observers := os }) hr h.2

/-! ### What sets the latch -/

/-- A run that halts where no transition applies has set the latch: in a halting state there would
have been an error to look up. -/
theorem runFor_halted {n : Nat} (h : (m.runFor n).result = .ok .halted)
    (hn : (m.runFor n).machine.nextTransition = .ok none) :
    (m.runFor n).machine.haltReported = true := by
  revert h hn
  refine runFor_induction (motive := fun _ _ o => o.result = .ok .halted →
    o.machine.nextTransition = .ok none → o.machine.haltReported = true) ?_ ?_ ?_ ?_ m n
  · intro m h
    cases h
  · -- in a halting state the look-up fails, it does not find nothing
    intro m n hh _ hn
    have := isHaltingState_of_nextTransition_ok hn
    exact absurd (hh.symm.trans this) Bool.noConfusion
  · exact fun m n _ _ ih => ih
  · intro m n _ _ h _
    rw [(step_of_halted h).2]

theorem perform_halted {op : Operation} (h : (m.perform op).result = some (.ok .halted))
    (hn : (m.perform op).machine.nextTransition = .ok none) :
    (m.perform op).machine.haltReported = true := by
  cases op with
  | step =>
    show m.step.machine.haltReported = true
    rw [(step_of_halted (Option.some.inj h)).2]
  | run => exact runFor_halted (Option.some.inj h) hn
  | runFor n => exact runFor_halted (Option.some.inj h) hn
  | reset => cases h
  | observe name => cases h

theorem haltReported_iff_haltFound (hm : m.haltReported = false) (ops : List Operation) :
    (m.performAll ops).haltReported = true ↔ m.HaltFound ops := by
  refine ⟨haltFound_of_reported hm, ?_⟩
  rintro ⟨before, op, since, rfl, hs, hr, hn⟩
  rw [performAll_concat] at hn
  have hp : m.performAll (before ++ op :: since) =
      ((m.performAll before).perform op).machine.performAll since := by
    rw [performAll, List.foldl_append]
    rfl
  -- the operation that halted set the latch, and what came since cannot take it back
  have hl := perform_halted hr hn
  obtain ⟨os, ho⟩ := performAll_of_reported hl hs
  rw [hp, ho]
  exact hl

/-! ### Errors -/

theorem step_of_step_error {e : MachineError} (h : m.step.result = .error e) :
    m.step.machine.step = ⟨m.step.machine, .error e, []⟩ := by
  rcases m.step_cases with ⟨-, hs⟩ | ⟨e', -, -, hs⟩ | ⟨-, -, hs⟩ | ⟨t, -, -, hs⟩
  · rw [hs] at h ⊢
    cases h
    exact hs
  · rw [hs] at h ⊢
    cases h
    exact hs
  · rw [hs] at h
    cases h
  · rw [hs] at h
    cases h

theorem step_of_runFor_error {n : Nat} {e : MachineError} (h : (m.runFor n).result = .error e) :
    (m.runFor n).machine.step = ⟨(m.runFor n).machine, .error e, []⟩ := by
  revert h
  refine runFor_induction (motive := fun _ _ o => o.result = .error e →
    o.machine.step = ⟨o.machine, .error e, []⟩) ?_ ?_ ?_ ?_ m n
  · intro m h
    cases h
  · intro m n _ h
    cases h
  · exact fun m n _ _ ih => ih
  · exact fun m n _ _ h => step_of_step_error h

/-- After an operation that failed the next step fails in the same way and changes nothing. -/
theorem step_of_perform_error {op : Operation} {e : MachineError}
    (h : (m.perform op).result = some (.error e)) :
    (m.perform op).machine.step = ⟨(m.perform op).machine, .error e, []⟩ := by
  cases op with
  | step => exact step_of_step_error (Option.some.inj h)
  | run => exact step_of_runFor_error (Option.some.inj h)
  | runFor n => exact step_of_runFor_error (Option.some.inj h)
  | reset => cases h
  | observe name => cases h

theorem stepped_of_step_machine (h : m.step.machine = m) (k : Nat) : m.stepped k = m := by
  induction k with
  | zero => rfl
  | succ k ih =>
    rw [stepped, ih]
    exact h

/-- The error of a step tells whether the latch is set. -/
theorem haltReported_iff_of_step_error {e : MachineError} (h : m.step.result = .error e) :
    m.haltReported = true ↔ e = .alreadyHalted m.state m.tape.head := by
  rcases m.step_cases with ⟨hr, hs⟩ | ⟨e', hr, hn, hs⟩ | ⟨-, -, hs⟩ | ⟨t, -, -, hs⟩
  · rw [hs] at h
    cases h
    simp [hr]
  · rw [hs] at h
    cases h
    rcases Specification.lookup_eq_error_iff.1 hn with ⟨rfl, -⟩ | ⟨rfl, -⟩ <;> simp [hr]
  · rw [hs] at h
    cases h
  · rw [hs] at h
    cases h

/-- The latch never disagrees with `isHalted`. It is set exactly if a halt was found and no reset
came since, and only where the table has no transition; so a machine is halted exactly if its next
step does not go on. A step that does not go on changes nothing but the latch and tells nobody. Once
the latch is set every step and every run is refused, with the same state and symbol, and only
observers can be added until a reset. What fails fails again, and leaves the latch set only if it
was refused for it. -/
theorem isHalted_eq_false_iff_continued (s : Specification) (ops : List Operation) :
    let start := ofSpec s
    let m := start.performAll ops
    (m.haltReported = true ↔ start.HaltFound ops) ∧
      (m.haltReported = true → s.lookup m.state m.tape.head = .ok none) ∧
      (m.isHalted = false ↔ m.step.result = .ok .continued) ∧
      (m.step.result ≠ .ok .continued →
        m.step.machine = { m with haltReported := m.step.machine.haltReported } ∧
          m.step.notices = []) ∧
      (m.step.result = .ok .halted → m.step.machine = { m with haltReported := true }) ∧
      (m.haltReported = true → ∀ since, Operation.reset ∉ since → ∃ os,
        let m' : Machine := { m with observers := os }
        m.performAll since = m' ∧
          m'.step = ⟨m', .error (.alreadyHalted m.state m.tape.head), []⟩ ∧
          ∀ n, m'.runFor (n + 1) = ⟨m', .error (.alreadyHalted m.state m.tape.head), []⟩) ∧
      ∀ op e, (m.perform op).result = some (.error e) →
        let m' := (m.perform op).machine
        (∀ k, m'.stepped k = m' ∧ (m'.stepped k).step.result = .error e) ∧
          (m'.haltReported = true ↔ e = .alreadyHalted m'.state m'.tape.head) := by
  intro start m
  have hm : m.Sound := (sound_ofSpec s).performAll ops
  have hs : m.spec = s := start.spec_performAll ops
  refine ⟨haltReported_iff_haltFound rfl ops, fun hr => hs ▸ hm hr, hm.isHalted_eq_false_iff,
    step_of_not_continued, fun h => (step_of_halted h).2, fun hr since h => ?_, fun op e h => ?_⟩
  · obtain ⟨os, ho⟩ := performAll_of_reported hr h
    exact ⟨os, ho, step_of_reported hr, runFor_succ_of_reported hr (hm hr)⟩
  · intro m'
    have he : m'.step = ⟨m', .error e, []⟩ := step_of_perform_error h
    have hres : m'.step.result = .error e := by rw [he]
    refine ⟨fun k => ?_, haltReported_iff_of_step_error hres⟩
    have hk : m'.stepped k = m' := stepped_of_step_machine (by rw [he]) k
    exact ⟨hk, by rw [hk, hres]⟩

/-- A step over the one symbol of the input, and one that finds nothing to do; and a run into a
state that is not declared. -/
theorem refused_after_second_step :
    let s : Specification := ⟨' ', "A", .ofList [("A", some (.ofList
      [('a', .move .right), ('b', ⟨none, .left, some "B"⟩)]))], ['a']⟩
    let m := (ofSpec s).performAll [.step, .step]
    let lost := (ofSpec (s.withInput ['b'])).perform (.runFor 5)
    m.isHalted = true ∧ s.lookup m.state m.tape.head = .ok none ∧
      (m.performAll [.runFor 3, .observe "x"]).step.result = .error (.alreadyHalted "A" ' ') ∧
      lost.result = some (.error (.unknownState "B")) ∧ lost.machine.haltReported = false ∧
      (lost.machine.stepped 3).step.result = .error (.unknownState "B") := by
  intro s m lost
  obtain ⟨-, hn, hh, -, -, hr, -⟩ := isHalted_eq_false_iff_continued s [.step, .step]
  have hl : m.haltReported = true := by decide
  obtain ⟨os, ho, hs, -⟩ := hr hl [.runFor 3, .observe "x"] (by decide)
  obtain ⟨-, -, -, -, -, -, he⟩ := isHalted_eq_false_iff_continued (s.withInput ['b']) []
  have hb : lost.result = some (.error (.unknownState "B")) := by decide
  obtain ⟨hk, hf⟩ := he (.runFor 5) _ hb
  have hq : m.state = "A" ∧ m.tape.head = ' ' := by decide
  refine ⟨?_, hn hl, ?_, hb, ?_, (hk 3).2⟩
  · have hm : ¬ m.isHalted = false := hh.not.2 (by decide)
    simpa using hm
  · rw [ho, hs, ← hq.1, ← hq.2]
  · have hf' : ¬ lost.machine.haltReported = true := hf.not.2 (by decide)
    simpa using hf'

end Machine

end TuringTable
