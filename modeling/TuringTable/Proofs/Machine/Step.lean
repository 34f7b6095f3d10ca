import TuringTable.Machine

/-!
# Steps and runs

What a look-up answers (`lookup_eq_some_iff`, `lookup_eq_none_iff`, `lookup_eq_error_iff`), all that
a step can do (`step_cases`), and a run as a step with a run after it (`runFor_succ_of_halting`,
`runFor_succ_of_continued`, `runFor_succ_of_stopped`). What follows about machines rests on these
and does not open `step` or `runTelling`.
-/

namespace TuringTable

namespace Specification
variable {s : Specification} {q : String} {c : Char}

/-- The instruction that the table has for `c` in state `q`: the one listed for `c`, or else the one
listed for the wildcard. -/
inductive Prescribes (s : Specification) (q : String) (c : Char) : Instruction → Prop where
  | listed {row : Row} {i : Instruction} : s.table.get? q = some (some row) → row.get? c = some i →
      Prescribes s q c i
  | wildcard {row : Row} {i : Instruction} : s.table.get? q = some (some row) → row.get? c = none →
      row.get? wildcard = some i → Prescribes s q c i

/-- The input is not looked up. -/
@[simp] theorem lookup_withInput (s : Specification) (cs : List Char) (q : String) (c : Char) :
    (s.withInput cs).lookup q c = s.lookup q c := rfl

@[simp] theorem isHaltingState_withInput (s : Specification) (cs : List Char) (q : String) :
    (s.withInput cs).isHaltingState q = s.isHaltingState q := rfl

theorem lookup_eq_some_iff {t : Transition} :
    s.lookup q c = .ok (some t) ↔ ∃ i, s.Prescribes q c i ∧ t = i.resolve q c := by
  unfold lookup
  constructor
  · intro h
    split at h <;> try contradiction
    rename_i row hq
    simp only [Except.ok.injEq, Option.map_eq_some_iff] at h
    obtain ⟨i, hi, ht⟩ := h
    refine ⟨i, ?_, ht.symm⟩
    rcases hc : row.get? c with _ | j
    · rw [instruction?, hc, Option.none_or] at hi
      exact .wildcard hq hc hi
    · rw [instruction?, hc, Option.some_or] at hi
      exact .listed hq (hc.trans hi)
  · rintro ⟨i, hi, rfl⟩
    cases hi with
    | listed hq hc => simp [hq, instruction?, hc]
    | wildcard hq hc hw => simp [hq, instruction?, hc, hw]

theorem lookup_eq_none_iff :
    s.lookup q c = .ok none ↔
      ∃ row, s.table.get? q = some (some row) ∧ row.get? c = none ∧ row.get? wildcard = none := by
  unfold lookup
  constructor
  · intro h
    split at h <;> try contradiction
    rename_i row hq
    exact ⟨row, hq, by simpa [instruction?] using h⟩
  · rintro ⟨row, hq, hc, hw⟩
    simp [hq, instruction?, hc, hw]

theorem lookup_eq_error_iff {e : MachineError} :
    s.lookup q c = .error e ↔
      e = .unknownState q ∧ s.table.get? q = none ∨
        e = .haltingState q ∧ s.table.get? q = some none := by
  unfold lookup
  constructor
  · intro h
    split at h
    · rename_i hq
      exact .inl ⟨(Except.error.inj h).symm, hq⟩
    · rename_i hq
      exact .inr ⟨(Except.error.inj h).symm, hq⟩
    · contradiction
  · rintro (⟨rfl, hq⟩ | ⟨rfl, hq⟩) <;> simp [hq]

theorem isHaltingState_iff : s.isHaltingState q = true ↔ s.table.get? q = some none := by
  simp [isHaltingState]

end Specification

namespace Outcome
variable {α : Type}

/-- The outcome if `happened` came before. -/
def following (o : Outcome α) (happened : List Happening) : Outcome α :=
  { o with account := happened ++ o.account }

end Outcome

namespace Machine
variable {m : Machine}

theorem nextTransition_of_halting (h : m.spec.isHaltingState m.state = true) :
    m.nextTransition = .error (.haltingState m.state) :=
  Specification.lookup_eq_error_iff.2 (.inr ⟨rfl, Specification.isHaltingState_iff.1 h⟩)

theorem isHaltingState_of_nextTransition_ok {t : Option Transition}
    (h : m.nextTransition = .ok t) : m.spec.isHaltingState m.state = false := by
  rw [← Bool.not_eq_true]
  intro hh
  rw [nextTransition_of_halting hh] at h
  cases h

theorem step_of_reported (hr : m.haltReported = true) :
    m.step = ⟨m, .error (.alreadyHalted m.state m.tape.head), []⟩ := by
  rw [step, if_pos hr]

theorem step_of_error {e : MachineError} (hr : m.haltReported = false)
    (hn : m.nextTransition = .error e) : m.step = ⟨m, .error e, []⟩ := by
  simp [step, hr, hn]

theorem step_of_none (hr : m.haltReported = false) (hn : m.nextTransition = .ok none) :
    m.step = ⟨{ m with haltReported := true }, .ok .halted,
      [.halted m.state m.tape.head m.steps]⟩ := by
  simp [step, hr, hn]

theorem step_of_some {t : Transition} (hr : m.haltReported = false)
    (hn : m.nextTransition = .ok (some t)) :
    m.step = ⟨m.apply t, .ok .continued, [.moved m.state m.tape.head t]⟩ := by
  simp [step, hr, hn]

/-- All that a step can do: a halt was reported before, the state cannot be stepped, nothing
applies, or a transition is taken. -/
theorem step_cases (m : Machine) :
    (m.haltReported = true ∧ m.step = ⟨m, .error (.alreadyHalted m.state m.tape.head), []⟩) ∨
      (∃ e, m.haltReported = false ∧ m.nextTransition = .error e ∧ m.step = ⟨m, .error e, []⟩) ∨
      (m.haltReported = false ∧ m.nextTransition = .ok none ∧
        m.step = ⟨{ m with haltReported := true }, .ok .halted,
          [.halted m.state m.tape.head m.steps]⟩) ∨
      ∃ t, m.haltReported = false ∧ m.nextTransition = .ok (some t) ∧
        m.step = ⟨m.apply t, .ok .continued, [.moved m.state m.tape.head t]⟩ := by
  cases hr : m.haltReported with
  | true => exact .inl ⟨rfl, step_of_reported hr⟩
  | false =>
    rcases hn : m.nextTransition with e | _ | t
    · exact .inr (.inl ⟨e, rfl, rfl, step_of_error hr hn⟩)
    · exact .inr (.inr (.inl ⟨rfl, rfl, step_of_none hr hn⟩))
    · exact .inr (.inr (.inr ⟨t, rfl, rfl, step_of_some hr hn⟩))

theorem step_result_eq_continued_iff :
    m.step.result = .ok .continued ↔
      m.haltReported = false ∧ ∃ t, m.nextTransition = .ok (some t) := by
  rcases m.step_cases with ⟨hr, hs⟩ | ⟨e, hr, hn, hs⟩ | ⟨hr, hn, hs⟩ | ⟨t, hr, hn, hs⟩
  · simp [hs, hr]
  · simp [hs, hn]
  · simp [hs, hn]
  · simp [hs, hr, hn]

/-! ### Runs -/

/-- What was told before a run comes before what the run tells, and changes nothing else. -/
theorem runTelling_eq (m : Machine) (told : List Happening) (n : Nat) :
    m.runTelling told n = (m.runFor n).following told.reverse := by
  induction n generalizing m told with
  | zero => simp [runFor, runTelling, Outcome.following]
  | succ n ih =>
    rw [runFor, runTelling, runTelling]
    split
    · simp [Outcome.following]
    · dsimp only
      split
      · rw [ih, ih _ (m.step.account.reverseAux [])]
        simp [Outcome.following]
      · simp [Outcome.following]

@[simp] theorem runFor_zero (m : Machine) : m.runFor 0 = ⟨m, .ok .continued, []⟩ := rfl

theorem runFor_succ_of_halting (h : m.spec.isHaltingState m.state = true) (n : Nat) :
    m.runFor (n + 1) = ⟨m, .ok .halted, []⟩ := by
  rw [runFor, runTelling, if_pos h]
  rfl

theorem runFor_succ_of_continued (h : m.spec.isHaltingState m.state = false)
    (hs : m.step.result = .ok .continued) (n : Nat) :
    m.runFor (n + 1) = (m.step.machine.runFor n).following m.step.account := by
  rw [runFor, runTelling, if_neg (by simp [h])]
  simp only [hs]
  rw [runTelling_eq, List.reverseAux_eq, List.append_nil, List.reverse_reverse]

theorem runFor_succ_of_stopped (h : m.spec.isHaltingState m.state = false)
    (hs : m.step.result ≠ .ok .continued) (n : Nat) : m.runFor (n + 1) = m.step := by
  rw [runFor, runTelling, if_neg (by simp [h])]
  dsimp only
  split
  · contradiction
  · rw [List.reverseAux_eq, List.append_nil, List.reverse_reverse]

/-- Induction along a run: it is over, it ends in a halting state, it goes on after a step, or it
ends with a step. -/
theorem runFor_induction {motive : Machine → Nat → Outcome (Except MachineError Step) → Prop}
    (zero : ∀ m, motive m 0 ⟨m, .ok .continued, []⟩)
    (halting : ∀ m n, m.spec.isHaltingState m.state = true →
      motive m (n + 1) ⟨m, .ok .halted, []⟩)
    (continued : ∀ m n, m.spec.isHaltingState m.state = false →
      m.step.result = .ok .continued → motive m.step.machine n (m.step.machine.runFor n) →
        motive m (n + 1) ((m.step.machine.runFor n).following m.step.account))
    (stopped : ∀ m n, m.spec.isHaltingState m.state = false →
      m.step.result ≠ .ok .continued → motive m (n + 1) m.step)
    (m : Machine) (n : Nat) : motive m n (m.runFor n) := by
  induction n generalizing m with
  | zero => exact zero m
  | succ n ih =>
    cases hh : m.spec.isHaltingState m.state with
    | true =>
      rw [runFor_succ_of_halting hh]
      exact halting m n hh
    | false =>
      by_cases hs : m.step.result = .ok .continued
      · rw [runFor_succ_of_continued hh hs]
        exact continued m n hh hs (ih m.step.machine)
      · rw [runFor_succ_of_stopped hh hs]
        exact stopped m n hh hs

/-- What every step keeps a run keeps. -/
theorem runFor_keeps {P : Machine → Prop} (hstep : ∀ m, P m → P m.step.machine) (n : Nat)
    (h : P m) : P (m.runFor n).machine := by
  revert h
  refine runFor_induction (motive := fun m _ o => P m → P o.machine) ?_ ?_ ?_ ?_ m n
  · exact fun m h => h
  · exact fun m n _ h => h
  · exact fun m n _ _ ih h => ih (hstep m h)
  · exact fun m n _ _ h => hstep m h

end Machine

end TuringTable
