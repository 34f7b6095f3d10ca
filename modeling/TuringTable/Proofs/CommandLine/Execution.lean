import Mathlib.Data.List.Induction
import TuringTable.CommandLine
import TuringTable.Proofs.Machine.Advance

/-!
# The loop of the command line

`executeSteps` looks up the next transition before each step, `runFor` steps and looks at what came
of it. They come to the same (`Agrees`, `agrees_executeSteps`), but for the halt that a run finds:
it sets the latch and is logged, and no observer is told. So `execute` with a limit ends where
`runFor` does (`execute_agrees_runFor`).
-/

namespace TuringTable

namespace CommandLine
variable {m : Machine} {debug : Bool} {told : List Happening} {lines : List String}

/-! ### One round of the loop -/

theorem executeSteps_of_ends (h : m.Ends) (n : Nat) :
    executeSteps debug m told lines (n + 1) = ⟨⟨m, .ok .halted, told.reverse⟩, lines⟩ := by
  rcases h with hh | hn
  · rw [executeSteps, Machine.nextTransition_of_halting hh]
  · rw [executeSteps, hn]

theorem executeSteps_of_lost (h : m.Lost) (n : Nat) :
    executeSteps debug m told lines (n + 1) =
      ⟨⟨m, .error (.unknownState m.state), told.reverse⟩, lines⟩ := by
  rw [executeSteps, h]

theorem executeSteps_of_some {t : Transition} (hr : m.haltReported = false)
    (ht : m.nextTransition = .ok (some t)) (n : Nat) :
    executeSteps debug m told lines (n + 1) =
      executeSteps debug (m.apply t) (.moved m.state m.tape.head t :: told)
        (if debug then stateLine (m.apply t) :: lines else lines) n := by
  rw [executeSteps, ht, Machine.step_of_some hr ht]
  rfl

/-! ### The loop and the run -/

/-- The loop comes to the same as the run, which may have set the latch, and happened more that
changes no state. -/
structure Agrees (x : Execution) (o : Outcome (Except MachineError Step)) : Prop where
  result : x.result = o.result
  machine : x.machine = { o.machine with haltReported := false }
  account : ∃ unseen, o.account = x.account ++ unseen ∧ ∀ h ∈ unseen, h.change? = none

theorem Agrees.notices {x : Execution} {o : Outcome (Except MachineError Step)}
    (h : Agrees x o) : x.notices = o.notices := by
  obtain ⟨unseen, ho, hu⟩ := h.account
  rw [Outcome.notices, Outcome.notices, ho, List.flatMap_append, h.machine]
  refine (List.append_nil _).symm.trans (congrArg _ (List.flatMap_eq_nil_iff.2 fun e he => ?_).symm)
  rw [hu e he]

theorem agrees_executeSteps (hr : m.haltReported = false) (debug : Bool) (told : List Happening)
    (lines : List String) (n : Nat) :
    Agrees (executeSteps debug m told lines n) ((m.runFor n).following told.reverse) := by
  have hm : m = { m with haltReported := false } := hr ▸ rfl
  induction n generalizing m told lines with
  | zero => exact ⟨rfl, hm, [], rfl, by simp⟩
  | succ n ih =>
    rcases m.nextTransition_cases with ⟨t, ht⟩ | he | hl
    · have hs := Machine.step_of_some hr ht
      have hh := Machine.isHaltingState_of_nextTransition_ok ht
      rw [executeSteps_of_some hr ht, Machine.runFor_succ_of_continued hh (by rw [hs]), hs]
      have := ih (m := m.apply t) hr (.moved m.state m.tape.head t :: told)
        (if debug then stateLine (m.apply t) :: lines else lines) (hr ▸ rfl)
      rw [List.reverse_cons] at this
      simpa [Outcome.following] using this
    · rw [executeSteps_of_ends he]
      cases hh : m.spec.isHaltingState m.state with
      | true =>
        rw [Machine.runFor_succ_of_halting hh]
        exact ⟨rfl, hm, [], rfl, by simp⟩
      | false =>
        -- here the run steps and reports the halt
        have hs := Machine.step_of_none hr (he.resolve_left (by simp [hh]))
        rw [Machine.runFor_succ_of_stopped hh (by simp [hs]), hs]
        exact ⟨rfl, hm, _, rfl, by simp [Happening.change?]⟩
    · have hs := Machine.step_of_error hr hl
      rw [executeSteps_of_lost hl, Machine.runFor_succ_of_stopped hl.isHaltingState (by simp [hs]),
        hs]
      exact ⟨rfl, hm, [], by simp [Outcome.following], by simp⟩

theorem agrees_execute (hr : m.haltReported = false) (n : Nat) (debug : Bool) :
    Agrees (execute m (m.steps + n) debug) (m.runFor n) := by
  rw [execute, Nat.add_sub_cancel_left]
  exact agrees_executeSteps hr debug [] _ n

/-- The loop of the command line and a run come to the same. Only the run sets the latch, and only
where it halts outside the halting states; only an undeclared state makes them fail. Both halt
exactly if fewer transitions than allowed lead to where the machine ends, and there; they go on
exactly if all the transitions can be taken, wherever these lead. -/
theorem execute_agrees_runFor {m : Machine} (hr : m.haltReported = false) (n : Nat)
    (debug : Bool) :
    let x := execute m (m.steps + n) debug
    let r := m.runFor n
    x.result = r.result ∧ x.machine = { r.machine with haltReported := false } ∧
      x.notices = r.notices ∧
      (∀ e, r.result = .error e → e = .unknownState r.machine.state) ∧
      (r.machine.haltReported = true ↔
        r.result = .ok .halted ∧ r.machine.spec.isHaltingState r.machine.state = false) ∧
      (r.result = .ok .halted ↔ ∃ k < n, ∃ m', m.Advances k m' ∧ m'.Ends) ∧
      (r.result = .ok .continued ↔ ∃ m', m.Advances n m') ∧
      (∀ k < n, ∀ m', m.Advances k m' → m'.Ends → x.machine = m' ∧ m'.steps = m.steps + k) ∧
      ∀ m', m.Advances n m' → x.machine = m' ∧ m'.steps = m.steps + n := by
  intro x r
  have hx : Agrees x r := agrees_execute hr n debug
  -- taking back the latch, which `m'` does not have set either, leaves `m'`
  have hback {k : Nat} {m' : Machine} (ha : m.Advances k m') (b : Bool) :
      { { m' with haltReported := b } with haltReported := false } = m' := by
    rw [← ha.haltReported.trans hr]
  refine ⟨hx.result, hx.machine, hx.notices, fun e => Machine.runFor_eq_error hr,
    Machine.runFor_haltReported_iff hr, Machine.runFor_eq_halted_iff hr,
    Machine.runFor_eq_continued_iff hr, fun k hk m' ha he => ⟨?_, ha.steps⟩,
    fun m' ha => ⟨?_, ha.steps⟩⟩
  · have hm := (ha.runFor_of_ends hr hk he).2
    rw [hx.machine, hm]
    exact hback ha _
  · have hm := (ha.runFor hr).2
    rw [hx.machine, hm]
    exact hback ha m'.haltReported

/-- Two transitions lead into a halting state. With a limit of two steps nobody has seen it yet. -/
theorem halted_after_two_steps :
    let s : Specification := ⟨' ', "A", .ofList [("A", some (.ofList
      [('a', .move .right), ('b', ⟨some 'c', .left, some "H"⟩)])), ("H", none)], ['a', 'b']⟩
    let m := (Machine.ofSpec s).observe "x"
    m.haltReported = false ∧ (execute m (m.steps + 2) false).result = .ok .continued ∧
      (execute m (m.steps + 3) true).result = .ok .halted ∧
      (m.runFor 3).machine.haltReported = false ∧
      (execute m (m.steps + 3) true).notices = [⟨"x", "A", "A"⟩, ⟨"x", "A", "H"⟩] ∧
      ∃ k < 3, ∃ m', m.Advances k m' ∧ m'.Ends ∧ (execute m (m.steps + 3) true).machine = m' := by
  intro s m
  have hr : m.haltReported = false := rfl
  obtain ⟨h2, -⟩ := execute_agrees_runFor hr 2 false
  obtain ⟨h3, -, hn, -, hl, hh, -, hm, -⟩ := execute_agrees_runFor hr 3 true
  have hcont : (m.runFor 2).result = .ok .continued := by decide
  have hhalt : (m.runFor 3).result = .ok .halted := by decide
  have hnot : (m.runFor 3).notices = [⟨"x", "A", "A"⟩, ⟨"x", "A", "H"⟩] := by decide
  obtain ⟨k, hk, m', ha, he⟩ := hh.1 hhalt
  have hlatch : ¬ (m.runFor 3).machine.haltReported = true := hl.not.2 (by decide)
  exact ⟨hr, h2.trans hcont, h3.trans hhalt, by simpa using hlatch, hn.trans hnot,
    k, hk, m', ha, he, (hm k hk m' ha he).1⟩

end CommandLine

end TuringTable
