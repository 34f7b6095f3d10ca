import TuringTable.Proofs.Machine.Operation
import TuringTable.Program

/-!
# Closed specifications

A specification is `Closed` if every state it names is declared, and that is what the check of the
table finds out (`analyze_eq_ok_iff`), so what `parse` accepts is closed (`closed_of_parse`). In a
closed specification no instruction leads out of the table (`Closed.target`); so no machine of it
ever gets lost (`state_declared_of_parse`).
-/

namespace TuringTable

namespace Specification
variable {s : Specification}

/-- Every state that the specification names is declared. -/
structure Closed (s : Specification) : Prop where
  start : s.declares s.startState = true
  targets : ∀ {q row c i t}, s.table.get? q = some (some row) → row.get? c = some i →
    i.nextState = some t → s.declares t = true

theorem firstUndeclaredTarget_eq_none_iff :
    s.firstUndeclaredTarget = none ↔
      ∀ q row c i t, s.table.get? q = some (some row) → row.get? c = some i →
        i.nextState = some t → s.declares t = true := by
  simp only [firstUndeclaredTarget, List.findSome?_eq_none_iff, Prod.forall, Table.mem_cells_iff,
    Option.map_eq_none_iff, Option.filter_eq_none_iff]
  constructor
  · intro h q row c i t hq hc ht
    simpa using h q c i ⟨row, hq, hc⟩ t ht
  · rintro h q c i ⟨row, hq, hc⟩ t ht
    simpa using h q row c i t hq hc ht

/-- The check passes exactly the closed specifications. -/
theorem analyze_eq_ok_iff : s.analyze = .ok () ↔ s.Closed := by
  rw [analyze]
  constructor
  · intro h
    split at h
    · contradiction
    · rename_i hn
      split at h
      · rename_i hs
        exact ⟨hs, firstUndeclaredTarget_eq_none_iff.1 hn _ _ _ _ _⟩
      · contradiction
  · intro h
    rw [firstUndeclaredTarget_eq_none_iff.2 fun _ _ _ _ _ => h.targets]
    exact if_pos h.start

theorem declares_of_get? {q : String} {row : Option Row} (h : s.table.get? q = some row) :
    s.declares q = true := by
  rw [declares, SortedMap.contains, h]
  rfl

/-- A prescribed instruction leads to a declared state, also one that stays. -/
theorem Closed.target (h : s.Closed) {q : String} {c : Char} {i : Instruction}
    (hi : s.Prescribes q c i) : s.declares (i.target q) = true := by
  obtain ⟨row, d, hq, hd⟩ : ∃ row d, s.table.get? q = some (some row) ∧ row.get? d = some i := by
    cases hi with
    | listed hq hc => exact ⟨_, c, hq, hc⟩
    | wildcard hq _ hw => exact ⟨_, _, hq, hw⟩
  cases ht : i.nextState with
  | none =>
    rw [Instruction.target, ht]
    exact declares_of_get? hq
  | some t =>
    rw [Instruction.target, ht]
    exact h.targets hq hd ht

/-- The input has no part in it. -/
theorem Closed.withInput (h : s.Closed) (cs : List Char) : (s.withInput cs).Closed :=
  ⟨h.start, h.targets⟩

end Specification

/-- A document is accepted if it can be read and what it describes passes the check. -/
theorem Document.check_eq_ok_iff {document : Yaml.Value} {s : Specification} :
    (Document.check document).1 = .ok s ↔
      ((Document.read document).run []).1 = .ok s ∧ s.analyze = .ok () := by
  rw [Document.check]
  rcases (Document.read document).run [] with ⟨e | s', warnings⟩
  · simp
  · cases ha : s'.analyze with
    | error e =>
      simp only [ha, reduceCtorEq, false_iff, not_and, Except.ok.injEq]
      rintro rfl
      simp [ha]
    | ok _ =>
      simp only [ha, Except.ok.injEq, iff_self_and]
      rintro rfl
      exact ha

theorem Document.closed_of_check {document : Yaml.Value} {s : Specification}
    (h : (Document.check document).1 = .ok s) : s.Closed :=
  Specification.analyze_eq_ok_iff.1 (Document.check_eq_ok_iff.1 h).2

theorem closed_of_parse {text : String} {s : Specification} (h : (parse text).1 = .ok s) :
    s.Closed := by
  rw [parse] at h
  split at h
  · cases h
  · split at h
    · cases h
    · rename_i document _
      dsimp only at h
      cases hc : (Document.check document).1 with
      | error e =>
        rw [hc] at h
        cases h
      | ok s' =>
        rw [hc] at h
        cases h
        exact Document.closed_of_check hc

namespace Machine

/-- A machine of `s` in a declared state. -/
structure Home (s : Specification) (m : Machine) : Prop where
  spec : m.spec = s
  declared : s.declares m.state = true

namespace Home
variable {s : Specification} {m : Machine}

theorem get?_ne_none (h : Home s m) : m.spec.table.get? m.state ≠ none := by
  have := h.declared
  rw [h.spec]
  intro hn
  rw [Specification.declares, SortedMap.contains, hn] at this
  cases this

theorem nextTransition_ne_unknownState (h : Home s m) (q : String) :
    m.nextTransition ≠ .error (.unknownState q) := by
  intro hn
  rcases Specification.lookup_eq_error_iff.1 hn with ⟨-, hq⟩ | ⟨he, -⟩
  · exact h.get?_ne_none hq
  · cases he

theorem step_ne_unknownState (h : Home s m) (q : String) :
    m.step.result ≠ .error (.unknownState q) := by
  rcases m.step_cases with ⟨-, hs⟩ | ⟨e, -, hn, hs⟩ | ⟨-, -, hs⟩ | ⟨t, -, -, hs⟩
  · simp [hs]
  · rw [hs]
    intro he
    exact h.nextTransition_ne_unknownState q (Except.error.inj he ▸ hn)
  · simp [hs]
  · simp [hs]

theorem step (hc : s.Closed) (h : Home s m) : Home s m.step.machine := by
  rcases m.step_cases with ⟨-, hs⟩ | ⟨e, -, -, hs⟩ | ⟨-, -, hs⟩ | ⟨t, -, hn, hs⟩
  · rw [hs]
    exact h
  · rw [hs]
    exact h
  · rw [hs]
    exact ⟨h.spec, h.declared⟩
  · rw [hs]
    obtain ⟨i, hi, rfl⟩ := Specification.lookup_eq_some_iff.1 hn
    exact ⟨h.spec, hc.target (h.spec ▸ hi)⟩

theorem performAll (hc : s.Closed) (ops : List Operation) :
    Home s ((ofSpec s).performAll ops) := by
  refine performAll_keeps (fun m => Home.step hc) (fun m h => ?_) (fun m name h => ?_) ?_ ops
  · obtain ⟨rfl, -⟩ := h
    exact ⟨rfl, hc.start⟩
  · exact ⟨h.spec, h.declared⟩
  · exact ⟨rfl, hc.start⟩

/-- A run fails only where a halt was reported before. -/
theorem runFor_error (hc : s.Closed) (h : Home s m) {n : Nat} {e : MachineError}
    (he : (m.runFor n).result = .error e) :
    m.haltReported = true ∧ e = .alreadyHalted m.state m.tape.head := by
  induction n generalizing m with
  | zero => cases he
  | succ n ih =>
    cases hh : m.spec.isHaltingState m.state with
    | true =>
      rw [runFor_succ_of_halting hh] at he
      cases he
    | false =>
      rcases m.step_cases with ⟨hr, hs⟩ | ⟨e', -, hn, hs⟩ | ⟨-, -, hs⟩ | ⟨t, hr, -, hs⟩
      · rw [runFor_succ_of_stopped hh (by simp [hs]), hs] at he
        exact ⟨hr, (Except.error.inj he).symm⟩
      · -- neither error of a look-up can come: the state is declared and is no halting state
        rcases Specification.lookup_eq_error_iff.1 hn with ⟨-, hq⟩ | ⟨-, hq⟩
        · exact absurd hq h.get?_ne_none
        · rw [Specification.isHaltingState_iff.2 hq] at hh
          cases hh
      · rw [runFor_succ_of_stopped hh (by simp [hs]), hs] at he
        cases he
      · rw [runFor_succ_of_continued hh (by simp [hs])] at he
        -- the machine after the transition has not reported a halt either
        have hr' := (ih (h.step hc) he).1
        rw [hs] at hr'
        exact absurd (hr.symm.trans hr') Bool.false_ne_true

end Home

/-- A machine of a parsed text never gets lost, whatever the input and whatever was done with it.
Its state is declared, so that no step finds it unknown; and a run can only fail because an
operation before it found no instruction and no reset came since. -/
theorem state_declared_of_parse {text : String} {s : Specification} (h : (parse text).1 = .ok s)
    (input : List Char) (ops : List Operation) :
    let start := ofSpec (s.withInput input)
    let m := start.performAll ops
    s.table.contains m.state = true ∧
      (∀ q, m.nextTransition ≠ .error (.unknownState q)) ∧
      (∀ q, m.step.result ≠ .error (.unknownState q)) ∧
      (∀ e, m.run.result = .error e →
        e = .alreadyHalted m.state m.tape.head ∧ start.HaltFound ops) ∧
      ∀ n e, (m.runFor n).result = .error e →
        e = .alreadyHalted m.state m.tape.head ∧ start.HaltFound ops := by
  intro start m
  have hc : (s.withInput input).Closed := (closed_of_parse h).withInput input
  have hm : Home (s.withInput input) m := .performAll hc ops
  have hrun : ∀ n e, (m.runFor n).result = .error e →
      e = .alreadyHalted m.state m.tape.head ∧ start.HaltFound ops := fun n e he => by
    obtain ⟨hr, he⟩ := hm.runFor_error hc he
    exact ⟨he, haltFound_of_reported rfl hr⟩
  exact ⟨hm.declared, hm.nextTransition_ne_unknownState, hm.step_ne_unknownState,
    hrun defaultStepLimit, hrun⟩

/-- A run to a symbol without an instruction; the next one fails, since the first found the halt. -/
theorem haltFound_of_parsed_rows :
    let text := "blank: 0\nstart state: A\ntable:\n  A:\n    0:\n      R: B\n  B:\n    0: L\n"
    let s : Specification := ⟨'0', "A", .ofList [("A", some (.ofList [('0', ⟨none, .right, "B"⟩)])),
      ("B", some (.ofList [('0', .move .left)]))], []⟩
    let start := ofSpec (s.withInput ['0', '1'])
    let m := start.performAll [.runFor 5, .observe "x"]
    (parse text).1 = .ok s ∧ s.table.contains m.state = true ∧
      (m.runFor 3).result = .error (.alreadyHalted "B" '1') ∧
      start.HaltFound [.runFor 5, .observe "x"] := by
  intro text s start m
  have hp : (parse text).1 = .ok s := by decide +kernel
  have hr : (m.runFor 3).result = .error (.alreadyHalted "B" '1') := by decide
  obtain ⟨hd, -, -, -, hrun⟩ := state_declared_of_parse hp ['0', '1'] [.runFor 5, .observe "x"]
  exact ⟨hp, hd, hr, (hrun 3 _ hr).2⟩

end Machine

end TuringTable
