import TuringTable.Proofs.Machine.Step

/-!
# What a run comes to

`Advances n m m'`: the table leads from `m` to `m'` in `n` transitions. Whatever the machine, either
`n` transitions can be taken, or fewer lead to a machine that ends or is lost (`advances_cases`). A
run with a limit comes to just that machine: it goes on (`Advances.runFor`), halts
(`Advances.runFor_of_ends`) or fails (`Advances.runFor_of_lost`) there.
-/

namespace TuringTable

namespace Machine

/-- The table leads from one machine to the other in `n` transitions. -/
inductive Advances : Nat → Machine → Machine → Prop where
  | refl (m : Machine) : Advances 0 m m
  | step {n : Nat} {m m' : Machine} {t : Transition} : m.nextTransition = .ok (some t) →
      Advances n (m.apply t) m' → Advances (n + 1) m m'

/-- The state is a declared halting state, or there is no matching instruction. -/
def Ends (m : Machine) : Prop :=
  m.spec.isHaltingState m.state = true ∨ m.nextTransition = .ok none

/-- The state is not declared. -/
def Lost (m : Machine) : Prop := m.nextTransition = .error (.unknownState m.state)

variable {m m' : Machine} {n k : Nat}

theorem Lost.isHaltingState (h : m.Lost) : m.spec.isHaltingState m.state = false := by
  rw [← Bool.not_eq_true]
  intro hh
  rw [Lost, nextTransition_of_halting hh] at h
  cases h

theorem nextTransition_cases (m : Machine) :
    (∃ t, m.nextTransition = .ok (some t)) ∨ m.Ends ∨ m.Lost := by
  rcases hn : m.nextTransition with e | _ | t
  · rcases Specification.lookup_eq_error_iff.1 hn with ⟨rfl, -⟩ | ⟨-, hq⟩
    · exact .inr (.inr hn)
    · exact .inr (.inl (.inl (Specification.isHaltingState_iff.2 hq)))
  · exact .inr (.inl (.inr hn))
  · exact .inl ⟨t, rfl⟩

/-- Either `n` transitions can be taken, or fewer lead to where none can. -/
theorem advances_cases (n : Nat) (m : Machine) :
    (∃ m', Advances n m m') ∨ ∃ k < n, ∃ m', Advances k m m' ∧ (m'.Ends ∨ m'.Lost) := by
  induction n generalizing m with
  | zero => exact .inl ⟨m, .refl m⟩
  | succ n ih =>
    rcases m.nextTransition_cases with ⟨t, ht⟩ | hm
    · rcases ih (m.apply t) with ⟨m', hm'⟩ | ⟨k, hk, m', ha, hm'⟩
      · exact .inl ⟨m', .step ht hm'⟩
      · exact .inr ⟨k + 1, Nat.succ_lt_succ hk, m', .step ht ha, hm'⟩
    · exact .inr ⟨0, n.succ_pos, m, .refl m, hm⟩

/-! ### Transitions taken by a run -/

theorem Advances.haltReported (h : Advances n m m') : m'.haltReported = m.haltReported := by
  induction h with
  | refl => rfl
  | step _ _ ih => exact ih

theorem Advances.steps (h : Advances n m m') : m'.steps = m.steps + n := by
  induction h with
  | refl => rfl
  | @step n m m' t _ _ ih =>
    have ht : (m.apply t).steps = m.steps + 1 := rfl
    rw [ih, ht]
    omega

theorem Advances.trans {m'' : Machine} (h : Advances n m m') (h' : Advances k m' m'') :
    Advances (n + k) m m'' := by
  induction h with
  | refl => rwa [Nat.zero_add]
  | step ht _ ih =>
    rw [Nat.succ_add]
    exact .step ht (ih h')

/-- The first `k` steps of a run, if so many transitions can be taken. -/
theorem Advances.runFor_add (h : Advances k m m') (hr : m.haltReported = false) (n : Nat) :
    (m.runFor (k + n)).result = (m'.runFor n).result ∧
      (m.runFor (k + n)).machine = (m'.runFor n).machine := by
  induction h with
  | refl => simp
  | @step k m m' t ht _ ih =>
    have hh := isHaltingState_of_nextTransition_ok ht
    have hs := step_of_some hr ht
    rw [Nat.succ_add, runFor_succ_of_continued hh (by simp [hs]), hs]
    exact ih hr

theorem Advances.runFor (h : Advances n m m') (hr : m.haltReported = false) :
    (m.runFor n).result = .ok .continued ∧ (m.runFor n).machine = m' := by
  obtain ⟨hres, hm⟩ := h.runFor_add hr 0
  exact ⟨hres, hm⟩

/-- A run halts where a machine ends, and sets the latch unless the state is a halting one. -/
theorem Advances.runFor_of_ends (h : Advances k m m') (hr : m.haltReported = false) (hk : k < n)
    (he : m'.Ends) :
    (m.runFor n).result = .ok .halted ∧
      (m.runFor n).machine = { m' with haltReported := !m'.spec.isHaltingState m'.state } := by
  -- a round is left when the machine is reached, and it is the one that sees the end
  obtain ⟨j, rfl⟩ : ∃ j, n = k + (j + 1) := ⟨n - k - 1, by omega⟩
  obtain ⟨hres, hm⟩ := h.runFor_add hr (j + 1)
  have hr' := h.haltReported.trans hr
  rw [hres, hm]
  cases hh : m'.spec.isHaltingState m'.state with
  | true =>
    rw [runFor_succ_of_halting hh, Bool.not_true, ← hr']
    exact ⟨rfl, rfl⟩
  | false =>
    have hn : m'.nextTransition = .ok none := he.resolve_left (by simp [hh])
    have hs := step_of_none hr' hn
    rw [runFor_succ_of_stopped hh (by simp [hs]), hs]
    exact ⟨rfl, rfl⟩

/-- A run that comes to a halting state leaves the machine there, however long it may go on. -/
theorem Advances.runFor_of_halting (h : Advances k m m') (hr : m.haltReported = false) (hk : k < n)
    (hh : m'.spec.isHaltingState m'.state = true) :
    (m.runFor n).result = .ok .halted ∧ (m.runFor n).machine = m' := by
  obtain ⟨hres, hm⟩ := h.runFor_of_ends hr hk (.inl hh)
  rw [hh, Bool.not_true, ← hr, ← h.haltReported] at hm
  exact ⟨hres, hm⟩

theorem Advances.runFor_of_lost (h : Advances k m m') (hr : m.haltReported = false) (hk : k < n)
    (hl : m'.Lost) :
    (m.runFor n).result = .error (.unknownState m'.state) ∧ (m.runFor n).machine = m' := by
  obtain ⟨j, rfl⟩ : ∃ j, n = k + (j + 1) := ⟨n - k - 1, by omega⟩
  obtain ⟨hres, hm⟩ := h.runFor_add hr (j + 1)
  have hs := step_of_error (h.haltReported.trans hr) hl
  rw [hres, hm, runFor_succ_of_stopped hl.isHaltingState (by simp [hs]), hs]
  exact ⟨rfl, rfl⟩

/-! ### How a run ends -/

theorem runFor_eq_continued_iff (hr : m.haltReported = false) :
    (m.runFor n).result = .ok .continued ↔ ∃ m', Advances n m m' := by
  constructor
  · intro h
    rcases advances_cases n m with hm | ⟨k, hk, m', ha, he | hl⟩
    · exact hm
    · rw [(ha.runFor_of_ends hr hk he).1] at h
      cases h
    · rw [(ha.runFor_of_lost hr hk hl).1] at h
      cases h
  · rintro ⟨m', hm⟩
    exact (hm.runFor hr).1

theorem runFor_eq_halted_iff (hr : m.haltReported = false) :
    (m.runFor n).result = .ok .halted ↔ ∃ k < n, ∃ m', Advances k m m' ∧ m'.Ends := by
  constructor
  · intro h
    rcases advances_cases n m with ⟨m', hm⟩ | ⟨k, hk, m', ha, he | hl⟩
    · rw [(hm.runFor hr).1] at h
      cases h
    · exact ⟨k, hk, m', ha, he⟩
    · rw [(ha.runFor_of_lost hr hk hl).1] at h
      cases h
  · rintro ⟨k, hk, m', ha, he⟩
    exact (ha.runFor_of_ends hr hk he).1

theorem runFor_eq_error {e : MachineError} (hr : m.haltReported = false)
    (h : (m.runFor n).result = .error e) : e = .unknownState (m.runFor n).machine.state := by
  rcases advances_cases n m with ⟨m', hm⟩ | ⟨k, hk, m', ha, he | hl⟩
  · rw [(hm.runFor hr).1] at h
    cases h
  · rw [(ha.runFor_of_ends hr hk he).1] at h
    cases h
  · obtain ⟨hres, hm⟩ := ha.runFor_of_lost hr hk hl
    rw [hres] at h
    cases h
    rw [hm]

theorem runFor_haltReported_iff (hr : m.haltReported = false) :
    (m.runFor n).machine.haltReported = true ↔
      (m.runFor n).result = .ok .halted ∧
        (m.runFor n).machine.spec.isHaltingState (m.runFor n).machine.state = false := by
  rcases advances_cases n m with ⟨m', hm⟩ | ⟨k, hk, m', ha, he | hl⟩
  · obtain ⟨hres, hm'⟩ := hm.runFor hr
    simp [hres, hm', hm.haltReported, hr]
  · obtain ⟨hres, hm'⟩ := ha.runFor_of_ends hr hk he
    simp [hres, hm']
  · obtain ⟨hres, hm'⟩ := ha.runFor_of_lost hr hk hl
    simp [hres, hm', ha.haltReported, hr]

end Machine

end TuringTable
