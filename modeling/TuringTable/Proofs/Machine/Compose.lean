import TuringTable.Proofs.Machine.Advance
import TuringTable.Proofs.Machine.Session

/-!
# One run after another

A run of `a + b` steps is a run of `a` steps and then, if that went on to its end, one of `b` steps
(`runFor_add`). So a run that ended is not changed by a higher limit (`runFor_of_le`), and one that
went on took as many transitions as it was allowed to (`advances_of_continued`). A machine that the
table leads to an end has one number of steps that tells what every limit comes to
(`Advances.endsAfter`).
-/

namespace TuringTable

namespace Outcome

/-- One run and then another, which is begun only if the first one went on to its end. -/
def andThen (o : Outcome (Except MachineError Step))
    (next : Machine → Outcome (Except MachineError Step)) : Outcome (Except MachineError Step) :=
  match o.result with
  | .ok .continued => (next o.machine).following o.account
  | _ => o

variable {o : Outcome (Except MachineError Step)}
  {next : Machine → Outcome (Except MachineError Step)}

theorem andThen_of_continued (h : o.result = .ok .continued) :
    o.andThen next = (next o.machine).following o.account := by
  simp only [andThen, h]

theorem andThen_of_stopped (h : o.result ≠ .ok .continued) : o.andThen next = o := by
  rw [andThen]
  split
  · contradiction
  · rfl

/-- What happened before the first run comes before both. -/
theorem andThen_following (happened : List Happening) :
    (o.following happened).andThen next = (o.andThen next).following happened := by
  by_cases h : o.result = .ok .continued
  · rw [andThen_of_continued h, andThen_of_continued (o := o.following happened) h]
    simp [following]
  · rw [andThen_of_stopped h, andThen_of_stopped (o := o.following happened) h]

/-- What comes after an outcome is told to the same observers, and is told last. -/
theorem notices_following {α β : Type} {o : Outcome α} {o' : Outcome β}
    (h : o'.machine.observers = o.machine.observers) :
    (o'.following o.account).notices = o.notices ++ o'.notices := by
  rw [notices, following, List.flatMap_append, h, notices, notices, h]

end Outcome

namespace Machine
variable {m : Machine} {n : Nat}

theorem runFor_add (m : Machine) (a b : Nat) :
    m.runFor (a + b) = (m.runFor a).andThen (·.runFor b) := by
  refine runFor_induction (motive := fun m a o => m.runFor (a + b) = o.andThen (·.runFor b))
    ?_ ?_ ?_ ?_ m a
  · intro m
    rw [Nat.zero_add]
    rfl
  · intro m n hh
    rw [Nat.succ_add, runFor_succ_of_halting hh]
    rfl
  · intro m n hh hs ih
    rw [Nat.succ_add, runFor_succ_of_continued hh hs, ih, Outcome.andThen_following]
  · intro m n hh hs
    rw [Nat.succ_add, runFor_succ_of_stopped hh hs, Outcome.andThen_of_stopped hs]

theorem runFor_of_le (h : (m.runFor n).result ≠ .ok .continued) {k : Nat} (hk : n ≤ k) :
    m.runFor k = m.runFor n := by
  obtain ⟨j, rfl⟩ := Nat.exists_eq_add_of_le hk
  rw [runFor_add, Outcome.andThen_of_stopped h]

theorem advances_of_continued (h : (m.runFor n).result = .ok .continued) :
    Advances n m (m.runFor n).machine := by
  revert h
  refine runFor_induction (motive := fun m n o => o.result = .ok .continued →
    Advances n m o.machine) ?_ ?_ ?_ ?_ m n
  · exact fun m _ => .refl m
  · intro m n _ h
    cases h
  · intro m n _ hs ih h
    obtain ⟨hr, t, ht⟩ := step_result_eq_continued_iff.1 hs
    refine .step ht ?_
    rw [step_of_some hr ht] at ih
    rw [step_of_some hr ht] at h ⊢
    exact ih h
  · exact fun m n _ hs h => absurd h hs

/-! ### A machine that comes to an end -/

/-- From `m` exactly `n` steps can be taken, and they lead to `m'`. A run with a higher limit halts
there. -/
structure EndsAfter (m : Machine) (n : Nat) (m' : Machine) : Prop where
  steps : m'.steps = m.steps + n
  machine : (m.runFor n).machine = m'
  continued : ∀ k ≤ n, (m.runFor k).result = .ok .continued
  halted : ∀ k, n < k → (m.runFor k).result = .ok .halted ∧
    (m.runFor k).machine = { m' with haltReported := !m'.spec.isHaltingState m'.state }

theorem Advances.continued {m' : Machine} (h : Advances n m m') (hr : m.haltReported = false)
    {k : Nat} (hk : k ≤ n) : (m.runFor k).result = .ok .continued := by
  by_contra hstop
  have hsame : (m.runFor n).result = (m.runFor k).result := by rw [runFor_of_le hstop hk]
  exact hstop (hsame.symm.trans (h.runFor hr).1)

theorem Advances.endsAfter {m' : Machine} (h : Advances n m m') (hr : m.haltReported = false)
    (he : m'.Ends) : m.EndsAfter n m' where
  steps := h.steps
  machine := (h.runFor hr).2
  continued _ hk := h.continued hr hk
  halted _ hk := h.runFor_of_ends hr hk he

theorem notices_runFor_add (m : Machine) (a b : Nat) :
    (m.runFor (a + b)).notices = (m.runFor a).notices ++
      if (m.runFor a).result = .ok .continued then ((m.runFor a).machine.runFor b).notices
      else [] := by
  rw [runFor_add]
  split
  · rename_i h
    rw [Outcome.andThen_of_continued h, Outcome.notices_following (observers_runFor _ b)]
  · rename_i h
    rw [Outcome.andThen_of_stopped h, List.append_nil]

/-- Running composes, whatever the machine, also one that has reported a halt. A run of `a + b`
steps comes to the same and tells the same as one of `a` steps and then, only if that went on, one
of `b` steps. So a run that halted or failed is the same with any higher limit, and one that went on
took exactly as many transitions as it was allowed to. -/
theorem runFor_composes (m : Machine) :
    (∀ a b,
      m.runFor (a + b) = (m.runFor a).andThen (·.runFor b) ∧
      (m.runFor (a + b)).notices = (m.runFor a).notices ++
        if (m.runFor a).result = .ok .continued then ((m.runFor a).machine.runFor b).notices
        else []) ∧
      (∀ n, (m.runFor n).result ≠ .ok .continued → ∀ k, n ≤ k → m.runFor k = m.runFor n) ∧
      ∀ n, (m.runFor n).result = .ok .continued →
        Advances n m (m.runFor n).machine ∧ (m.runFor n).machine.steps = m.steps + n := by
  refine ⟨fun a b => ⟨m.runFor_add a b, m.notices_runFor_add a b⟩,
    fun n h k => runFor_of_le h, fun n h => ?_⟩
  have hadvances := advances_of_continued h
  exact ⟨hadvances, hadvances.steps⟩

/-- The limit cuts the run between two moves to the right, before it halts; and once the halt is
reported every further run fails in the same way. -/
theorem runFor_composes_of_cut :
    let s : Specification := ⟨' ', "A", .ofList [("A", some (.ofList [('a', .move .right)]))],
      ['a', 'a']⟩
    let m := (ofSpec s).observe "x"
    let halted := (m.runFor 3).machine
    m.runFor (1 + 2) = (m.runFor 1).andThen (·.runFor 2) ∧
      (m.runFor 1).result = .ok .continued ∧ (m.runFor 1).machine.steps = 1 ∧
      (m.runFor 3).result = .ok .halted ∧ m.runFor 10000 = m.runFor 3 ∧
      (m.runFor (1 + 2)).notices = [⟨"x", "A", "A"⟩, ⟨"x", "A", "A"⟩] ∧
      (halted.runFor 1).result = .error (.alreadyHalted "A" ' ') ∧
      halted.runFor 7 = halted.runFor 1 := by
  intro s m halted
  obtain ⟨hadd, hle, hcontinued⟩ := runFor_composes m
  obtain ⟨-, hlatched, -⟩ := runFor_composes halted
  have hone : (m.runFor 1).result = .ok .continued := by decide
  have hthree : (m.runFor 3).result = .ok .halted := by decide
  have hrefused : (halted.runFor 1).result = .error (.alreadyHalted "A" ' ') := by decide
  obtain ⟨hrun, hnotices⟩ := hadd 1 2
  refine ⟨hrun, hone, (hcontinued 1 hone).2, hthree,
    hle 3 (by simp [hthree]) 10000 (by decide), hnotices.trans (by decide), hrefused,
    hlatched 1 (by simp [hrefused]) 7 (by decide)⟩

end Machine

end TuringTable
