import TuringTable.Proofs.Machine.Session

/-!
# Machines in lockstep

Two specifications are in `Lockstep` where `Safe` holds: there they say the same, and what they say
leads to where `Safe` holds again. A new machine starts there, so whatever is done with machines of
the two, the outcomes differ in nothing but the specification (`Lockstep.perform`), and no caller
tells them apart (`Lockstep.transcript_ofSpec`). Specifications that look up `Alike` are in lockstep
everywhere.
-/

namespace TuringTable

namespace Specification

/-- The specifications say the same wherever `Safe` holds, and what they say leads to where it holds
again. -/
structure Lockstep (s s' : Specification) (Safe : String → Tape → Prop) : Prop where
  blank : s'.blank = s.blank
  startState : s'.startState = s.startState
  input : s'.input = s.input
  start : Safe s.startState s.initialTape
  lookup : ∀ {q t}, Safe q t → s'.lookup q t.head = s.lookup q t.head
  next : ∀ {q t tr}, Safe q t → s.lookup q t.head = .ok (some tr) →
    Safe tr.nextState ((t.write tr.write).move tr.direction)

/-- The two differ at most in how their tables are written down. -/
structure Alike (s s' : Specification) : Prop where
  blank : s'.blank = s.blank
  startState : s'.startState = s.startState
  input : s'.input = s.input
  lookup : ∀ q c, s'.lookup q c = s.lookup q c

theorem lookup_eq_haltingState_iff {s : Specification} {q : String} {c : Char} :
    s.lookup q c = .error (.haltingState q) ↔ s.isHaltingState q = true := by
  rw [lookup_eq_error_iff, isHaltingState_iff]
  simp

end Specification

namespace Outcome
variable {α β : Type}

/-- The outcome for the same machine with another specification. -/
def withSpec (o : Outcome α) (s : Specification) : Outcome α :=
  ⟨{ o.machine with spec := s }, o.result, o.account⟩

end Outcome

namespace Machine

/-- A machine of `s` where `Safe` holds. -/
structure Kept (s : Specification) (Safe : String → Tape → Prop) (m : Machine) : Prop where
  spec : m.spec = s
  safe : Safe m.state m.tape

end Machine

namespace Specification.Lockstep
variable {s s' : Specification} {Safe : String → Tape → Prop} {m : Machine}

/-! ### Where the two say the same -/

theorem kept_ofSpec (h : s.Lockstep s' Safe) : (Machine.ofSpec s).Kept s Safe := ⟨rfl, h.start⟩

theorem kept_step (h : s.Lockstep s' Safe) (hm : m.Kept s Safe) : m.step.machine.Kept s Safe := by
  rcases m.step_cases with ⟨-, hs⟩ | ⟨e, -, -, hs⟩ | ⟨-, -, hs⟩ | ⟨t, -, hn, hs⟩
  · rw [hs]
    exact hm
  · rw [hs]
    exact hm
  · rw [hs]
    exact ⟨hm.spec, hm.safe⟩
  · rw [hs]
    have ht : s.lookup m.state m.tape.head = .ok (some t) := hm.spec ▸ hn
    exact ⟨hm.spec, h.next hm.safe ht⟩

theorem kept_performAll (h : s.Lockstep s' Safe) (hm : m.Kept s Safe) (ops : List Operation) :
    (m.performAll ops).Kept s Safe := by
  refine Machine.performAll_keeps (fun m => h.kept_step) (fun m hm => ?_) (fun m name hm => ?_) hm
    ops
  · obtain ⟨rfl, -⟩ := hm
    exact ⟨rfl, h.start⟩
  · exact ⟨hm.spec, hm.safe⟩

theorem kept_answer (h : s.Lockstep s' Safe) (hm : m.Kept s Safe) (r : Request) :
    (m.answer r).machine.Kept s Safe := by
  cases r with
  | perform op => exact h.kept_performAll hm [op]
  | lookup q c => exact hm
  | nextTransition => exact hm
  | read r => exact hm

/-! ### One machine for the other -/

theorem nextTransition (h : s.Lockstep s' Safe) (hm : m.Kept s Safe) :
    ({ m with spec := s' } : Machine).nextTransition = m.nextTransition := by
  rw [Machine.nextTransition, Machine.nextTransition, hm.spec]
  exact h.lookup hm.safe

theorem isHaltingState (h : s.Lockstep s' Safe) (hm : m.Kept s Safe) :
    s'.isHaltingState m.state = m.spec.isHaltingState m.state := by
  -- in a halting state the look-up fails whatever is read, so also for the symbol under the head
  rw [hm.spec, Bool.eq_iff_iff, ← lookup_eq_haltingState_iff (c := m.tape.head), h.lookup hm.safe,
    lookup_eq_haltingState_iff]

theorem step (h : s.Lockstep s' Safe) (hm : m.Kept s Safe) :
    ({ m with spec := s' } : Machine).step = m.step.withSpec s' := by
  have hn := h.nextTransition hm
  rcases m.step_cases with ⟨hr, hs⟩ | ⟨e, hr, hm, hs⟩ | ⟨hr, hm, hs⟩ | ⟨t, hr, hm, hs⟩
  · rw [hs]
    exact Machine.step_of_reported hr
  · rw [hs]
    exact Machine.step_of_error hr (hn.trans hm)
  · rw [hs]
    exact Machine.step_of_none hr (hn.trans hm)
  · rw [hs]
    exact Machine.step_of_some hr (hn.trans hm)

theorem runFor (h : s.Lockstep s' Safe) (hm : m.Kept s Safe) (n : Nat) :
    ({ m with spec := s' } : Machine).runFor n = (m.runFor n).withSpec s' := by
  revert hm
  refine Machine.runFor_induction (motive := fun m n o => m.Kept s Safe →
    ({ m with spec := s' } : Machine).runFor n = o.withSpec s') ?_ ?_ ?_ ?_ m n
  · exact fun m _ => rfl
  · intro m n hh hm
    exact Machine.runFor_succ_of_halting ((h.isHaltingState hm).trans hh) n
  · intro m n hh hs ih hm
    have hs' : ({ m with spec := s' } : Machine).step.result = .ok .continued := by
      rw [h.step hm]
      exact hs
    rw [Machine.runFor_succ_of_continued ((h.isHaltingState hm).trans hh) hs', h.step hm]
    exact congrArg (·.following m.step.account) (ih (h.kept_step hm))
  · intro m n hh hs hm
    have hs' : ({ m with spec := s' } : Machine).step.result ≠ .ok .continued := by
      rw [h.step hm]
      exact hs
    rw [Machine.runFor_succ_of_stopped ((h.isHaltingState hm).trans hh) hs', h.step hm]

theorem reset (h : s.Lockstep s' Safe) (hm : m.Kept s Safe) :
    ({ m with spec := s' } : Machine).reset = m.reset.withSpec s' := by
  simp [Machine.reset, Machine.ofSpec, Specification.initialTape, Outcome.withSpec, hm.spec,
    h.blank, h.startState, h.input]

theorem perform (h : s.Lockstep s' Safe) (hm : m.Kept s Safe) (op : Operation) :
    ({ m with spec := s' } : Machine).perform op = (m.perform op).withSpec s' := by
  cases op with
  | step =>
    show Outcome.map some (Machine.step _) = _
    rw [h.step hm]
    rfl
  | run =>
    show Outcome.map some (Machine.runFor _ _) = _
    rw [h.runFor hm]
    rfl
  | runFor n =>
    show Outcome.map some (Machine.runFor _ _) = _
    rw [h.runFor hm]
    rfl
  | reset =>
    show Outcome.map (fun _ => none) (Machine.reset _) = _
    rw [h.reset hm]
    rfl
  | observe name => rfl

theorem performAll (h : s.Lockstep s' Safe) (hm : m.Kept s Safe) (ops : List Operation) :
    ({ m with spec := s' } : Machine).performAll ops = { m.performAll ops with spec := s' } := by
  induction ops generalizing m with
  | nil => rfl
  | cons op ops ih =>
    show (Machine.perform _ op).machine.performAll ops = _
    rw [h.perform hm]
    exact ih (h.kept_performAll hm [op])

/-- Anything may be looked up on which the two agree. -/
theorem answer (h : s.Lockstep s' Safe) (hm : m.Kept s Safe) {r : Request}
    (hr : ∀ q c, r = .lookup q c → s'.lookup q c = s.lookup q c) :
    ({ m with spec := s' } : Machine).answer r = (m.answer r).withSpec s' := by
  cases r with
  | perform op =>
    rw [Machine.answer, h.perform hm]
    rfl
  | lookup q c =>
    show (⟨_, .found (s'.lookup q c), []⟩ : Outcome Answer) =
      ⟨_, .found (m.spec.lookup q c), []⟩
    rw [hr q c rfl, hm.spec]
    rfl
  | nextTransition =>
    show (⟨_, .found (Machine.nextTransition _), []⟩ : Outcome Answer) = _
    rw [h.nextTransition hm]
    rfl
  | read r => rfl

theorem transcript (h : s.Lockstep s' Safe) (hm : m.Kept s Safe) {rs : List Request}
    (hr : ∀ q c, .lookup q c ∈ rs → s'.lookup q c = s.lookup q c) :
    ({ m with spec := s' } : Machine).transcript rs = m.transcript rs := by
  induction rs generalizing m with
  | nil => rfl
  | cons r rs ih =>
    have hm' := h.kept_answer hm r
    have hresponse : ((m.answer r).withSpec s').response = (m.answer r).response := by
      have hn := h.nextTransition hm'
      simp only [Outcome.response, Outcome.withSpec, Outcome.notices, Machine.isHalted, hn]
    rw [Machine.transcript, Machine.transcript,
      h.answer hm fun q c hq => hr q c (hq ▸ List.mem_cons_self), hresponse]
    exact congrArg _ (ih hm' fun q c hq => hr q c (List.mem_cons_of_mem r hq))

/-! ### New machines -/

theorem ofSpec_eq (h : s.Lockstep s' Safe) :
    Machine.ofSpec s' = { Machine.ofSpec s with spec := s' } := by
  simp [Machine.ofSpec, Specification.initialTape, h.blank, h.startState, h.input]

theorem performAll_ofSpec (h : s.Lockstep s' Safe) (ops : List Operation) :
    (Machine.ofSpec s').performAll ops = { (Machine.ofSpec s).performAll ops with spec := s' } := by
  rw [h.ofSpec_eq, h.performAll h.kept_ofSpec]

/-- Nothing that is done with a new machine tells which of the two it was made for. -/
theorem transcript_ofSpec (h : s.Lockstep s' Safe) {rs : List Request}
    (hr : ∀ q c, .lookup q c ∈ rs → s'.lookup q c = s.lookup q c) :
    (Machine.ofSpec s').transcript rs = (Machine.ofSpec s).transcript rs := by
  rw [h.ofSpec_eq, h.transcript h.kept_ofSpec hr]

end Specification.Lockstep

namespace Specification.Alike
variable {s s' : Specification}

theorem lockstep (h : s.Alike s') : s.Lockstep s' fun _ _ => True :=
  ⟨h.blank, h.startState, h.input, trivial, fun _ => h.lookup _ _, fun _ _ => trivial⟩

theorem transcript_ofSpec (h : s.Alike s') (rs : List Request) :
    (Machine.ofSpec s').transcript rs = (Machine.ofSpec s).transcript rs :=
  h.lockstep.transcript_ofSpec fun q c _ => h.lookup q c

end Specification.Alike

end TuringTable
