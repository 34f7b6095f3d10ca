import Mathlib.Data.List.Chain
import TuringTable.Proofs.Machine.Latch
import TuringTable.Proofs.Machine.Session

/-!
# What observers are told

Every transition that is taken and every reset is an `Occasion`: all observers added by then are told
of the change, in the order in which they were added. `occasions` reads these off the results of the
single steps. What the operations tell is just that (`told_eq`). The changes form an unbroken chain
from the state before to the state after (`links_changes`), and those since the last reset are the
steps that the machine counts (`steps_performAll`).
-/

namespace TuringTable

/-- A change of state: a transition that was taken, or a reset. -/
structure Change where
  previous : String
  current : String
  byReset : Bool
deriving Repr, DecidableEq

/-- A change of state with the observers added by then, first one first. -/
structure Occasion where
  observers : List String
  change : Change
deriving Repr, DecidableEq

def Change.notice (c : Change) (name : String) : Notice := ⟨name, c.previous, c.current⟩

/-- Each observer is told of the change, first one first. -/
def Occasion.notices (o : Occasion) : List Notice := o.observers.map o.change.notice

namespace Machine

/-- The changes that at most `n` steps make. A step that takes no transition makes none, and no step
comes after it. -/
def changesIn (m : Machine) : Nat → List Change
  | 0 => []
  | n + 1 =>
    match m.step.result with
    | .ok .continued => ⟨m.state, m.step.machine.state, false⟩ :: m.step.machine.changesIn n
    | _ => []

def changesBy (m : Machine) : Operation → List Change
  | .step => m.changesIn 1
  | .run => m.changesIn defaultStepLimit
  | .runFor n => m.changesIn n
  | .reset => [⟨m.state, m.reset.machine.state, true⟩]
  | .observe _ => []

/-- The changes that a sequence of operations makes, in order. -/
def changes (m : Machine) : List Operation → List Change
  | [] => []
  | op :: ops => m.changesBy op ++ (m.perform op).machine.changes ops

/-- The changes again, each with the observers added by then if the first ones are `names`. -/
def occasions (m : Machine) (names : List String) : List Operation → List Occasion
  | [] => []
  | op :: ops =>
    (m.changesBy op).map (⟨names, ·⟩) ++
      (m.perform op).machine.occasions (names ++ op.observer?.toList) ops

/-- All that observers are told during a sequence of operations. -/
def told (m : Machine) : List Operation → List Notice
  | [] => []
  | op :: ops => (m.perform op).notices ++ (m.perform op).machine.told ops

variable {m : Machine}

theorem changesIn_of_stopped (hs : m.step.result ≠ .ok .continued) (n : Nat) :
    m.changesIn n = [] := by
  cases n with
  | zero => rfl
  | succ n =>
    rw [changesIn]
    split
    · contradiction
    · rfl

theorem not_continued_of_halting (hh : m.spec.isHaltingState m.state = true) :
    m.step.result ≠ .ok .continued := by
  rw [Ne, step_result_eq_continued_iff]
  rintro ⟨-, t, ht⟩
  rw [nextTransition_of_halting hh] at ht
  cases ht

/-- A step makes no change and tells nothing, or it takes a transition. -/
theorem step_changes (m : Machine) :
    ((∀ n, m.changesIn n = []) ∧ m.step.notices = [] ∧
        ∃ b, m.step.machine = { m with haltReported := b }) ∨
      ∃ t, m.step = ⟨m.apply t, .ok .continued, [.moved m.state m.tape.head t]⟩ ∧
        ∀ n, m.changesIn (n + 1) = ⟨m.state, t.nextState, false⟩ :: (m.apply t).changesIn n := by
  by_cases hs : m.step.result = .ok .continued
  · obtain ⟨hr, t, ht⟩ := step_result_eq_continued_iff.1 hs
    have hstep := step_of_some hr ht
    refine .inr ⟨t, hstep, fun n => ?_⟩
    rw [changesIn, hstep]
    rfl
  · obtain ⟨hmachine, hnotices⟩ := step_of_not_continued hs
    exact .inl ⟨changesIn_of_stopped hs, hnotices, _, hmachine⟩

/-- Induction along the changes that a run makes: it ends without one, or one comes first. -/
theorem runFor_changes {motive : Machine → List Change → Outcome (Except MachineError Step) → Prop}
    (ended : ∀ m b o, o.machine = { m with haltReported := b } → o.notices = [] → motive m [] o)
    (changed : ∀ m t n, motive (m.apply t) ((m.apply t).changesIn n) ((m.apply t).runFor n) →
      motive m (⟨m.state, t.nextState, false⟩ :: (m.apply t).changesIn n)
        (((m.apply t).runFor n).following [.moved m.state m.tape.head t]))
    (m : Machine) (n : Nat) : motive m (m.changesIn n) (m.runFor n) := by
  refine runFor_induction (motive := fun m n o => motive m (m.changesIn n) o) ?_ ?_ ?_ ?_ m n
  · exact fun m => ended m m.haltReported _ rfl rfl
  · intro m n hh
    rw [changesIn_of_stopped (not_continued_of_halting hh)]
    exact ended m m.haltReported _ rfl rfl
  · intro m n hh hs ih
    rcases m.step_changes with ⟨hno, -⟩ | ⟨t, hstep, hchanges⟩
    · have hone : m.changesIn 1 ≠ [] := by
        rw [changesIn, hs]
        nofun
      exact absurd (hno 1) hone
    · rw [hstep] at ih ⊢
      rw [hchanges]
      exact changed m t n ih
  · intro m n hh hs
    obtain ⟨hmachine, hnotices⟩ := step_of_not_continued hs
    rw [changesIn_of_stopped hs]
    exact ended m _ _ hmachine hnotices

/-! ### What is told -/

theorem notices_following {α : Type} (o : Outcome α) (m : Machine) (t : Transition) :
    (o.following [.moved m.state m.tape.head t]).notices =
      o.machine.observers.map (⟨·, m.state, t.nextState⟩) ++ o.notices := rfl

theorem notices_step (m : Machine) :
    m.step.notices = (m.changesIn 1).flatMap fun c => m.observers.map c.notice := by
  rcases m.step_changes with ⟨hno, hnotices, -⟩ | ⟨t, hstep, hchanges⟩
  · rw [hno, hnotices, List.flatMap_nil]
  · rw [hchanges, hstep]
    rfl

/-- A run tells its observers of every transition and of nothing else. -/
theorem notices_runFor (m : Machine) (n : Nat) :
    (m.runFor n).notices = (m.changesIn n).flatMap fun c => m.observers.map c.notice := by
  refine runFor_changes (motive := fun m cs o =>
    o.notices = cs.flatMap fun c => m.observers.map c.notice) ?_ ?_ m n
  · exact fun m b o _ hnotices => hnotices
  · intro m t n ih
    rw [notices_following, ih, observers_runFor, List.flatMap_cons]
    rfl

theorem notices_perform (m : Machine) (op : Operation) :
    (m.perform op).notices = (m.changesBy op).flatMap fun c => m.observers.map c.notice := by
  cases op with
  | step => exact m.notices_step
  | run => exact m.notices_runFor defaultStepLimit
  | runFor n => exact m.notices_runFor n
  | reset => rfl
  | observe name => rfl

/-- On each occasion all observers added by then are told, in order, and on no other. -/
theorem told_eq (m : Machine) (ops : List Operation) :
    m.told ops = (m.occasions m.observers ops).flatMap Occasion.notices := by
  induction ops generalizing m with
  | nil => rfl
  | cons op ops ih =>
    rw [told, occasions, List.flatMap_append, ih, ← observers_perform, notices_perform,
      List.flatMap_map]
    rfl

/-! ### What one observer hears -/

theorem map_change_occasions (m : Machine) (names : List String) (ops : List Operation) :
    (m.occasions names ops).map (·.change) = m.changes ops := by
  induction ops generalizing m names with
  | nil => rfl
  | cons op ops ih =>
    rw [occasions, changes, List.map_append, ih, List.map_map]
    congr 1
    exact List.map_id _

theorem occasions_append (m : Machine) (names : List String) (before after : List Operation) :
    m.occasions names (before ++ after) = m.occasions names before ++
      (m.performAll before).occasions (names ++ before.filterMap Operation.observer?) after := by
  induction before generalizing m names with
  | nil => rw [List.filterMap_nil, List.append_nil]; rfl
  | cons op before ih =>
    rw [List.cons_append, occasions, occasions, ih, List.append_assoc, List.append_assoc]
    congr 3
    cases ho : op.observer? <;> simp [ho]

/-- Those told on an occasion are the first ones and some of the ones added since. -/
theorem observers_of_mem_occasions {names : List String} {ops : List Operation} {o : Occasion}
    (ho : o ∈ m.occasions names ops) :
    names <+: o.observers ∧ o.observers <+: names ++ ops.filterMap Operation.observer? := by
  induction ops generalizing m names with
  | nil => cases ho
  | cons op ops ih =>
    rw [occasions, List.mem_append, List.mem_map] at ho
    rcases ho with ⟨c, -, rfl⟩ | ho
    · exact ⟨List.prefix_rfl, List.prefix_append _ _⟩
    · obtain ⟨hfirst, hlast⟩ := ih ho
      refine ⟨(List.prefix_append _ _).trans hfirst, ?_⟩
      rw [List.append_assoc] at hlast
      cases hop : op.observer? <;> simpa [hop] using hlast

/-- What the observer hears that was added when there were `i` others. -/
def heard (i : Nat) (os : List Occasion) : List Notice := os.filterMap (·.notices[i]?)

/-- An observer that is there hears of all changes. -/
theorem heard_of_getElem? {names : List String} {i : Nat} {name : String}
    (hi : names[i]? = some name) (ops : List Operation) :
    heard i (m.occasions names ops) = (m.changes ops).map (·.notice name) := by
  have hall : ∀ o ∈ m.occasions names ops, o.notices[i]? = some (o.change.notice name) := by
    intro o ho
    obtain ⟨⟨added, hadded⟩, -⟩ := observers_of_mem_occasions ho
    have hname : o.observers[i]? = some name := by
      rw [← hadded, List.getElem?_append_left (List.getElem?_eq_some_iff.1 hi).1, hi]
    rw [Occasion.notices, List.getElem?_map, hname]
    rfl
  rw [heard, List.filterMap_congr hall, ← map_change_occasions m names, List.map_map,
    ← List.filterMap_eq_map]
  rfl

/-- An observer that is still to be added hears nothing. -/
theorem heard_eq_nil {names : List String} {ops : List Operation} {i : Nat}
    (hi : (names ++ ops.filterMap Operation.observer?).length ≤ i) :
    heard i (m.occasions names ops) = [] := by
  rw [heard, List.filterMap_eq_nil_iff]
  intro o ho
  obtain ⟨-, hlast⟩ := observers_of_mem_occasions ho
  rw [Occasion.notices, List.getElem?_map, List.getElem?_eq_none (hlast.length_le.trans hi)]
  rfl

/-! ### The chain of changes -/

/-- The changes lead from one state to the other, each from where the one before it led. -/
inductive Links : String → List Change → String → Prop where
  | nil (q : String) : Links q [] q
  | cons {c : Change} {cs : List Change} {q q' : String} : c.previous = q → Links c.current cs q' →
      Links q (c :: cs) q'

namespace Links
variable {q q' q'' : String} {cs ds : List Change}

theorem append (h : Links q cs q') (h' : Links q' ds q'') : Links q (cs ++ ds) q'' := by
  induction h with
  | nil => exact h'
  | cons hc _ ih => exact .cons hc (ih h')

theorem previous_of_head? (h : Links q cs q') : ∀ c ∈ cs.head?, c.previous = q := by
  cases h with
  | nil => exact nofun
  | cons hc _ => exact fun c h => Option.some.inj h ▸ hc

theorem isChain (h : Links q cs q') : cs.IsChain fun c d => d.previous = c.current := by
  induction h with
  | nil => exact .nil
  | cons _ h ih => exact List.isChain_cons.2 ⟨h.previous_of_head?, ih⟩

theorem current_of_getLast? (h : Links q cs q') : ∀ c ∈ cs.getLast?, c.current = q' := by
  induction h with
  | nil => exact nofun
  | cons _ h ih =>
    intro d hd
    cases h with
    | nil => exact congrArg Change.current (Option.some.inj hd).symm
    | cons => exact ih d (by rwa [List.getLast?_cons_cons] at hd)

end Links

theorem links_runFor (m : Machine) (n : Nat) :
    Links m.state (m.changesIn n) (m.runFor n).machine.state := by
  refine runFor_changes (motive := fun m cs o => Links m.state cs o.machine.state) ?_ ?_ m n
  · intro m b o hmachine _
    rw [hmachine]
    exact .nil _
  · exact fun m t n ih => .cons rfl ih

theorem links_perform (m : Machine) (op : Operation) :
    Links m.state (m.changesBy op) (m.perform op).machine.state := by
  cases op with
  | step =>
    show Links m.state (m.changesIn 1) m.step.machine.state
    rcases m.step_changes with ⟨hno, -, b, hmachine⟩ | ⟨t, hstep, hchanges⟩
    · rw [hno, hmachine]
      exact .nil _
    · rw [hchanges, hstep]
      exact .cons rfl (.nil _)
  | run => exact m.links_runFor defaultStepLimit
  | runFor n => exact m.links_runFor n
  | reset => exact .cons rfl (.nil _)
  | observe name => exact .nil _

theorem links_changes (m : Machine) (ops : List Operation) :
    Links m.state (m.changes ops) (m.performAll ops).state := by
  induction ops generalizing m with
  | nil => exact .nil _
  | cons op ops ih => exact (m.links_perform op).append (ih (m.perform op).machine)

/-! ### The number of steps -/

/-- The transitions taken since the last reset, last one first. -/
def sinceReset (cs : List Change) : List Change := cs.reverse.takeWhile (!·.byReset)

theorem length_sinceReset_append {cs ds : List Change} (h : ∀ c ∈ ds, c.byReset = false) :
    (sinceReset (cs ++ ds)).length = (sinceReset cs).length + ds.length := by
  have hds : ∀ c ∈ ds.reverse, (!c.byReset) = true := by simpa using h
  rw [sinceReset, List.reverse_append, List.takeWhile_append_of_pos hds, List.length_append,
    List.length_reverse, Nat.add_comm]
  rfl

theorem byReset_of_mem_changesIn {n : Nat} {c : Change} (hc : c ∈ m.changesIn n) :
    c.byReset = false := by
  induction n generalizing m with
  | zero => cases hc
  | succ n ih =>
    rcases m.step_changes with ⟨hno, -⟩ | ⟨t, -, hchanges⟩
    · rw [hno] at hc
      cases hc
    · rw [hchanges] at hc
      rcases List.mem_cons.1 hc with rfl | hc
      · rfl
      · exact ih hc

theorem steps_step (m : Machine) : m.step.machine.steps = m.steps + (m.changesIn 1).length := by
  rcases m.step_changes with ⟨hno, -, b, hmachine⟩ | ⟨t, hstep, hchanges⟩
  · rw [hno, hmachine]
    rfl
  · rw [hchanges, hstep]
    rfl

theorem steps_runFor (m : Machine) (n : Nat) :
    (m.runFor n).machine.steps = m.steps + (m.changesIn n).length := by
  refine runFor_changes (motive := fun m cs o => o.machine.steps = m.steps + cs.length) ?_ ?_ m n
  · intro m b o hmachine _
    rw [hmachine]
    rfl
  · intro m t n ih
    have happly : (m.apply t).steps = m.steps + 1 := rfl
    rw [Outcome.following, ih, happly, List.length_cons]
    omega

theorem changes_append (m : Machine) (before after : List Operation) :
    m.changes (before ++ after) = m.changes before ++ (m.performAll before).changes after := by
  rw [← map_change_occasions m [], occasions_append, List.map_append, map_change_occasions,
    map_change_occasions]

/-- The machine counts the transitions since the last reset. -/
theorem steps_performAll (hm : m.steps = 0) (ops : List Operation) :
    (m.performAll ops).steps = (sinceReset (m.changes ops)).length := by
  -- a reset starts anew, and any other operation adds what it changes to what was there
  induction ops using List.reverseRecOn with
  | nil => exact hm
  | append_singleton ops op ih =>
    have hchanges : m.changes (ops ++ [op]) =
        m.changes ops ++ (m.performAll ops).changesBy op := by
      rw [changes_append, changes, changes, List.append_nil]
    have hrun (n : Nat) : ((m.performAll ops).runFor n).machine.steps =
        (sinceReset (m.changes ops ++ (m.performAll ops).changesIn n)).length := by
      rw [length_sinceReset_append fun c => byReset_of_mem_changesIn, steps_runFor, ih]
    rw [performAll_concat, hchanges]
    cases op with
    | step =>
      rw [changesBy, length_sinceReset_append fun c => byReset_of_mem_changesIn, ← ih]
      exact steps_step _
    | run => exact hrun defaultStepLimit
    | runFor n => exact hrun n
    | reset =>
      rw [changesBy, sinceReset, List.reverse_append]
      rfl
    | observe name =>
      rw [changesBy, List.append_nil, ← ih]
      rfl

/-- Observers see every change of state once, in order. What they are told is told on occasions, each
a transition or a reset, where all observers added by then are told in the order in which they were
added. So an observer hears of all changes since it was added and of nothing else; they lead without
a break from the state in which it was added to the state now. The machine's count of steps is the
number of transitions since the last reset. -/
theorem told_of_every_change (s : Specification) (ops : List Operation) :
    let start := ofSpec s
    let m := start.performAll ops
    start.told ops = (start.occasions [] ops).flatMap Occasion.notices ∧
      (start.occasions [] ops).map (·.change) = start.changes ops ∧
      (∀ before name after, ops = before ++ .observe name :: after →
        let added := (start.performAll before).observe name
        let others := before.filterMap Operation.observer?
        let notices := heard others.length (start.occasions [] ops)
        notices = (added.changes after).map (·.notice name) ∧
          notices.IsChain (fun n n' => n'.previous = n.current) ∧
          (∀ n ∈ notices.head?, n.previous = added.state) ∧
          ∀ n ∈ notices.getLast?, n.current = m.state) ∧
      m.steps = (sinceReset (start.changes ops)).length := by
  intro start m
  refine ⟨start.told_eq ops, start.map_change_occasions [] ops, ?_, steps_performAll rfl ops⟩
  intro before name after hops added others notices
  -- before it is added it hears nothing, and from then on it is one of those that are told
  have hnotices : notices = (added.changes after).map (·.notice name) := by
    have hbefore : heard others.length (start.occasions [] before) = [] :=
      heard_eq_nil (by rw [List.nil_append])
    have hlast : (others ++ [name])[others.length]? = some name := List.getElem?_concat_length
    show heard others.length (start.occasions [] ops) = _
    rw [hops, occasions_append, heard, List.filterMap_append, ← heard, ← heard, hbefore,
      List.nil_append, List.nil_append]
    exact heard_of_getElem? hlast after
  have hlinks : Links added.state (added.changes after) m.state := by
    have hm : m = added.performAll after := by
      show start.performAll ops = _
      rw [hops, performAll, List.foldl_append]
      rfl
    rw [hm]
    exact links_changes added after
  rw [hnotices, List.isChain_map, List.head?_map, List.getLast?_map]
  refine ⟨rfl, hlinks.isChain, ?_, ?_⟩
  · intro n hn
    obtain ⟨c, hc, rfl⟩ := Option.map_eq_some_iff.1 hn
    exact hlinks.previous_of_head? c hc
  · intro n hn
    obtain ⟨c, hc, rfl⟩ := Option.map_eq_some_iff.1 hn
    exact hlinks.current_of_getLast? c hc

/-- The second observer is told of a loop and of the reset out of a halting state, but not of the
step that failed there nor of the transition before it was added. -/
theorem told_across_reset :
    let s : Specification := ⟨' ', "A", .ofList [("A", some (.ofList
      [('a', .move .right), ('b', ⟨none, .left, some "B"⟩)])), ("B", none)], ['a', 'a', 'b']⟩
    let ops : List Operation :=
      [.observe "x", .step, .observe "y", .run, .step, .reset, .runFor 1]
    let notices := heard 1 ((ofSpec s).occasions [] ops)
    (ofSpec s).told ops = [⟨"x", "A", "A"⟩, ⟨"x", "A", "A"⟩, ⟨"y", "A", "A"⟩, ⟨"x", "A", "B"⟩,
        ⟨"y", "A", "B"⟩, ⟨"x", "B", "A"⟩, ⟨"y", "B", "A"⟩, ⟨"x", "A", "A"⟩, ⟨"y", "A", "A"⟩] ∧
      notices = [⟨"y", "A", "A"⟩, ⟨"y", "A", "B"⟩, ⟨"y", "B", "A"⟩, ⟨"y", "A", "A"⟩] ∧
      notices.IsChain (fun n n' => n'.previous = n.current) ∧
      ((ofSpec s).performAll ops).steps = 1 := by
  intro s ops notices
  obtain ⟨htold, -, hheard, hsteps⟩ := told_of_every_change s ops
  obtain ⟨hnotices, hchain, -⟩ :=
    hheard [.observe "x", .step] "y" [.run, .step, .reset, .runFor 1] rfl
  refine ⟨?_, hnotices.trans ?_, hchain, ?_⟩
  · rw [htold]
    decide
  · decide
  · rw [hsteps]
    decide

end Machine

end TuringTable
