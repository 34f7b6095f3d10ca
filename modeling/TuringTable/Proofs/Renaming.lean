import Mathlib.Logic.Equiv.Basic
import TuringTable.Proofs.Reachability

/-!
# Names do not matter

A `Renaming` gives states and symbols other names, no two the same; only the wildcard keeps its
name, for the rows know it. Under the new names a table may be in another order, but a map is asked
for its keys (`SortedMap.get?_mapKeys`), so what is looked up is what was found before, renamed
(`Specification.lookup_rename`). Every operation then comes to the same, renamed
(`Machine.perform_rename`). The check and the search go through the table in order, and yet what is
declared, closed or come to along cells does not depend on it (`closed_rename_iff`,
`reachable_rename_iff`).
-/

namespace TuringTable

/-- New names for the states and the symbols, no two the same. The wildcard keeps its name. -/
structure Renaming where
  state : String → String
  symbol : Char → Char
  state_injective : Function.Injective state
  symbol_injective : Function.Injective symbol
  symbol_wildcard : symbol wildcard = wildcard

variable (ρ : Renaming)

/-! ### What is renamed -/

def Instruction.rename (i : Instruction) : Instruction :=
  ⟨i.write.map ρ.symbol, i.direction, i.nextState.map ρ.state⟩

def Transition.rename (t : Transition) : Transition :=
  ⟨ρ.symbol t.write, t.direction, ρ.state t.nextState⟩

def Row.rename (row : Row) : Row := row.mapKeys ρ.symbol (·.rename ρ)

def Table.rename (t : Table) : Table := t.mapKeys ρ.state (Option.map (Row.rename ρ))

def Specification.rename (s : Specification) : Specification :=
  ⟨ρ.symbol s.blank, ρ.state s.startState, s.table.rename ρ, s.input.map ρ.symbol⟩

/-- The same cells with other symbols, and the head at the same place. -/
def Tape.rename (t : Tape) : Tape :=
  ⟨ρ.symbol t.blank, t.before.map ρ.symbol, t.after.map ρ.symbol, t.position⟩

def MachineError.rename : MachineError → MachineError
  | unknownState q => unknownState (ρ.state q)
  | haltingState q => haltingState (ρ.state q)
  | alreadyHalted q c => alreadyHalted (ρ.state q) (ρ.symbol c)

def Happening.rename : Happening → Happening
  | moved q c t => moved (ρ.state q) (ρ.symbol c) (t.rename ρ)
  | halted q c n => halted (ρ.state q) (ρ.symbol c) n
  | wasReset p q => wasReset (ρ.state p) (ρ.state q)

/-- The same machine with other names; the steps, the latch and the observers stay. -/
def Machine.rename (m : Machine) : Machine :=
  { m with spec := m.spec.rename ρ, state := ρ.state m.state, tape := m.tape.rename ρ }

namespace Renaming

/-- What a look-up found. -/
def found : Except MachineError (Option Transition) → Except MachineError (Option Transition)
  | .ok t => .ok (t.map (·.rename ρ))
  | .error e => .error (e.rename ρ)

/-- What a step or a run came to. -/
def ran : Except MachineError Step → Except MachineError Step
  | .ok r => .ok r
  | .error e => .error (e.rename ρ)

theorem ran_eq_ok_iff {r : Except MachineError Step} {x : Step} : ρ.ran r = .ok x ↔ r = .ok x := by
  cases r <;> simp [ran]

end Renaming

namespace Outcome
variable {α : Type}

/-- The outcome with other names, its result as `f` has it. -/
def rename (f : α → α) (o : Outcome α) : Outcome α :=
  ⟨o.machine.rename ρ, f o.result, o.account.map (·.rename ρ)⟩

theorem rename_following (f : α → α) (o : Outcome α) (happened : List Happening) :
    (o.following happened).rename ρ f =
      (o.rename ρ f).following (happened.map (·.rename ρ)) := by
  simp [following, rename]

end Outcome

/-! ### Look-ups -/

theorem Instruction.target_rename (i : Instruction) (q : String) :
    (i.rename ρ).target (ρ.state q) = ρ.state (i.target q) :=
  Option.getD_map ρ.state q i.nextState

theorem Instruction.resolve_rename (i : Instruction) (q : String) (c : Char) :
    (i.rename ρ).resolve (ρ.state q) (ρ.symbol c) = (i.resolve q c).rename ρ := by
  rw [resolve, target_rename]
  show (⟨(i.write.map ρ.symbol).getD (ρ.symbol c), _, _⟩ : Transition) = _
  rw [Option.getD_map]
  rfl

theorem Row.get?_rename (row : Row) (c : Char) :
    (row.rename ρ).get? (ρ.symbol c) = (row.get? c).map (·.rename ρ) :=
  SortedMap.get?_mapKeys ρ.symbol_injective _ row c

namespace Specification
variable {s : Specification}

theorem get?_rename (s : Specification) (q : String) :
    (s.rename ρ).table.get? (ρ.state q) = (s.table.get? q).map (Option.map (Row.rename ρ)) :=
  SortedMap.get?_mapKeys ρ.state_injective _ s.table q

theorem instruction?_rename (row : Row) (c : Char) :
    instruction? (row.rename ρ) (ρ.symbol c) = (instruction? row c).map (·.rename ρ) := by
  -- the row is asked for the wildcard under its old name, which it has kept
  have hw := row.get?_rename ρ wildcard
  rw [ρ.symbol_wildcard] at hw
  rw [instruction?, instruction?, Row.get?_rename, hw]
  cases row.get? c <;> rfl

theorem lookup_rename (s : Specification) (q : String) (c : Char) :
    (s.rename ρ).lookup (ρ.state q) (ρ.symbol c) = ρ.found (s.lookup q c) := by
  rw [lookup, lookup, get?_rename]
  rcases s.table.get? q with _ | _ | row
  · rfl
  · rfl
  · show Except.ok ((instruction? (row.rename ρ) (ρ.symbol c)).map _) =
      Except.ok (((instruction? row c).map _).map _)
    rw [instruction?_rename, Option.map_map, Option.map_map]
    exact congrArg (fun f => Except.ok (Option.map f _)) (funext fun i => i.resolve_rename ρ q c)

theorem isHaltingState_rename (s : Specification) (q : String) :
    (s.rename ρ).isHaltingState (ρ.state q) = s.isHaltingState q := by
  rw [Bool.eq_iff_iff, isHaltingState_iff, isHaltingState_iff, get?_rename]
  rcases s.table.get? q with _ | _ | row <;> simp

end Specification

/-! ### Tapes -/

namespace Tape

@[simp] theorem head_rename (t : Tape) : (t.rename ρ).head = ρ.symbol t.head := by
  rw [head, rename, Array.back?_map, Option.getD_map]
  rfl

theorem read_rename (t : Tape) (i : Int) : (t.rename ρ).read i = ρ.symbol (t.read i) := by
  have hmap (cells : Array Char) (n : Nat) :
      fromEnd? (cells.map ρ.symbol) n = (fromEnd? cells n).map ρ.symbol := by
    rw [fromEnd?, fromEnd?, Array.size_map, Array.getElem?_map]
    split <;> rfl
  rw [read, read, ← Option.getD_map ρ.symbol]
  simp only [rename, hmap]
  split <;> rfl

theorem ofInput_rename (b : Char) (cs : List Char) :
    ofInput (ρ.symbol b) (cs.map ρ.symbol) = (ofInput b cs).rename ρ := by
  cases cs <;> simp [ofInput, rename]

theorem write_rename (t : Tape) (c : Char) :
    (t.rename ρ).write (ρ.symbol c) = (t.write c).rename ρ := by
  show (⟨_, _, ((t.rename ρ).write _).after, _⟩ : Tape) = ⟨_, _, (t.write c).after.map _, _⟩
  rw [after_write, after_write, Array.map_push, Array.map_pop]
  rfl

theorem moveLeft_rename (t : Tape) : (t.rename ρ).moveLeft = t.moveLeft.rename ρ := by
  simp only [moveLeft, rename, Array.back?_map, Option.getD_map, Array.map_push, Array.map_pop]

theorem moveRight_rename (t : Tape) : (t.rename ρ).moveRight = t.moveRight.rename ρ := by
  have hempty : (t.after.pop.map ρ.symbol).isEmpty = t.after.pop.isEmpty := by
    simp only [Array.isEmpty, Array.size_map]
  simp only [moveRight, rename, Array.back?_map, ← Array.map_pop, hempty]
  cases t.after.back? <;> cases t.after.pop.isEmpty <;> simp

theorem move_rename (t : Tape) (d : Direction) : (t.rename ρ).move d = (t.move d).rename ρ := by
  cases d with
  | left => exact t.moveLeft_rename ρ
  | right => exact t.moveRight_rename ρ

end Tape

/-! ### Machines -/

namespace Machine

theorem ofSpec_rename (s : Specification) : ofSpec (s.rename ρ) = (ofSpec s).rename ρ := by
  show (⟨_, _, .ofInput (ρ.symbol s.blank) (s.input.map ρ.symbol), _, _, _⟩ : Machine) = _
  rw [Tape.ofInput_rename]
  rfl

theorem nextTransition_rename (m : Machine) :
    (m.rename ρ).nextTransition = ρ.found m.nextTransition := by
  show (m.spec.rename ρ).lookup (ρ.state m.state) (m.tape.rename ρ).head = _
  rw [Tape.head_rename, Specification.lookup_rename]
  rfl

theorem apply_rename (m : Machine) (t : Transition) :
    (m.rename ρ).apply (t.rename ρ) = (m.apply t).rename ρ := by
  show (⟨_, _, ((m.tape.rename ρ).write (ρ.symbol t.write)).move t.direction, _, _, _⟩ : Machine) =
    _
  rw [Tape.write_rename, Tape.move_rename]
  rfl

theorem step_rename (m : Machine) : (m.rename ρ).step = m.step.rename ρ ρ.ran := by
  have hnext := m.nextTransition_rename ρ
  have hhead : (m.rename ρ).tape.head = ρ.symbol m.tape.head := m.tape.head_rename ρ
  rcases m.step_cases with ⟨hr, hs⟩ | ⟨e, hr, hn, hs⟩ | ⟨hr, hn, hs⟩ | ⟨t, hr, hn, hs⟩
  · rw [hs, step_of_reported (m := m.rename ρ) hr, hhead]
    rfl
  · rw [hn] at hnext
    rw [hs, step_of_error (m := m.rename ρ) hr hnext]
    rfl
  · rw [hn] at hnext
    rw [hs, step_of_none (m := m.rename ρ) hr hnext, hhead]
    rfl
  · rw [hn] at hnext
    rw [hs, step_of_some (m := m.rename ρ) hr hnext, hhead, apply_rename]
    rfl

theorem isHaltingState_rename (m : Machine) :
    (m.rename ρ).spec.isHaltingState (m.rename ρ).state = m.spec.isHaltingState m.state :=
  m.spec.isHaltingState_rename ρ m.state

theorem continued_rename_iff (m : Machine) :
    (m.rename ρ).step.result = .ok .continued ↔ m.step.result = .ok .continued := by
  rw [step_rename]
  exact ρ.ran_eq_ok_iff

theorem runFor_rename (m : Machine) (n : Nat) :
    (m.rename ρ).runFor n = (m.runFor n).rename ρ ρ.ran := by
  refine runFor_induction (motive := fun m n o => (m.rename ρ).runFor n = o.rename ρ ρ.ran)
    ?_ ?_ ?_ ?_ m n
  · exact fun m => rfl
  · exact fun m n hh => runFor_succ_of_halting ((m.isHaltingState_rename ρ).trans hh) n
  · intro m n hh hs ih
    rw [runFor_succ_of_continued ((m.isHaltingState_rename ρ).trans hh)
      ((m.continued_rename_iff ρ).2 hs), step_rename, Outcome.rename_following, ← ih]
    rfl
  · intro m n hh hs
    rw [runFor_succ_of_stopped ((m.isHaltingState_rename ρ).trans hh)
      (mt (m.continued_rename_iff ρ).1 hs), step_rename]

theorem reset_rename (m : Machine) : (m.rename ρ).reset = m.reset.rename ρ id := by
  show (⟨{ ofSpec (m.spec.rename ρ) with observers := m.observers }, _, _⟩ : Outcome Unit) = _
  rw [ofSpec_rename]
  rfl

/-- Every operation comes to the same with other names. -/
theorem perform_rename (m : Machine) (op : Operation) :
    (m.rename ρ).perform op = (m.perform op).rename ρ (Option.map ρ.ran) := by
  have hrun (n : Nat) : ((m.rename ρ).runFor n).map some =
      ((m.runFor n).map some).rename ρ (Option.map ρ.ran) := by
    rw [runFor_rename]
    rfl
  cases op with
  | step =>
    show (m.rename ρ).step.map some = _
    rw [step_rename]
    rfl
  | run => exact hrun defaultStepLimit
  | runFor n => exact hrun n
  | reset =>
    show (m.rename ρ).reset.map (fun _ => none) = _
    rw [reset_rename]
    rfl
  | observe name => rfl

theorem performAll_rename (m : Machine) (ops : List Operation) :
    (m.rename ρ).performAll ops = (m.performAll ops).rename ρ := by
  induction ops generalizing m with
  | nil => rfl
  | cons op ops ih =>
    show ((m.rename ρ).perform op).machine.performAll ops = _
    rw [perform_rename]
    exact ih (m.perform op).machine

end Machine

/-! ### The check and the search -/

namespace Specification
variable {s : Specification} {p q t : String}

theorem get?_rename_eq_some_iff {row? : Option Row} :
    (s.rename ρ).table.get? p = some row? ↔
      ∃ q row, s.table.get? q = some row ∧ ρ.state q = p ∧ row.map (Row.rename ρ) = row? :=
  SortedMap.get?_mapKeys_eq_some_iff ρ.state_injective

@[simp] theorem declares_rename (s : Specification) (q : String) :
    (s.rename ρ).declares (ρ.state q) = s.declares q := by
  rw [declares, declares, SortedMap.contains, SortedMap.contains, get?_rename, Option.isSome_map]

theorem declares_rename_iff :
    (s.rename ρ).declares p = true ↔ ∃ q, s.declares q = true ∧ ρ.state q = p := by
  constructor
  · intro h
    obtain ⟨row?, hp⟩ := Option.isSome_iff_exists.1 h
    obtain ⟨q, row, hq, rfl, -⟩ := (get?_rename_eq_some_iff ρ).1 hp
    exact ⟨q, declares_of_get? hq, rfl⟩
  · rintro ⟨q, hq, rfl⟩
    rw [declares_rename, hq]

/-- Cells lead from and to the renamed states as they did. -/
theorem leads_rename_iff :
    (s.rename ρ).Leads p t ↔ ∃ q r, s.Leads q r ∧ ρ.state q = p ∧ ρ.state r = t := by
  constructor
  · rintro ⟨row', c', i', hp, hc', rfl⟩
    obtain ⟨q, row?, hq, rfl, hrow⟩ := (get?_rename_eq_some_iff ρ).1 hp
    obtain ⟨row, rfl, rfl⟩ := Option.map_eq_some_iff.1 hrow
    obtain ⟨c, i, hc, rfl, rfl⟩ :=
      (SortedMap.get?_mapKeys_eq_some_iff ρ.symbol_injective).1 hc'
    exact ⟨q, _, ⟨row, c, i, hq, hc, rfl⟩, rfl, (i.target_rename ρ q).symm⟩
  · rintro ⟨q, r, ⟨row, c, i, hq, hc, rfl⟩, rfl, rfl⟩
    exact ⟨row.rename ρ, ρ.symbol c, i.rename ρ, by rw [get?_rename, hq]; rfl,
      by rw [Row.get?_rename, hc]; rfl, (i.target_rename ρ q).symm⟩

theorem closed_rename_iff : (s.rename ρ).Closed ↔ s.Closed := by
  rw [closed_iff_leads, closed_iff_leads]
  refine and_congr (Bool.eq_iff_iff.1 (s.declares_rename ρ s.startState)) ⟨?_, ?_⟩
  · intro h q t hl
    rw [← declares_rename ρ]
    exact h _ _ ((leads_rename_iff ρ).2 ⟨q, t, hl, rfl, rfl⟩)
  · intro h p t hl
    obtain ⟨q, r, hqr, rfl, rfl⟩ := (leads_rename_iff ρ).1 hl
    rw [declares_rename]
    exact h q r hqr

theorem reachable_rename_iff :
    (s.rename ρ).Reachable p ↔ ∃ q, s.Reachable q ∧ ρ.state q = p := by
  constructor
  · intro h
    -- every state on the path is the new name of one, and of one only
    induction h with
    | refl => exact ⟨s.startState, .refl, rfl⟩
    | tail _ hl ih =>
      obtain ⟨q, hq, rfl⟩ := ih
      obtain ⟨q', r, hqr, heq, rfl⟩ := (leads_rename_iff ρ).1 hl
      obtain rfl := ρ.state_injective heq
      exact ⟨r, hq.tail hqr, rfl⟩
  · rintro ⟨q, hq, rfl⟩
    exact Relation.ReflTransGen.lift ρ.state
      (fun q r hl => (leads_rename_iff ρ).2 ⟨q, r, hl, rfl, rfl⟩) _ _ hq

theorem mem_unreachable_rename_iff :
    p ∈ (s.rename ρ).unreachable ↔ ∃ q ∈ s.unreachable, ρ.state q = p := by
  rw [mem_unreachable_iff, declares_rename_iff, reachable_rename_iff]
  constructor
  · rintro ⟨⟨q, hq, rfl⟩, hn⟩
    exact ⟨q, mem_unreachable_iff.2 ⟨hq, fun hpath => hn ⟨q, hpath, rfl⟩⟩, rfl⟩
  · rintro ⟨q, hq, rfl⟩
    obtain ⟨hdecl, hn⟩ := mem_unreachable_iff.1 hq
    exact ⟨⟨q, hdecl, rfl⟩, fun ⟨r, hpath, heq⟩ => hn (ρ.state_injective heq ▸ hpath)⟩

/-- Names do not matter. After the same operations the machine of the renamed specification is the
renamed machine: the head is as far from its start, as many steps were taken and every cell has the
renamed symbol, however far off. What the next operation comes to is renamed, and so is what the
table says next. The check accepts both or neither, and the same states are unreachable, though they
may be found in another order. -/
theorem rename_commutes (s : Specification) :
    (∀ ops,
      let m := (Machine.ofSpec s).performAll ops
      let m' := (Machine.ofSpec (s.rename ρ)).performAll ops
      m' = m.rename ρ ∧ m'.state = ρ.state m.state ∧ m'.steps = m.steps ∧
        m'.tape.position = m.tape.position ∧
        (∀ i : Int, m'.tape.read i = ρ.symbol (m.tape.read i)) ∧
        m'.nextTransition = ρ.found m.nextTransition ∧
        ∀ op, m'.perform op = (m.perform op).rename ρ (Option.map ρ.ran)) ∧
      ((s.rename ρ).analyze = .ok () ↔ s.analyze = .ok ()) ∧
      (s.rename ρ).unreachable.Perm (s.unreachable.map ρ.state) := by
  refine ⟨fun ops => ?_, ?_, ?_⟩
  · intro m m'
    have hm : m' = m.rename ρ := by
      rw [← Machine.performAll_rename, ← Machine.ofSpec_rename]
    rw [hm]
    exact ⟨rfl, rfl, rfl, rfl, m.tape.read_rename ρ, m.nextTransition_rename ρ,
      m.perform_rename ρ⟩
  · rw [analyze_eq_ok_iff, analyze_eq_ok_iff, closed_rename_iff]
  · refine (List.perm_ext_iff_of_nodup (nodup_unreachable _)
      (s.nodup_unreachable.map ρ.state_injective)).2 fun p => ?_
    rw [mem_unreachable_rename_iff, List.mem_map]

/-- With `A` and `C` exchanged the table is in another order, and the unreachable states are found
in another order. With `0` and `1` exchanged the wildcard serves the same cells as before. -/
theorem rename_commutes_of_swap :
    let s : Specification := ⟨' ', "A", .ofList [("A", some (.ofList
      [('0', ⟨some '1', .right, none⟩), ('_', ⟨none, .left, some "H"⟩)])),
      ("B", some (.ofList [('1', ⟨none, .left, some "C"⟩)])), ("C", some ∅), ("H", none)],
      ['0', '_', '1']⟩
    let ρ : Renaming := ⟨Equiv.swap "A" "C", Equiv.swap '0' '1', (Equiv.swap _ _).injective,
      (Equiv.swap _ _).injective, by decide⟩
    let m' := (Machine.ofSpec (s.rename ρ)).performAll [.step]
    s.unreachable = ["B", "C"] ∧ (s.rename ρ).unreachable = ["A", "B"] ∧
      (s.rename ρ).unreachable.Perm (s.unreachable.map ρ.state) ∧
      (s.rename ρ).analyze = .ok () ∧ m'.state = "C" ∧ m'.tape.read (-1) = '0' ∧
      m'.nextTransition = .ok (some ⟨'_', .left, "H"⟩) ∧
      (m'.perform .run).result = some (.ok .halted) := by
  intro s ρ m'
  obtain ⟨hops, ha, hu⟩ := rename_commutes ρ s
  obtain ⟨-, hstate, -, -, hread, hnext, hperform⟩ := hops [.step]
  refine ⟨by decide +kernel, by decide +kernel, hu, ha.2 (by decide), hstate.trans (by decide),
    (hread (-1)).trans (by decide), hnext.trans (by decide), ?_⟩
  rw [hperform .run]
  decide +kernel

end Specification

end TuringTable
