import TuringTable.Specification
import TuringTable.SpecError

/-!
# Checks of the whole table

Every state that a table or a specification names has to be declared. A declared state that no run
comes to is told of, and no error: a search from the start state marks what it comes to, and what is
not marked at the end is unreachable.
-/

namespace TuringTable

namespace Specification

def declares (s : Specification) (q : String) : Bool := s.table.contains q

/-- The first cell, by state and then by symbol, whose target is not declared. -/
def firstUndeclaredTarget (s : Specification) : Option (String × Char × String) :=
  s.table.cells.findSome? fun (q, c, i) =>
    (i.nextState.filter fun t => !s.declares t).map fun t => (q, c, t)

/-- Targets come before the start state. -/
def analyze (s : Specification) : Except SpecError Unit :=
  match s.firstUndeclaredTarget with
  | some (q, c, t) =>
    .error (((SpecError.of (.undeclaredState t)).inState q).atSymbol (String.singleton c))
  | none =>
    if s.declares s.startState then .ok ()
    else .error (.of (.undeclaredStartState s.startState))

end Specification

/-! ### Unreachable states -/

/-- The states that the cells of a row of `q` lead to, by symbol. -/
def Row.targets (row : Row) (q : String) : List String := row.entries.map fun e => e.2.target q

namespace Table
variable (t : Table)

/-- The states that the cells of `q` lead to. -/
def targets (q : String) : List String :=
  match t.get? q with
  | some (some row) => row.targets q
  | _ => []

/-- What a search puts on its stack at `q`, last one first: the targets that are not marked. -/
def fresh (marked : List String) (q : String) : List String :=
  ((t.targets q).filter fun p => !marked.contains p).reverse

theorem length_fresh_le (marked : List String) (q : String) :
    (t.fresh marked q).length ≤ (t.targets q).length := by
  rw [fresh, List.length_reverse]
  exact List.length_filter_le _ _

/-- How many cells the states have that are not marked. -/
def cellsLeft (marked : List String) : Nat :=
  ((t.keys.filter fun q => !marked.contains q).flatMap t.targets).length

/-- The cells of a state that gets its mark are not left any more. -/
theorem cellsLeft_cons {marked : List String} {q : String} (hq : marked.contains q = false) :
    t.cellsLeft (q :: marked) + (t.targets q).length = t.cellsLeft marked := by
  let left := t.keys.filter fun q => !marked.contains q
  have hnodup : left.Nodup := t.nodup_keys.filter _
  have hleft : t.keys.filter (fun p => !(q :: marked).contains p) = left.erase q := by
    rw [hnodup.erase_eq_filter, List.filter_filter]
    refine List.filter_congr fun p _ => ?_
    rw [List.contains_cons, Bool.not_or]
    rfl
  rw [cellsLeft, hleft, cellsLeft]
  by_cases hmem : q ∈ left
  · have hperm := (List.perm_cons_erase hmem).flatMap_right t.targets
    rw [hperm.length_eq, List.flatMap_cons, List.length_append, Nat.add_comm]
  · -- what is not declared has no cells
    have hkey : ¬ t.contains q = true := fun hkey =>
      hmem (List.mem_filter.2 ⟨(t.contains_iff_mem_keys q).1 hkey, by rw [hq]; rfl⟩)
    rw [List.erase_of_not_mem hmem, targets, Option.not_isSome_iff_eq_none.1 hkey]
    rfl

/-- The states that are marked in the end. Each round takes the state off the stack that came there
last; it is passed over if it has its mark, and else marked. -/
def search (marked : List String) : List String → List String
  | [] => marked
  | q :: stack =>
    if marked.contains q then search marked stack
    else search (q :: marked) (t.fresh (q :: marked) q ++ stack)
termination_by stack => t.cellsLeft marked + stack.length
decreasing_by
  · simp
  · rename_i hq
    have hcells := t.cellsLeft_cons (Bool.not_eq_true _ ▸ hq)
    have hfresh := t.length_fresh_le (q :: marked) q
    simp only [List.length_append, List.length_cons]
    omega

end Table

/-- The declared states that no run comes to, in increasing order. -/
def Specification.unreachable (s : Specification) : List String :=
  let marked := s.table.search [] [s.startState]
  s.table.keys.filter fun q => !marked.contains q

end TuringTable
