import Mathlib.Data.List.Sort
import Mathlib.Data.String.Basic
import Mathlib.Logic.Function.Iterate
import TuringTable.Proofs.Diagram.Table
import TuringTable.Proofs.Reachability

/-!
# Paths along edges

The search for unreachable states is over after at most one round more than the table has cells
(`iterate_round`). A diagram has an edge just where a cell leads (`joins_ofSpec_iff`), so the states
that the search leaves are the nodes to which no path of edges leads from the start state, whatever
is declared and whatever is not (`unreachable_exact`).
-/

namespace TuringTable

namespace Table
variable {t : Table}

/-- One round of the search, on what is marked and on the stack. -/
def round (t : Table) : List String × List String → List String × List String
  | (marked, []) => (marked, [])
  | (marked, q :: stack) =>
    if marked.contains q then (marked, stack)
    else (q :: marked, t.fresh (q :: marked) q ++ stack)

/-- Each round takes a state off the stack, and only the cells of a state that gets its mark put
states there. -/
theorem iterate_round {marked stack : List String} {n : Nat}
    (hn : t.cellsLeft marked + stack.length ≤ n) :
    t.round^[n] (marked, stack) = (t.search marked stack, []) := by
  fun_induction search t marked stack generalizing n with
  | case1 marked => exact Function.iterate_fixed rfl n
  | case2 marked q stack hq ih =>
    rw [List.length_cons] at hn
    obtain ⟨n, rfl⟩ : ∃ k, n = k + 1 := ⟨n - 1, by omega⟩
    have hround : t.round (marked, q :: stack) = (marked, stack) := if_pos hq
    rw [Function.iterate_succ_apply, hround]
    exact ih (by omega)
  | case3 marked q stack hq ih =>
    have hcells := t.cellsLeft_cons (Bool.not_eq_true _ ▸ hq)
    have hfresh := t.length_fresh_le (q :: marked) q
    rw [List.length_cons] at hn
    obtain ⟨n, rfl⟩ : ∃ k, n = k + 1 := ⟨n - 1, by omega⟩
    have hround : t.round (marked, q :: stack) =
        (q :: marked, t.fresh (q :: marked) q ++ stack) := if_neg hq
    rw [Function.iterate_succ_apply, hround]
    refine ih ?_
    rw [List.length_append]
    omega

theorem targets_of_mem {q : String} {row? : Option Row} (h : (q, row?) ∈ t.entries) :
    t.targets q = row?.elim [] (·.targets q) := by
  rw [targets, t.get?_eq_some_iff_mem.2 h]
  cases row? <;> rfl

/-- Before the search every cell is left. -/
theorem cellsLeft_nil (t : Table) : t.cellsLeft [] = t.cells.length := by
  have hall : t.keys.filter (fun q => !([] : List String).contains q) = t.keys :=
    List.filter_eq_self.2 fun _ _ => rfl
  rw [cellsLeft, hall, SortedMap.keys, List.flatMap_map, cells, List.length_flatMap,
    List.length_flatMap]
  refine congrArg List.sum (List.map_congr_left fun e he => ?_)
  rw [targets_of_mem he, List.length_map]
  cases e.2 with
  | none => rfl
  | some row => exact List.length_map _

end Table

namespace Diagram

/-- An edge leads from `q` to `t`. -/
def Joins (d : Diagram) (q t : String) : Prop := ∃ e ∈ d.edges, e.source = q ∧ e.target = t

variable {s : Specification} {q t : String}

theorem mem_targets_arrows_iff {row : Row} :
    t ∈ (arrows q row).map (·.target) ↔ t ∈ row.targets q := by
  let key (e : Char × Instruction) : String × Instruction := (e.2.target q, e.2)
  have harrows : (arrows q row).map (·.target) =
      ((groupBy key row.entries).map (·.1)).map (·.1) := by
    rw [arrows, List.map_map, List.map_map]
    rfl
  have htargets : row.targets q = (row.entries.map key).map (·.1) := by
    rw [List.map_map]
    rfl
  rw [harrows, htargets, List.mem_map, List.mem_map]
  simp only [mem_keys_groupBy]

/-- The arrows of a state start there and go to the targets of its row. -/
theorem mem_ends_arrows_iff {p : String} {row? : Option Row} :
    (q, t) ∈ (row?.elim [] (arrows p)).map Arrow.ends ↔
      p = q ∧ t ∈ row?.elim [] (·.targets p) := by
  cases row? with
  | none => simp
  | some row =>
    have hends : (arrows p row).map Arrow.ends =
        ((arrows p row).map (·.target)).map fun t => (p, t) := by
      rw [arrows, List.map_map, List.map_map, List.map_map]
      rfl
    rw [Option.elim_some, hends, List.mem_map, Option.elim_some, ← mem_targets_arrows_iff]
    simp only [Prod.mk.injEq]
    constructor
    · rintro ⟨t', ht, rfl, rfl⟩
      exact ⟨rfl, ht⟩
    · rintro ⟨rfl, ht⟩
      exact ⟨t, ht, rfl, rfl⟩

/-- There is an edge just where a cell leads. -/
theorem joins_ofSpec_iff : (ofSpec s).Joins q t ↔ s.Leads q t := by
  let as := (startFirst s).flatMap fun x => x.2.elim [] (arrows x.1)
  have hedges : (ofSpec s).edges.map (fun e => (e.source, e.target)) =
      (groupBy Arrow.ends as).map (·.1) := by
    rw [ofSpec, edgesOf, List.map_map]
    rfl
  have hjoins : (ofSpec s).Joins q t ↔ (q, t) ∈ as.map Arrow.ends := by
    rw [← mem_keys_groupBy, ← hedges, List.mem_map]
    simp only [Joins, Prod.ext_iff]
  rw [hjoins, Specification.leads_iff, List.map_flatMap, List.mem_flatMap]
  simp only [mem_ends_arrows_iff, (perm_startFirst s).mem_iff]
  constructor
  · rintro ⟨⟨_, row?⟩, hq, rfl, ht⟩
    rw [Table.targets_of_mem hq]
    exact ht
  · intro ht
    cases hq : s.table.get? q with
    | none => simp [Table.targets, hq] at ht
    | some row? =>
      have hmem := s.table.get?_eq_some_iff_mem.1 hq
      rw [Table.targets_of_mem hmem] at ht
      exact ⟨(q, row?), hmem, rfl, ht⟩

end Diagram

namespace Specification

open Classical in
theorem unreachable_eq_filter (s : Specification) :
    s.unreachable = s.table.keys.filter fun q => ¬ s.Reachable q := by
  refine List.Pairwise.eq_of_mem_iff s.unreachable_sorted (s.table.keys_sorted.filter _) fun q => ?_
  rw [mem_unreachable_iff, List.mem_filter, declares_iff_mem, decide_eq_true_iff]

theorem mergeSort_eq_of_perm {qs rs : List String} (h : qs.Perm rs)
    (hr : rs.Pairwise (· < ·)) : qs.mergeSort = rs :=
  ((List.mergeSort_perm qs _).trans h).eq_of_pairwise' (r := (· ≤ ·))
    (List.pairwise_mergeSort' _ _) (hr.imp le_of_lt)

open Classical in
/-- The search is exact, whatever the start state and the targets, declared or not. The stack is
empty after at most one round more than there are cells, and what has no mark then are just the
declared states to which no path of cells leads from the start state, in increasing order. They are
also the nodes of the diagram to which no path of its edges leads, once sorted. -/
theorem unreachable_exact (s : Specification) :
    (∃ marked, s.table.round^[s.transitionCount + 1] ([], [s.startState]) = (marked, []) ∧
        s.unreachable = s.table.keys.filter (· ∉ marked)) ∧
      s.unreachable =
        s.table.keys.filter (fun q => ¬ Relation.ReflTransGen s.Leads s.startState q) ∧
      s.unreachable.Pairwise (· < ·) ∧
      s.unreachable = (((Diagram.ofSpec s).nodes.map (·.name)).filter fun q =>
        ¬ Relation.ReflTransGen (Diagram.ofSpec s).Joins s.startState q).mergeSort := by
  have hrounds : s.table.cellsLeft [] + [s.startState].length ≤ s.transitionCount + 1 := by
    rw [Table.cellsLeft_nil]
    exact Nat.le_refl _
  have hjoins : (Diagram.ofSpec s).Joins = s.Leads :=
    funext fun q => funext fun t => propext Diagram.joins_ofSpec_iff
  refine ⟨⟨_, Table.iterate_round hrounds, ?_⟩, s.unreachable_eq_filter, s.unreachable_sorted, ?_⟩
  · refine List.filter_congr fun q _ => ?_
    rw [List.contains_eq_mem, decide_not]
  rw [hjoins, eq_comm]
  refine mergeSort_eq_of_perm ?_ s.unreachable_sorted
  rw [unreachable_eq_filter]
  exact (Diagram.perm_names_ofSpec s).filter _

-- "X" is a target and no state; "B" leads to itself and to what is reachable, and is not
example :
    let s : Specification := ⟨' ', "A", .ofList [("C", none), ("A", some (.ofList
      [('0', ⟨none, .left, some "X"⟩), ('1', ⟨none, .right, some "C"⟩), ('2', .move .left)])),
      ("B", some (.ofList [('0', .move .right), ('1', ⟨none, .right, some "A"⟩)]))], []⟩
    s.unreachable = ["B"] ∧ Specification.unreachable { s with startState := "X" } =
      ["A", "B", "C"] := by
  decide +kernel

end Specification

end TuringTable
