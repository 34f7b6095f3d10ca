import Mathlib.Data.List.Nodup
import Mathlib.Logic.Relation
import TuringTable.Proofs.Closed
import TuringTable.Proofs.Machine.Lockstep

/-!
# Unreachable states are dead

The search marks exactly the states to which a path of cells leads from the start state
(`mem_search_iff`): in each round a path leads to every state that is marked or on the stack, and no
cell leads from a marked state to one that is neither (`Searching`). A machine is only ever in a
state to which a path leads, so without the others it does the same (`lockstep_pruned`), and nothing
more is left over (`unreachable_pruned`).
-/

namespace TuringTable

namespace Specification
variable {s : Specification} {q t : String}

/-- A cell of `q` leads to `t`. -/
def Leads (s : Specification) (q t : String) : Prop :=
  ∃ row c i, s.table.get? q = some (some row) ∧ row.get? c = some i ∧ t = i.target q

/-- A path of cells leads from the start state to `q`. -/
def Reachable (s : Specification) (q : String) : Prop :=
  Relation.ReflTransGen s.Leads s.startState q

theorem mem_targets_iff {row : Row} :
    t ∈ row.targets q ↔ ∃ c i, row.get? c = some i ∧ t = i.target q := by
  simp only [Row.targets, List.mem_map, SortedMap.get?_eq_some_iff_mem]
  constructor
  · rintro ⟨e, he, rfl⟩
    exact ⟨e.1, e.2, he, rfl⟩
  · rintro ⟨c, i, hc, rfl⟩
    exact ⟨(c, i), hc, rfl⟩

theorem leads_iff : s.Leads q t ↔ t ∈ s.table.targets q := by
  rw [Table.targets]
  split
  · rename_i row hq
    rw [mem_targets_iff]
    constructor
    · rintro ⟨row', c, i, hq', hc, ht⟩
      rw [hq] at hq'
      obtain rfl : row = row' := Option.some.inj (Option.some.inj hq')
      exact ⟨c, i, hc, ht⟩
    · rintro ⟨c, i, hc, ht⟩
      exact ⟨row, c, i, hq, hc, ht⟩
  · rename_i hno
    refine iff_of_false ?_ List.not_mem_nil
    rintro ⟨row, c, i, hq, -⟩
    exact hno row hq

/-- Also a cell that stays leads to a declared state: the one that it is in. -/
theorem closed_iff_leads :
    s.Closed ↔ s.declares s.startState = true ∧ ∀ q t, s.Leads q t → s.declares t = true := by
  constructor
  · intro h
    refine ⟨h.start, ?_⟩
    rintro q t ⟨row, c, i, hq, hc, rfl⟩
    exact h.target (.listed hq hc)
  · rintro ⟨hstart, hleads⟩
    refine ⟨hstart, fun {q row c i t} hq hc ht => hleads q t ⟨row, c, i, hq, hc, ?_⟩⟩
    rw [Instruction.target, ht]
    rfl

/-! ### The search -/

theorem mem_fresh_iff {marked : List String} :
    t ∈ s.table.fresh marked q ↔ s.Leads q t ∧ t ∉ marked := by
  rw [Table.fresh, List.mem_reverse, List.mem_filter, leads_iff]
  simp

/-- What holds before each round of the search. -/
structure Searching (s : Specification) (marked stack : List String) : Prop where
  start : s.startState ∈ marked ∨ s.startState ∈ stack
  /-- The targets of a marked state have their marks, or will get them. -/
  leads : ∀ {q t}, q ∈ marked → s.Leads q t → t ∈ marked ∨ t ∈ stack
  reachable : ∀ {q}, q ∈ marked ∨ q ∈ stack → s.Reachable q

namespace Searching
variable {marked stack : List String}

theorem init (s : Specification) : s.Searching [] [s.startState] where
  start := .inr List.mem_cons_self
  leads hq := absurd hq List.not_mem_nil
  reachable := by
    rintro q (hq | hq)
    · cases hq
    · rw [List.mem_singleton.1 hq]
      exact .refl

theorem skip (h : s.Searching marked (q :: stack)) (hq : q ∈ marked) :
    s.Searching marked stack := by
  -- what is taken off the stack is marked
  have hoff {t : String} (ht : t ∈ marked ∨ t ∈ q :: stack) : t ∈ marked ∨ t ∈ stack := by
    rcases ht with ht | ht
    · exact .inl ht
    · rcases List.mem_cons.1 ht with rfl | ht
      · exact .inl hq
      · exact .inr ht
  exact ⟨hoff h.start, fun hp hl => hoff (h.leads hp hl),
    fun ht => h.reachable (ht.imp_right (List.mem_cons_of_mem q))⟩

theorem mark (h : s.Searching marked (q :: stack)) :
    s.Searching (q :: marked) (s.table.fresh (q :: marked) q ++ stack) := by
  have hq : s.Reachable q := h.reachable (.inr List.mem_cons_self)
  have hoff {t : String} (ht : t ∈ marked ∨ t ∈ q :: stack) :
      t ∈ q :: marked ∨ t ∈ s.table.fresh (q :: marked) q ++ stack := by
    rcases ht with ht | ht
    · exact .inl (List.mem_cons_of_mem q ht)
    · rcases List.mem_cons.1 ht with rfl | ht
      · exact .inl List.mem_cons_self
      · exact .inr (List.mem_append_right _ ht)
  refine ⟨hoff h.start, fun {p t} hp hl => ?_, fun {p} hp => ?_⟩
  · rcases List.mem_cons.1 hp with rfl | hp
    · -- a target of the state that is marked here goes on the stack, if it has no mark
      by_cases ht : t ∈ p :: marked
      · exact .inl ht
      · exact .inr (List.mem_append_left _ (mem_fresh_iff.2 ⟨hl, ht⟩))
    · exact hoff (h.leads hp hl)
  · rcases hp with hp | hp
    · rcases List.mem_cons.1 hp with rfl | hp
      · exact hq
      · exact h.reachable (.inl hp)
    · rcases List.mem_append.1 hp with hp | hp
      · exact hq.tail (mem_fresh_iff.1 hp).1
      · exact h.reachable (.inr (List.mem_cons_of_mem q hp))

theorem search (h : s.Searching marked stack) : s.Searching (s.table.search marked stack) [] := by
  fun_induction Table.search s.table marked stack with
  | case1 marked => exact h
  | case2 marked q stack hq ih => exact ih (h.skip (List.contains_iff_mem.1 hq))
  | case3 marked q stack hq ih => exact ih h.mark

end Searching

/-- The search marks exactly the states to which a path leads. -/
theorem mem_search_iff : q ∈ s.table.search [] [s.startState] ↔ s.Reachable q := by
  have hend : s.Searching (s.table.search [] [s.startState]) [] := (Searching.init s).search
  constructor
  · exact fun hq => hend.reachable (.inl hq)
  · intro hpath
    induction hpath with
    | refl => exact hend.start.resolve_right List.not_mem_nil
    | tail _ hl ih => exact (hend.leads ih hl).resolve_right List.not_mem_nil

theorem declares_iff_mem : s.declares q = true ↔ q ∈ s.table.keys :=
  s.table.contains_iff_mem_keys q

/-- What is left are exactly the declared states to which no path leads. -/
theorem mem_unreachable_iff : q ∈ s.unreachable ↔ s.declares q = true ∧ ¬ s.Reachable q := by
  rw [unreachable, List.mem_filter, ← declares_iff_mem, ← mem_search_iff]
  simp

theorem Reachable.not_mem_unreachable (h : s.Reachable q) : q ∉ s.unreachable :=
  fun hq => (mem_unreachable_iff.1 hq).2 h

theorem unreachable_sorted (s : Specification) : s.unreachable.Pairwise (· < ·) :=
  s.table.keys_sorted.filter _

theorem nodup_unreachable (s : Specification) : s.unreachable.Nodup :=
  s.table.nodup_keys.filter _

/-! ### Without the unreachable states -/

/-- The specification without the states that the search leaves. -/
def pruned (s : Specification) : Specification :=
  { s with table := s.table.filter fun q => !s.unreachable.contains q }

theorem get?_pruned_of_mem (h : q ∈ s.unreachable) : s.pruned.table.get? q = none := by
  rw [pruned, SortedMap.get?_filter]
  simp [h]

theorem get?_pruned_of_not_mem (h : q ∉ s.unreachable) :
    s.pruned.table.get? q = s.table.get? q := by
  rw [pruned, SortedMap.get?_filter]
  simp [h]

theorem declares_pruned_iff :
    s.pruned.declares q = true ↔ s.declares q = true ∧ q ∉ s.unreachable := by
  rw [declares, declares, SortedMap.contains, SortedMap.contains]
  by_cases h : q ∈ s.unreachable
  · simp [get?_pruned_of_mem h, h]
  · simp [get?_pruned_of_not_mem h, h]

theorem Reachable.of_leads_pruned (h : s.Reachable q) (hl : s.Leads q t) : s.pruned.Leads q t := by
  obtain ⟨row, c, i, hq, hc, ht⟩ := hl
  exact ⟨row, c, i, (get?_pruned_of_not_mem h.not_mem_unreachable).trans hq, hc, ht⟩

/-- A path only goes through states that paths lead to, so none is cut off. -/
theorem Reachable.pruned (h : s.Reachable q) : s.pruned.Reachable q := by
  induction h with
  | refl => exact .refl
  | tail hpath hl ih => exact ih.tail (of_leads_pruned hpath hl)

theorem unreachable_pruned (s : Specification) : s.pruned.unreachable = [] := by
  rw [List.eq_nil_iff_forall_not_mem]
  intro q hq
  obtain ⟨hdecl, hn⟩ := mem_unreachable_iff.1 hq
  obtain ⟨hdecl, hmem⟩ := declares_pruned_iff.1 hdecl
  -- a state that was kept has a path to it, and still has
  refine hmem (mem_unreachable_iff.2 ⟨hdecl, fun hpath => hn hpath.pruned⟩)

theorem Closed.pruned (h : s.Closed) : s.pruned.Closed where
  start := declares_pruned_iff.2 ⟨h.start, Reachable.not_mem_unreachable .refl⟩
  targets := by
    intro q row c i t hq hc ht
    have hmem : q ∉ s.unreachable := by
      intro hmem
      rw [get?_pruned_of_mem hmem] at hq
      cases hq
    rw [get?_pruned_of_not_mem hmem] at hq
    have hpath : s.Reachable q := by
      by_contra hn
      exact hmem (mem_unreachable_iff.2 ⟨declares_of_get? hq, hn⟩)
    have hl : s.Leads q t := ⟨row, c, i, hq, hc, by rw [Instruction.target, ht]; rfl⟩
    exact declares_pruned_iff.2
      ⟨h.targets hq hc ht, Reachable.not_mem_unreachable (hpath.tail hl)⟩

/-! ### Machines -/

theorem Prescribes.leads {c : Char} {i : Instruction} (h : s.Prescribes q c i) :
    s.Leads q (i.target q) := by
  cases h with
  | listed hq hc => exact ⟨_, c, i, hq, hc, rfl⟩
  | wildcard hq _ hw => exact ⟨_, TuringTable.wildcard, i, hq, hw, rfl⟩

theorem lookup_pruned {c : Char} (h : q ∉ s.unreachable) :
    s.pruned.lookup q c = s.lookup q c := by
  rw [lookup, lookup, get?_pruned_of_not_mem h]

/-- A machine goes along paths, whatever is on the tape. -/
theorem lockstep_pruned (s : Specification) : s.Lockstep s.pruned fun q _ => s.Reachable q where
  blank := rfl
  startState := rfl
  input := rfl
  start := .refl
  lookup h := lookup_pruned h.not_mem_unreachable
  next h hn := by
    obtain ⟨i, hi, rfl⟩ := lookup_eq_some_iff.1 hn
    exact h.tail hi.leads

/-- Unreachable states are dead. Without them a specification that passes the check still passes it,
has no unreachable state left and does the same on any input: every operation comes to the same and
takes the same transitions, and nothing that is asked tells the two apart, but to look up a state
that is gone. No machine is ever in one of these. -/
theorem transcript_pruned (s : Specification) :
    (s.analyze = .ok () → s.pruned.analyze = .ok ()) ∧ s.pruned.unreachable = [] ∧
      ∀ input : List Char,
        let m := Machine.ofSpec (s.withInput input)
        let m' := Machine.ofSpec (s.pruned.withInput input)
        (∀ ops op, (m'.performAll ops).perform op =
          ((m.performAll ops).perform op).withSpec (s.pruned.withInput input)) ∧
        (∀ rs, (∀ q c, .lookup q c ∈ rs → q ∉ s.unreachable) →
          m'.transcript rs = m.transcript rs) ∧
        ∀ ops, (m.performAll ops).state ∉ s.unreachable := by
  refine ⟨fun h => analyze_eq_ok_iff.2 (analyze_eq_ok_iff.1 h).pruned, s.unreachable_pruned, ?_⟩
  intro input m m'
  -- the search does not look at the input
  have hl : (s.withInput input).Lockstep (s.pruned.withInput input)
      fun q _ => (s.withInput input).Reachable q := (s.withInput input).lockstep_pruned
  have hkept (ops : List Operation) := hl.kept_performAll hl.kept_ofSpec ops
  refine ⟨fun ops op => ?_, fun rs hrs => hl.transcript_ofSpec fun q c hq => ?_, fun ops => ?_⟩
  · rw [hl.performAll_ofSpec, hl.perform (hkept ops)]
  · exact lookup_pruned (s := s.withInput input) (hrs q c hq)
  · exact (hkept ops).safe.not_mem_unreachable

/-- Two states that lead to each other and to the halting state, and that nothing leads to. -/
theorem transcript_pruned_of_cycle :
    let row (q : String) : Option Row := some (.ofList [('0', ⟨none, .right, some q⟩),
      ('_', ⟨some '1', .left, some "H"⟩)])
    let s : Specification := ⟨' ', "A", .ofList [("A", row "A"), ("B", row "C"), ("C", row "B"),
      ("H", none)], []⟩
    let m := Machine.ofSpec (s.withInput ['0', '2'])
    let m' := Machine.ofSpec (s.pruned.withInput ['0', '2'])
    let rs : List Request := [.perform .step, .nextTransition, .lookup "A" '3', .perform .run,
      .perform .reset, .perform (.runFor 1), .read .cells]
    s.unreachable = ["B", "C"] ∧ s.pruned.table = .ofList [("A", row "A"), ("H", none)] ∧
      s.pruned.analyze = .ok () ∧ (m.performAll [.run]).state ∉ s.unreachable ∧
      m'.transcript rs = m.transcript rs := by
  intro row s m m' rs
  have hu : s.unreachable = ["B", "C"] := by decide +kernel
  obtain ⟨ha, -, hm⟩ := transcript_pruned s
  obtain ⟨-, hrs, hd⟩ := hm ['0', '2']
  refine ⟨hu, by decide +kernel, ha (by decide), hd [.run], hrs rs fun q c hq => ?_⟩
  obtain ⟨rfl, -⟩ : q = "A" ∧ c = '3' := by simpa [rs] using hq
  rw [hu]
  decide

end Specification

end TuringTable
