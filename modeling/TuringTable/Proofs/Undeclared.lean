import TuringTable.Proofs.Document.FirstFault

/-!
# What the check of the table reports

A cell `Dangles` if it names a target that is not declared. The check passes a specification of
which no cell dangles and whose start state is declared. Otherwise it reports the dangling cell that
comes first by state and symbol (`firstUndeclaredTarget_eq_some_iff`), and the start state only
where no cell dangles (`analyze_eq_error_iff`). So the verdict is decided by the dangling cells and
the declared states alone (`analyze_congr`), and cells that stay have no part in it
(`analyze_reports_first`).
-/

namespace TuringTable

namespace Specification
variable {s s' : Specification} {q : String} {c : Char} {t : String}

/-- The cell for `c` in state `q` names the target `t`, which is not declared. -/
def Dangles (s : Specification) (q : String) (c : Char) (t : String) : Prop :=
  ∃ row i, s.table.get? q = some (some row) ∧ row.get? c = some i ∧ i.nextState = some t ∧
    s.declares t = false

/-- Of the cells that dangle it is the first one, by state and then by symbol. -/
def FirstDangling (s : Specification) (q : String) (c : Char) (t : String) : Prop :=
  s.Dangles q c t ∧ ∀ q' c' t', s.Dangles q' c' t' → q < q' ∨ q = q' ∧ c ≤ c'

theorem Dangles.unique {t' : String} (h : s.Dangles q c t) (h' : s.Dangles q c t') : t = t' := by
  obtain ⟨row, i, hq, hc, ht, -⟩ := h
  obtain ⟨row', i', hq', hc', ht', -⟩ := h'
  cases hq.symm.trans hq'
  cases hc.symm.trans hc'
  exact Option.some.inj (ht.symm.trans ht')

theorem FirstDangling.unique {q' : String} {c' : Char} {t' : String} (h : s.FirstDangling q c t)
    (h' : s.FirstDangling q' c' t') : (q, c, t) = (q', c', t') := by
  have hplace : q = q' ∧ c = c' := by
    rcases h.2 _ _ _ h'.1 with hlt | ⟨rfl, hle⟩
    · rcases h'.2 _ _ _ h.1 with hlt' | ⟨rfl, -⟩
      · exact absurd (Std.lt_trans hlt hlt') Std.lt_irrefl
      · exact absurd hlt Std.lt_irrefl
    · rcases h'.2 _ _ _ h.1 with hlt' | ⟨-, hle'⟩
      · exact absurd hlt' Std.lt_irrefl
      · exact ⟨rfl, Std.le_antisymm hle hle'⟩
  obtain ⟨rfl, rfl⟩ := hplace
  rw [h.1.unique h'.1]

/-! ### The first dangling cell -/

theorem dangles_iff : s.Dangles q c t ↔
    ∃ i, (q, c, i) ∈ s.table.cells ∧ i.nextState = some t ∧ s.declares t = false := by
  simp only [Dangles, Table.mem_cells_iff]
  constructor
  · rintro ⟨row, i, hq, hc, ht⟩
    exact ⟨i, ⟨row, hq, hc⟩, ht⟩
  · rintro ⟨i, ⟨row, hq, hc⟩, ht⟩
    exact ⟨row, i, hq, hc, ht⟩

theorem firstUndeclaredTarget_eq_none_iff_dangles :
    s.firstUndeclaredTarget = none ↔ ∀ q c t, ¬ s.Dangles q c t := by
  simp only [firstUndeclaredTarget_eq_none_iff, Dangles]
  constructor
  · rintro h q c t ⟨row, i, hq, hc, ht, hdeclared⟩
    exact absurd (h q row c i t hq hc ht) (by simp [hdeclared])
  · intro h q row c i t hq hc ht
    by_contra hdeclared
    exact h q c t ⟨row, i, hq, hc, ht, by simpa using hdeclared⟩

/-- The cells are in order, and the search stops at the first one that dangles. -/
theorem firstDangling_of_firstUndeclaredTarget (h : s.firstUndeclaredTarget = some (q, c, t)) :
    s.FirstDangling q c t := by
  obtain ⟨before, ⟨p, d, i⟩, after, hcells, hfound, hbefore⟩ := List.findSome?_eq_some_iff.1 h
  obtain ⟨_, ht, heq⟩ := Option.map_eq_some_iff.1 hfound
  cases heq
  rw [Option.filter_eq_some_iff, Bool.not_eq_true'] at ht
  refine ⟨dangles_iff.2 ⟨i, by simp [hcells], ht⟩, fun q' c' t' h' => ?_⟩
  obtain ⟨i', hmem, ht'⟩ := dangles_iff.1 h'
  have hsorted := s.table.cells_sorted
  rw [hcells] at hmem hsorted
  rcases List.mem_append.1 hmem with hmem | hmem
  · -- no cell before the one that was found dangles
    have hnone := Option.filter_eq_none_iff.1 (Option.map_eq_none_iff.1 (hbefore _ hmem))
    exact absurd ht'.2 (by simpa using hnone t' ht'.1)
  · rcases List.mem_cons.1 hmem with heq | hmem
    · cases heq
      exact .inr ⟨rfl, Std.le_refl _⟩
    · have hlater := (List.pairwise_cons.1 (List.pairwise_append.1 hsorted).2.1).1 _ hmem
      exact hlater.imp_right fun h => ⟨h.1, Std.le_of_lt h.2⟩

theorem firstUndeclaredTarget_eq_some_iff :
    s.firstUndeclaredTarget = some (q, c, t) ↔ s.FirstDangling q c t := by
  refine ⟨firstDangling_of_firstUndeclaredTarget, fun h => ?_⟩
  rcases hf : s.firstUndeclaredTarget with _ | ⟨q', c', t'⟩
  · exact absurd h.1 (firstUndeclaredTarget_eq_none_iff_dangles.1 hf q c t)
  · rw [(firstDangling_of_firstUndeclaredTarget hf).unique h]

/-! ### The verdict -/

theorem analyze_eq_error_iff {e : SpecError} : s.analyze = .error e ↔
    (∃ q c t, s.FirstDangling q c t ∧
      e = ⟨.undeclaredState t, ⟨some q, some (String.singleton c), none⟩⟩) ∨
    (∀ q c t, ¬ s.Dangles q c t) ∧ s.declares s.startState = false ∧
      e = ⟨.undeclaredStartState s.startState, ⟨none, none, none⟩⟩ := by
  simp only [← firstUndeclaredTarget_eq_some_iff, ← firstUndeclaredTarget_eq_none_iff_dangles]
  rw [analyze]
  rcases s.firstUndeclaredTarget with _ | ⟨q, c, t⟩
  · constructor
    · intro h
      cases hs : s.declares s.startState with
      | true => simp [hs] at h
      | false =>
        rw [hs] at h
        cases h
        exact .inr ⟨rfl, rfl, rfl⟩
    · rintro (⟨_, _, _, h, -⟩ | ⟨-, hs, rfl⟩)
      · cases h
      · rw [hs]
        rfl
  · constructor
    · intro h
      cases h
      exact .inl ⟨q, c, t, rfl, rfl⟩
    · rintro (⟨_, _, _, h, rfl⟩ | ⟨h, -⟩)
      · cases h
        rfl
      · cases h

/-- The verdict is decided by the cells that dangle and by which states are declared. -/
theorem analyze_congr (hstart : s'.startState = s.startState)
    (hdeclares : ∀ q, s'.declares q = s.declares q)
    (hdangles : ∀ q c t, s'.Dangles q c t ↔ s.Dangles q c t) : s'.analyze = s.analyze := by
  have herror (e : SpecError) : s'.analyze = .error e ↔ s.analyze = .error e := by
    simp only [analyze_eq_error_iff, FirstDangling, hdangles, hstart, hdeclares]
  cases h : s.analyze with
  | error e => exact (herror e).2 h
  | ok _ =>
    cases h' : s'.analyze with
    | error e =>
      rw [(herror e).1 h'] at h
      cases h
    | ok _ => rfl

/-! ### Cells that stay -/

/-- The specification with the cell for `c` put into a row that the table has for `q`. -/
def withCell (s : Specification) (q : String) (row : Row) (c : Char) (i : Instruction) :
    Specification :=
  { s with table := s.table.insert q (some (row.insert c i)) }

section withCell
variable {row : Row} {i : Instruction} (hq : s.table.get? q = some (some row))
include hq

theorem declares_withCell (p : String) : (s.withCell q row c i).declares p = s.declares p := by
  rw [declares, declares, withCell, SortedMap.contains, SortedMap.contains, SortedMap.get?_insert]
  split
  · rename_i hp
    rw [hp, hq]
    rfl
  · rfl

theorem mem_cells_withCell (hc : row.get? c = none) {p : String} {d : Char} {j : Instruction} :
    (p, d, j) ∈ (s.withCell q row c i).table.cells ↔
      (p, d, j) = (q, c, i) ∨ (p, d, j) ∈ s.table.cells := by
  simp only [Table.mem_cells_iff, withCell, SortedMap.get?_insert, Prod.mk.injEq]
  by_cases hp : p = q
  · subst hp
    by_cases hd : d = c
    · subst hd
      simp [hq, hc, SortedMap.get?_insert, eq_comm]
    · simp [hq, hd, SortedMap.get?_insert]
  · simp [hp]

/-- A cell that stays dangles nowhere. -/
theorem dangles_withCell (hc : row.get? c = none) (hi : i.nextState = none) (p : String) (d : Char)
    (t : String) : (s.withCell q row c i).Dangles p d t ↔ s.Dangles p d t := by
  simp only [dangles_iff, mem_cells_withCell hq hc, declares_withCell hq]
  constructor
  · rintro ⟨j, heq | hmem, ht⟩
    · cases heq
      rw [hi] at ht
      cases ht.1
    · exact ⟨j, hmem, ht⟩
  · rintro ⟨j, hmem, ht⟩
    exact ⟨j, .inr hmem, ht⟩

end withCell

/-- The check reports just the first violation. It passes if the start state and every target that
is written out are declared. Otherwise, if there are cells with an undeclared target, it reports the
target of the first of them by state and symbol, at that state and symbol and at no synonym; and if
there are none, the start state at no place. A cell whose target is left out is never at fault: put
where there was none, it changes no verdict. -/
theorem analyze_reports_first (s : Specification) :
    (s.analyze = .ok () ↔ s.declares s.startState = true ∧
      ∀ q row c i t, s.table.get? q = some (some row) → row.get? c = some i →
        i.nextState = some t → s.declares t = true) ∧
      (∀ e, s.analyze = .error e ↔
        (∃ q c t, s.Dangles q c t ∧
          (∀ q' c' t', s.Dangles q' c' t' → q < q' ∨ q = q' ∧ c ≤ c') ∧
          e = ⟨.undeclaredState t, ⟨some q, some (String.singleton c), none⟩⟩) ∨
        (∀ q c t, ¬ s.Dangles q c t) ∧ s.declares s.startState = false ∧
          e = ⟨.undeclaredStartState s.startState, ⟨none, none, none⟩⟩) ∧
      ∀ q row c i, s.table.get? q = some (some row) → row.get? c = none → i.nextState = none →
        (s.withCell q row c i).analyze = s.analyze := by
  refine ⟨?_, fun e => ?_, fun q row c i hq hc hi => ?_⟩
  · rw [analyze_eq_ok_iff]
    constructor
    · exact fun h => ⟨h.start, fun _ _ _ _ _ => h.targets⟩
    · exact fun h => ⟨h.1, h.2 _ _ _ _ _⟩
  · simp only [analyze_eq_error_iff, FirstDangling, and_assoc]
  · exact analyze_congr rfl (declares_withCell hq) (dangles_withCell hq hc hi)

-- the cell of state `B` comes before that of `a`, the one for `Z` before that for `a`, and both
-- before the start state
example :
    let s : Specification := ⟨' ', "start", .ofList [("a", some (.ofList
      [('0', ⟨none, .left, some "X"⟩)])), ("B", some (.ofList [('a', ⟨none, .left, some "Y"⟩),
        ('Z', ⟨none, .right, some "Z"⟩), ('0', .move .right)]))], []⟩
    s.analyze = .error ⟨.undeclaredState "Z", ⟨some "B", some "Z", none⟩⟩ := by
  decide

end Specification

end TuringTable
