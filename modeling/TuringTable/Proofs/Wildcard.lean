import TuringTable.Proofs.Machine.Lockstep

/-!
# Without the wildcard

A row with an instruction for the wildcard can be spelled out: the instruction is listed for every
symbol of an alphabet that has none of its own. On the symbols of the alphabet nothing is looked up
otherwise (`lookup_spellOut`). A tape that starts over an alphabet which has all that is written
stays over it, blanks on either side included (`Tape.Over.write`, `Tape.Over.move`). So machines of
a specification and of the same spelled out are in lockstep (`lockstep_spellOut`).
-/

namespace TuringTable

variable {alphabet : List Char}

/-! ### Tapes over an alphabet -/

namespace Tape

/-- Every cell has a symbol of the alphabet, also those not visited yet. -/
structure Over (alphabet : List Char) (t : Tape) : Prop where
  blank : t.blank ∈ alphabet
  before : ∀ c ∈ t.before, c ∈ alphabet
  after : ∀ c ∈ t.after, c ∈ alphabet

theorem mem_of_fromEnd? {cells : Array Char} {n : Nat} {c : Char} (h : fromEnd? cells n = some c) :
    c ∈ cells := by
  rw [fromEnd?] at h
  split at h
  · exact Array.mem_of_getElem? h
  · cases h

theorem mem_of_mem_pop {cells : Array Char} {c : Char} (h : c ∈ cells.pop) : c ∈ cells := by
  rw [← Array.mem_toList_iff, Array.toList_pop] at h
  exact Array.mem_toList_iff.1 (cells.toList.dropLast_subset h)

theorem over_ofInput {b : Char} {cs : List Char} (hb : b ∈ alphabet)
    (hcs : ∀ c ∈ cs, c ∈ alphabet) : (ofInput b cs).Over alphabet := by
  refine ⟨hb, by simp [ofInput], fun c hc => ?_⟩
  dsimp only [ofInput] at hc
  split at hc
  · rcases Array.mem_push.1 hc with hc | rfl
    · exact hcs c (by simpa using hc)
    · exact hb
  · exact hcs c (by simpa using hc)

namespace Over
variable {t : Tape}

/-- What is at the end of the cells, or the blank where there are none. -/
theorem back?_getD (h : t.Over alphabet) {cells : Array Char} (hc : ∀ c ∈ cells, c ∈ alphabet) :
    cells.back?.getD t.blank ∈ alphabet := by
  cases hb : cells.back? with
  | none => exact h.blank
  | some c => exact hc c (Array.mem_of_back? hb)

theorem head (h : t.Over alphabet) : t.head ∈ alphabet := h.back?_getD h.after

theorem read (h : t.Over alphabet) (i : Int) : t.read i ∈ alphabet := by
  rw [Tape.read]
  split
  · cases hc : fromEnd? t.after (i.natAbs + 1) with
    | none => exact h.blank
    | some c => exact h.after c (mem_of_fromEnd? hc)
  · cases hc : fromEnd? t.before i.natAbs with
    | none => exact h.blank
    | some c => exact h.before c (mem_of_fromEnd? hc)

theorem write (h : t.Over alphabet) {c : Char} (hc : c ∈ alphabet) : (t.write c).Over alphabet := by
  refine ⟨h.blank, h.before, fun d hd => ?_⟩
  rw [after_write] at hd
  rcases Array.mem_push.1 hd with hd | rfl
  · exact h.after d (mem_of_mem_pop hd)
  · exact hc

theorem moveLeft (h : t.Over alphabet) : t.moveLeft.Over alphabet := by
  refine ⟨h.blank, fun c hc => h.before c (mem_of_mem_pop hc), fun c hc => ?_⟩
  rcases Array.mem_push.1 hc with hc | rfl
  · exact h.after c hc
  · exact h.back?_getD h.before

theorem moveRight (h : t.Over alphabet) : t.moveRight.Over alphabet := by
  refine ⟨h.blank, fun c hc => ?_, fun c hc => ?_⟩
  · dsimp only [Tape.moveRight] at hc
    split at hc
    · rename_i d hd
      rcases Array.mem_push.1 hc with hc | rfl
      · exact h.before c hc
      · exact h.after c (Array.mem_of_back? hd)
    · exact h.before c hc
  · dsimp only [Tape.moveRight] at hc
    -- past the last cell there is a blank
    split at hc
    · rcases Array.mem_push.1 hc with hc | rfl
      · exact h.after c (mem_of_mem_pop hc)
      · exact h.blank
    · exact h.after c (mem_of_mem_pop hc)

theorem move (h : t.Over alphabet) (d : Direction) : (t.move d).Over alphabet := by
  cases d with
  | left => exact h.moveLeft
  | right => exact h.moveRight

end Over

end Tape

/-! ### Rows spelled out -/

/-- The instruction for the wildcard is listed for every symbol of the alphabet without one of its
own. The wildcard itself stays only if it is a symbol of the alphabet. -/
def Row.spellOut (alphabet : List Char) (row : Row) : Row :=
  match row.get? wildcard with
  | none => row
  | some i =>
    (SortedMap.ofList (alphabet.map (·, i) ++ row.entries)).filter fun c =>
      c ≠ wildcard || alphabet.contains wildcard

theorem lookup_reverse_map_const {i : Instruction} {c : Char} :
    (alphabet.map (·, i)).reverse.lookup c = if c ∈ alphabet then some i else none := by
  simp only [← List.map_reverse, SortedMap.lookup_map_const, List.mem_reverse]

theorem Row.get?_spellOut (row : Row) (c : Char) :
    (row.spellOut alphabet).get? c =
      if c = wildcard ∧ wildcard ∉ alphabet then none
      else (row.get? c).or (if c ∈ alphabet then row.get? wildcard else none) := by
  have hrow : row.entries.reverse.lookup c = row.get? c := by
    rw [← SortedMap.get?_ofList, SortedMap.ofList_eq_of_perm (.refl row.entries)]
  rw [spellOut]
  cases hw : row.get? wildcard with
  | none =>
    by_cases hc : c = wildcard
    · simp [hc, hw]
    · simp [hc]
  | some i =>
    show SortedMap.get? (SortedMap.filter _ _) c = _
    rw [SortedMap.get?_filter, SortedMap.get?_ofList, List.reverse_append, List.lookup_append,
      lookup_reverse_map_const, hrow]
    by_cases hc : c = wildcard <;> by_cases ha : wildcard ∈ alphabet <;> simp [hc, ha]

namespace Specification
variable {s : Specification}

/-- The specification with every row spelled out. -/
def spellOut (s : Specification) (alphabet : List Char) : Specification :=
  { s with table := s.table.map fun _ => Option.map (Row.spellOut alphabet) }

theorem instruction?_spellOut (row : Row) {c : Char} (hc : c ∈ alphabet) :
    instruction? (row.spellOut alphabet) c = instruction? row c := by
  have hno : ¬ (c = wildcard ∧ wildcard ∉ alphabet) := fun h => h.2 (h.1 ▸ hc)
  rw [instruction?, instruction?, Row.get?_spellOut, if_neg hno, if_pos hc, Row.get?_spellOut]
  -- where nothing is found for `c` there is no instruction for the wildcard, before and after
  cases row.get? c <;> cases row.get? wildcard <;> simp

theorem lookup_spellOut (q : String) {c : Char} (hc : c ∈ alphabet) :
    (s.spellOut alphabet).lookup q c = s.lookup q c := by
  rw [lookup, lookup, spellOut, SortedMap.get?_map]
  rcases s.table.get? q with _ | _ | row
  · rfl
  · rfl
  · show Except.ok ((instruction? (row.spellOut alphabet) c).map _) = _
    rw [instruction?_spellOut row hc]

/-- The alphabet has the blank, the input and all that is ever written. -/
structure CoveredBy (s : Specification) (alphabet : List Char) : Prop where
  blank : s.blank ∈ alphabet
  input : ∀ c ∈ s.input, c ∈ alphabet
  written : ∀ x ∈ s.table.cells, ∀ w ∈ x.2.2.write, w ∈ alphabet

/-- An instruction writes a symbol of the alphabet where it reads one. -/
theorem CoveredBy.write_mem (h : s.CoveredBy alphabet) {q : String} {c : Char} {i : Instruction}
    (hi : s.Prescribes q c i) (hc : c ∈ alphabet) : i.write.getD c ∈ alphabet := by
  cases hw : i.write with
  | none => exact hc
  | some w =>
    cases hi with
    | listed hq hd => exact h.written _ (s.table.mem_cells_iff.2 ⟨_, hq, hd⟩) w hw
    | wildcard hq _ hd => exact h.written _ (s.table.mem_cells_iff.2 ⟨_, hq, hd⟩) w hw

theorem CoveredBy.lockstep_spellOut (h : s.CoveredBy alphabet) :
    s.Lockstep (s.spellOut alphabet) fun _ t => t.Over alphabet where
  blank := rfl
  startState := rfl
  input := rfl
  start := Tape.over_ofInput h.blank h.input
  lookup ht := lookup_spellOut _ ht.head
  next ht hn := by
    obtain ⟨i, hi, rfl⟩ := lookup_eq_some_iff.1 hn
    exact (ht.write (h.write_mem hi ht.head)).move _

/-- The wildcard is a shorthand for the symbols of an alphabet. If these are all that can come onto
the tape, then no other symbol ever does, with the wildcard or spelled out; every operation comes
to the same and takes the same transitions, and nothing that is asked tells the two apart, but to
look up a symbol that is not in the alphabet. -/
theorem transcript_spellOut (h : s.CoveredBy alphabet) :
    let m := Machine.ofSpec s
    let m' := Machine.ofSpec (s.spellOut alphabet)
    (∀ ops, ∀ k : Int, (m.performAll ops).tape.read k ∈ alphabet ∧
        (m'.performAll ops).tape.read k ∈ alphabet) ∧
      (∀ ops op, (m'.performAll ops).perform op =
        ((m.performAll ops).perform op).withSpec (s.spellOut alphabet)) ∧
      ∀ rs, (∀ q c, .lookup q c ∈ rs → c ∈ alphabet) → m'.transcript rs = m.transcript rs := by
  intro m m'
  have hl := h.lockstep_spellOut
  have hkept (ops : List Operation) := hl.kept_performAll hl.kept_ofSpec ops
  refine ⟨fun ops k => ?_, fun ops op => ?_, fun rs hrs => ?_⟩
  · rw [hl.performAll_ofSpec]
    exact ⟨(hkept ops).safe.read k, (hkept ops).safe.read k⟩
  · rw [hl.performAll_ofSpec, hl.perform (hkept ops)]
  · exact hl.transcript_ofSpec fun q c hq => lookup_spellOut q (hrs q c hq)

/-- The wildcard is a symbol of the input here, and one that is written. -/
theorem transcript_spellOut_of_wildcard_read :
    let i : Instruction := ⟨none, .left, some "B"⟩
    let s : Specification := ⟨' ', "A", .ofList [("A", some (.ofList
      [('0', ⟨some '_', .right, none⟩), ('_', i)])), ("B", some ∅)], ['0', '_', '2']⟩
    let m := Machine.ofSpec s
    let m' := Machine.ofSpec (s.spellOut [' ', '0', '2', '_'])
    let rs : List Request := [.perform .step, .nextTransition, .perform .run, .read .cells,
      .perform .reset, .lookup "A" '2', .perform (.runFor 1)]
    s.CoveredBy [' ', '0', '2', '_'] ∧
      (s.spellOut [' ', '0', '2', '_']).table = .ofList [("A", some (.ofList
        [(' ', i), ('0', ⟨some '_', .right, none⟩), ('2', i), ('_', i)])), ("B", some ∅)] ∧
      (m.performAll [.run]).tape.read (-5) ∈ [' ', '0', '2', '_'] ∧
      m'.transcript rs = m.transcript rs := by
  intro i s m m' rs
  have hcells : s.table.cells = [("A", '0', ⟨some '_', .right, none⟩), ("A", '_', i)] := by decide
  have hc : s.CoveredBy [' ', '0', '2', '_'] := by
    refine ⟨by decide, by simp [s], ?_⟩
    rw [hcells]
    simp [i]
  obtain ⟨hread, -, hrs⟩ := transcript_spellOut hc
  refine ⟨hc, by decide, (hread [.run] (-5)).1, hrs rs fun q c hq => ?_⟩
  obtain ⟨-, rfl⟩ : q = "A" ∧ c = '2' := by simpa [rs] using hq
  decide

end Specification

end TuringTable
