import Mathlib.Data.List.Pairwise
import TuringTable.Proofs.Diagram.Edges
import TuringTable.Proofs.Machine.Lockstep

/-!
# The table of a diagram

A diagram says all that its table says. Made again from the nodes and the edges, the table is the
one that the diagram was drawn for with every target written out (`table_ofSpec`), and no symbol of
a state stands twice (`nodup_places_ofSpec`). So machines of the two tables cannot be told apart
(`alike_table_ofSpec`), and every transition goes along an edge (`exists_edge_of_continued`).
-/

namespace TuringTable

namespace Table

theorem nodup_places (t : Table) : (t.cells.map fun x => (x.1, x.2.1)).Nodup := by
  -- in one row no two symbols are the same, in two rows the states differ
  rw [cells, List.map_flatMap, List.nodup_flatMap]
  constructor
  · rintro ⟨q, _ | row⟩ -
    · exact .nil
    · have hkeys : ((row.entries.map fun p => (q, p)).map fun x => (x.1, x.2.1)) =
          (row.entries.map (·.1)).map fun c => (q, c) := by
        rw [List.map_map, List.map_map]
        rfl
      show ((row.entries.map _).map _).Nodup
      rw [hkeys]
      exact row.nodup_keys.map fun _ _ h => (Prod.ext_iff.1 h).2
  · refine (List.pairwise_map.1 t.nodup_keys).imp fun {x y} hne => ?_
    intro p hx hy
    simp only [List.map_map, List.mem_map, Function.comp] at hx hy
    obtain ⟨_, -, rfl⟩ := hx
    obtain ⟨_, -, heq⟩ := hy
    exact hne (Prod.ext_iff.1 heq).1.symm

end Table

namespace Diagram

/-- Each symbol of each label of each edge, with the state that the edge leaves. -/
def places (d : Diagram) : List (String × Char) :=
  d.edges.flatMap fun e => e.labels.flatMap fun l => l.symbols.map fun c => (e.source, c)

/-- The row that the edges from a state give. -/
def row (d : Diagram) (q : String) : Row :=
  .ofList ((d.edges.filter (·.source = q)).flatMap Edge.cells)

/-- The table that the nodes and the edges give. -/
def table (d : Diagram) : Table :=
  .ofList (d.nodes.map fun n => (n.name, if n.halting then none else some (d.row n.name)))

/-! ### Where a symbol stands -/

theorem mem_places_iff {d : Diagram} {q : String} {c : Char} :
    (q, c) ∈ d.places ↔ ∃ e ∈ d.edges, e.source = q ∧ ∃ l ∈ e.labels, c ∈ l.symbols := by
  simp only [places, List.mem_flatMap, List.mem_map, Prod.mk.injEq]
  constructor
  · rintro ⟨e, he, l, hl, c', hc, rfl, rfl⟩
    exact ⟨e, he, rfl, l, hl, hc⟩
  · rintro ⟨e, he, rfl, l, hl, hc⟩
    exact ⟨e, he, l, hl, c, hc, rfl, rfl⟩

theorem places_eq_map_cells (d : Diagram) : d.places = d.cells.map fun x => (x.1, x.2.1) := by
  rw [places, cells, List.map_flatMap]
  refine List.flatMap_congr fun e _ => ?_
  rw [Edge.cells, List.map_map, List.map_flatMap]
  refine List.flatMap_congr fun l _ => ?_
  rw [Label.cells, List.map_map]
  rfl

theorem existsUnique_of_nodup_flatMap {α β : Type} {f : α → List β} {as : List α}
    (h : (as.flatMap f).Nodup) {b : β} (hb : b ∈ as.flatMap f) : ∃! a, a ∈ as ∧ b ∈ f a := by
  obtain ⟨a, ha, hba⟩ := List.mem_flatMap.1 hb
  refine ⟨a, ⟨ha, hba⟩, ?_⟩
  rintro a' ⟨ha', hba'⟩
  by_contra hne
  have : Std.Symm (Function.onFun List.Disjoint f) := ⟨fun _ _ hd _ hx hy => hd hy hx⟩
  exact (List.nodup_flatMap.1 h).2.forall ha' ha hne hba' hba

theorem existsUnique_label {d : Diagram} (h : d.places.Nodup) {q : String} {c : Char}
    (hm : (q, c) ∈ d.places) :
    ∃! x : Edge × Label,
      x.1 ∈ d.edges ∧ x.1.source = q ∧ x.2 ∈ x.1.labels ∧ c ∈ x.2.symbols := by
  -- the places are those of the pairs of an edge and a label of it
  let pairs := d.edges.flatMap fun e => e.labels.map fun l => (e, l)
  let symbols (x : Edge × Label) := x.2.symbols.map fun c => (x.1.source, c)
  have hp : d.places = pairs.flatMap symbols := by
    rw [List.flatMap_assoc]
    refine List.flatMap_congr fun e _ => ?_
    rw [List.flatMap_map]
  rw [hp] at h hm
  refine (existsUnique_congr fun x => ?_).1 (existsUnique_of_nodup_flatMap h hm)
  simp only [pairs, symbols, List.mem_flatMap, List.mem_map, Prod.ext_iff]
  constructor
  · rintro ⟨⟨e, he, l, hl, h1, h2⟩, c', hc, hs, h3⟩
    subst h1 h2 h3
    exact ⟨he, hs, hl, hc⟩
  · rintro ⟨he, hs, hl, hc⟩
    exact ⟨⟨x.1, he, x.2, hl, rfl, rfl⟩, c, hc, hs, rfl⟩

section ofSpec
variable (s : Specification)

theorem places_ofSpec_perm :
    (ofSpec s).places.Perm (s.table.cells.map fun x => (x.1, x.2.1)) := by
  have := (cells_ofSpec_perm s).map fun x => (x.1, x.2.1)
  rw [Table.cells_explicit, List.map_map] at this
  rw [places_eq_map_cells]
  exact this

theorem nodup_places_ofSpec : (ofSpec s).places.Nodup :=
  (places_ofSpec_perm s).nodup_iff.2 s.table.nodup_places

theorem length_places_ofSpec : (ofSpec s).places.length = s.transitionCount := by
  rw [(places_ofSpec_perm s).length_eq, List.length_map]
  rfl

theorem mem_places_ofSpec_iff {q : String} {c : Char} :
    (q, c) ∈ (ofSpec s).places ↔
      ∃ row i, s.table.get? q = some (some row) ∧ row.get? c = some i := by
  rw [(places_ofSpec_perm s).mem_iff, List.mem_map]
  constructor
  · rintro ⟨⟨q', c', i⟩, hx, heq⟩
    obtain ⟨rfl, rfl⟩ := Prod.ext_iff.1 heq
    obtain ⟨row, hq, hc⟩ := s.table.mem_cells_iff.1 hx
    exact ⟨row, i, hq, hc⟩
  · rintro ⟨row, i, hq, hc⟩
    exact ⟨(q, c, i), s.table.mem_cells_iff.2 ⟨row, hq, hc⟩, rfl⟩

/-! ### The table made again -/

theorem row_ofSpec {q : String} {row : Row} (h : s.table.get? q = some (some row)) :
    (ofSpec s).row q = row.explicit q := by
  have hrow : s.table.explicit.get? q = some (some (row.explicit q)) := by
    rw [Table.get?_explicit, h]
    rfl
  refine SortedMap.ofList_eq_of_perm ?_
  rw [← filter_flatMap_key, ← Table.filter_cells _ hrow]
  exact ((cells_ofSpec_perm s).filter _).map _

theorem table_ofSpec : (ofSpec s).table = s.table.explicit := by
  have hnodes : ((ofSpec s).nodes.map fun n =>
        (n.name, if n.halting then none else some ((ofSpec s).row n.name))) =
      (startFirst s).map fun x => (x.1, x.2.map (Row.explicit x.1)) := by
    rw [ofSpec, List.map_map]
    refine List.map_congr_left ?_
    rintro ⟨q, _ | row⟩ hx
    · rfl
    · have hq : s.table.get? q = some (some row) :=
        s.table.get?_eq_some_iff_mem.2 ((perm_startFirst s).mem_iff.1 hx)
      show (q, some ((ofSpec s).row q)) = _
      rw [row_ofSpec s hq]
      rfl
  rw [table, hnodes]
  exact SortedMap.ofList_eq_of_perm ((perm_startFirst s).map _)

/-- Nothing is looked up otherwise in the table made again. -/
theorem alike_table_ofSpec : s.Alike { s with table := (ofSpec s).table } := by
  refine ⟨rfl, rfl, rfl, fun q c => ?_⟩
  have hq : (ofSpec s).table.get? q = (s.table.get? q).map (Option.map (Row.explicit q)) := by
    rw [table_ofSpec, Table.get?_explicit]
  have hrow (row : Row) : Specification.instruction? (row.explicit q) c =
      (Specification.instruction? row c).map (·.explicit q) := by
    rw [Specification.instruction?, Specification.instruction?, Row.explicit, SortedMap.get?_map,
      SortedMap.get?_map]
    cases row.get? c <;> rfl
  rw [Specification.lookup, Specification.lookup, hq]
  rcases s.table.get? q with _ | _ | row
  · rfl
  · rfl
  · show Except.ok ((Specification.instruction? (row.explicit q) c).map _) = _
    rw [hrow, Option.map_map]
    -- a target that is left out is filled in with the same state
    rfl

/-! ### Transitions along edges -/

theorem exists_edge_of_get? {q : String} {row : Row} {c : Char} {i : Instruction}
    (hq : s.table.get? q = some (some row)) (hc : row.get? c = some i) :
    ∃ e l, (ofSpec s).edge? q (i.target q) = some e ∧ l ∈ e.labels ∧ c ∈ l.symbols ∧
      l.write = i.write ∧ l.direction = i.direction := by
  have hmem : (q, c, i.explicit q) ∈ (ofSpec s).cells := by
    rw [(cells_ofSpec_perm s).mem_iff, Table.cells_explicit, List.mem_map]
    exact ⟨(q, c, i), s.table.mem_cells_iff.2 ⟨row, hq, hc⟩, rfl⟩
  obtain ⟨e, he, hcell⟩ := List.mem_flatMap.1 hmem
  obtain ⟨p, hp, heq⟩ := List.mem_map.1 hcell
  obtain ⟨hsource, rfl⟩ := Prod.ext_iff.1 heq
  obtain ⟨l, hl, hsymbol⟩ := List.mem_flatMap.1 hp
  obtain ⟨c', hc', heq⟩ := List.mem_map.1 hsymbol
  obtain ⟨rfl, hi⟩ := Prod.ext_iff.1 heq
  obtain ⟨hwrite, hdirection, htarget⟩ := Instruction.mk.inj hi
  have hend : e.target = i.target q := Option.some.inj htarget
  have hfound := edge?_of_mem s he
  rw [hend, show e.source = q from hsource] at hfound
  exact ⟨e, l, hfound, hl, hc', hwrite, hdirection⟩

/-- A step that goes on goes along an edge, and a label of it says what was written and where the
head went. -/
theorem exists_edge_of_continued {m : Machine} (hs : m.spec = s)
    (hm : m.step.result = .ok .continued) :
    ∃ e l, (ofSpec s).edge? m.state m.step.machine.state = some e ∧ l ∈ e.labels ∧
      (m.tape.head ∈ l.symbols ∨ wildcard ∈ l.symbols) ∧
      m.step.machine.tape = (m.tape.write (l.write.getD m.tape.head)).move l.direction := by
  obtain ⟨hr, t, ht⟩ := Machine.step_result_eq_continued_iff.1 hm
  obtain ⟨i, hi, rfl⟩ := Specification.lookup_eq_some_iff.1 ht
  obtain ⟨row, c, hq, hc, hread⟩ : ∃ row c, s.table.get? m.state = some (some row) ∧
      row.get? c = some i ∧ (c = m.tape.head ∨ c = wildcard) := by
    rw [← hs]
    cases hi with
    | listed hq hc => exact ⟨_, _, hq, hc, .inl rfl⟩
    | wildcard hq _ hw => exact ⟨_, _, hq, hw, .inr rfl⟩
  obtain ⟨e, l, he, hl, hcl, hwrite, hdirection⟩ := exists_edge_of_get? s hq hc
  have hread : m.tape.head ∈ l.symbols ∨ wildcard ∈ l.symbols := by
    rcases hread with rfl | rfl
    · exact .inl hcl
    · exact .inr hcl
  rw [Machine.step_of_some hr ht]
  refine ⟨e, l, he, hl, hread, ?_⟩
  rw [hwrite, hdirection]
  rfl

end ofSpec

/-- A diagram loses nothing and invents nothing. Every symbol that the table lists for a state stands
in one label of one edge, and nothing else does. The table made again from the diagram is the old
one with every target written out, so machines of the two cannot be told apart; and every step that
goes on goes along an edge. -/
theorem table_ofSpec_eq_explicit (s : Specification) :
    let d := ofSpec s
    let s' : Specification := { s with table := d.table }
    (d.nodes.map (·.name)).Nodup ∧ d.places.Nodup ∧ d.places.length = s.transitionCount ∧
      (∀ q c, (∃ row i, s.table.get? q = some (some row) ∧ row.get? c = some i) ↔
        ∃! x : Edge × Label,
          x.1 ∈ d.edges ∧ x.1.source = q ∧ x.2 ∈ x.1.labels ∧ c ∈ x.2.symbols) ∧
      d.table = s.table.explicit ∧
      (∀ rs, (Machine.ofSpec s').transcript rs = (Machine.ofSpec s).transcript rs) ∧
      ∀ ops,
        let m := (Machine.ofSpec s).performAll ops
        m.step.result = .ok .continued →
          ∃ e l, d.edge? m.state m.step.machine.state = some e ∧ l ∈ e.labels ∧
            (m.tape.head ∈ l.symbols ∨ wildcard ∈ l.symbols) ∧
            m.step.machine.tape = (m.tape.write (l.write.getD m.tape.head)).move l.direction := by
  intro d s'
  have hd : d.places.Nodup := nodup_places_ofSpec s
  refine ⟨nodup_names_ofSpec s, hd, length_places_ofSpec s, fun q c => ?_, table_ofSpec s,
    (alike_table_ofSpec s).transcript_ofSpec, fun ops => ?_⟩
  · rw [← mem_places_ofSpec_iff]
    constructor
    · exact existsUnique_label hd
    · rintro ⟨x, ⟨he, hs, hl, hc⟩, -⟩
      exact mem_places_iff.2 ⟨x.1, he, hs, x.2, hl, hc⟩
  · exact exists_edge_of_continued s (Machine.spec_performAll _ ops)

/-- A move to the right whose target is left out, and then a step into a halting state by the
instruction for the wildcard. -/
theorem edges_of_two_steps :
    let s : Specification := ⟨' ', "A", .ofList [("A", some (.ofList
      [('0', .move .right), ('_', ⟨some '1', .left, some "B"⟩)])), ("B", none)], ['0', '2']⟩
    let m := (Machine.ofSpec s).performAll [.step]
    m.step.result = .ok .continued ∧ (ofSpec s).places.length = 2 ∧
      (ofSpec s).table = .ofList [("A", some (.ofList
        [('0', ⟨none, .right, some "A"⟩), ('_', ⟨some '1', .left, some "B"⟩)])), ("B", none)] ∧
      ∃ e l, (ofSpec s).edge? "A" "B" = some e ∧ l ∈ e.labels ∧
        ('2' ∈ l.symbols ∨ wildcard ∈ l.symbols) := by
  intro s m
  obtain ⟨-, -, hcount, -, htable, -, hedge⟩ := table_ofSpec_eq_explicit s
  have hm : m.step.result = .ok .continued := by decide
  obtain ⟨e, l, he, hl, hread, -⟩ := hedge [.step] hm
  have hq : m.state = "A" ∧ m.step.machine.state = "B" ∧ m.tape.head = '2' := by decide
  rw [hq.1, hq.2.1] at he
  rw [hq.2.2] at hread
  exact ⟨hm, hcount.trans (by decide), htable.trans (by decide), e, l, he, hl, hread⟩

end Diagram

end TuringTable
