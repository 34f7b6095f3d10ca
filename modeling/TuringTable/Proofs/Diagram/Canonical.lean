import Mathlib.Data.List.Sort
import TuringTable.Proofs.Diagram.Groups

/-!
# The form of a diagram

`Canonical s d` says what the diagram `d` has for the table of `s`, and in which order. That the
diagram of `s` has this form (`canonical_ofSpec`) follows from its arrows: they are sorted by their
sources and then by their first symbols (`arrowsOf_sorted`), and grouping keeps that order. Members
and order leave nothing open, so it is the only diagram with the form (`Canonical.unique`).
-/

namespace TuringTable

namespace Specification

/-- The order of states: the start state first, the others in increasing order. -/
def Precedes (s : Specification) (p q : String) : Prop :=
  q ≠ s.startState ∧ (p = s.startState ∨ p < q)

/-- In state `q` the symbol `c` leads to `t`. -/
def LeadsOn (s : Specification) (q : String) (c : Char) (t : String) : Prop :=
  ∃ i, (q, c, i) ∈ s.table.cells ∧ i.target q = t

variable {s : Specification}

theorem not_precedes_self (q : String) : ¬ s.Precedes q q := by
  rintro ⟨hq, rfl | hlt⟩
  · exact hq rfl
  · exact Std.lt_irrefl hlt

end Specification

namespace Diagram

/-! ### The form -/

/-- The label is for the symbols that have the instruction in state `q` and for no others. -/
structure Label.StandsFor (l : Label) (s : Specification) (q : String) (i : Instruction) :
    Prop where
  write : l.write = i.write
  direction : l.direction = i.direction
  symbols : ∀ c, c ∈ l.symbols ↔ (q, c, i) ∈ s.table.cells

/-- The least symbol of the one label is less than that of the other. -/
def Label.Before (l l' : Label) : Prop := ∃ c ∈ l.symbols, ∀ c' ∈ l'.symbols, c < c'

/-- The source comes first, or from one source the least symbol that leads along the edge. -/
def Edge.Before (s : Specification) (e e' : Edge) : Prop :=
  s.Precedes e.source e'.source ∨ e.source = e'.source ∧
    ∃ c, s.LeadsOn e.source c e.target ∧ ∀ c', s.LeadsOn e'.source c' e'.target → c < c'

/-- The two labels stand for one instruction with its target left out and with the state itself
written out as its target. -/
def Label.StayAlike (l l' : Label) (s : Specification) (q : String) : Prop :=
  l.StandsFor s q ⟨l.write, l.direction, none⟩ ∧ l'.StandsFor s q ⟨l.write, l.direction, some q⟩

/-- What the diagram of a specification has, and in which order. -/
structure Canonical (s : Specification) (d : Diagram) : Prop where
  /-- The states of the table have nodes, and nothing else has. -/
  mem_names : ∀ q, q ∈ d.nodes.map (·.name) ↔ q ∈ s.table.keys
  names_nodup : (d.nodes.map (·.name)).Nodup
  nodes_sorted : d.nodes.Pairwise fun m n => s.Precedes m.name n.name
  start : ∀ n ∈ d.nodes, n.start = true ↔ n.name = s.startState
  halting : ∀ n ∈ d.nodes, n.halting = true ↔ s.table.get? n.name = some none
  ends_nodup : (d.edges.map fun e => (e.source, e.target)).Nodup
  edge_iff : ∀ q t, (d.edge? q t).isSome = true ↔ ∃ c, s.LeadsOn q c t
  edges_sorted : d.edges.Pairwise (Edge.Before s)
  /-- Each instruction of a state has a label on the edge to its target. -/
  labelled : ∀ q c i, (q, c, i) ∈ s.table.cells →
    ∃ e l, d.edge? q (i.target q) = some e ∧ l ∈ e.labels ∧ l.StandsFor s q i
  stands : ∀ e ∈ d.edges, ∀ l ∈ e.labels,
    ∃ i, i.target e.source = e.target ∧ l.StandsFor s e.source i
  labels_sorted : ∀ e ∈ d.edges, e.labels.Pairwise Label.Before
  symbols_sorted : ∀ e ∈ d.edges, ∀ l ∈ e.labels, l.symbols ≠ [] ∧ l.symbols.Pairwise (· < ·)
  /-- Only on a loop there are labels alike: two, and they differ in how the target is given. -/
  alike : ∀ e ∈ d.edges, e.labels.Pairwise fun l l' =>
    l.write = l'.write → l.direction = l'.direction →
      e.source = e.target ∧ (l.StayAlike l' s e.source ∨ l'.StayAlike l s e.source)

end Diagram

/-- The label of an instruction of the row. -/
def Row.label (row : Row) (i : Instruction) : Diagram.Label :=
  ⟨(row.entries.filter (·.2 = i)).map (·.1), i.write, i.direction⟩

namespace Diagram

/-! ### Labels and arrows -/

theorem mem_symbols_label_iff {row : Row} {i : Instruction} {c : Char} :
    c ∈ (row.label i).symbols ↔ row.get? c = some i := by
  simp [Row.label, SortedMap.get?_eq_some_iff_mem]

theorem symbols_label_sorted (row : Row) (i : Instruction) :
    (row.label i).symbols.Pairwise (· < ·) :=
  row.keys_sorted.sublist (List.filter_sublist.map _)

/-- A row has one arrow for each of its instructions. -/
theorem mem_arrows_iff {q : String} {row : Row} {a : Arrow} :
    a ∈ arrows q row ↔ ∃ c i, row.get? c = some i ∧ a = ⟨q, i.target q, row.label i⟩ := by
  -- the target of an instruction goes into the key and adds nothing to it
  have hlabel (i : Instruction) :
      ⟨(row.entries.filter fun p => p.2.target q = i.target q ∧ p.2 = i).map (·.1), i.write,
        i.direction⟩ = row.label i := by
    have hfilter : row.entries.filter (fun p => p.2.target q = i.target q ∧ p.2 = i) =
        row.entries.filter (·.2 = i) := by
      refine List.filter_congr fun p _ => ?_
      by_cases hp : p.2 = i <;> simp [hp]
    rw [Row.label, hfilter]
  simp only [arrows, List.mem_map, Prod.exists, mem_groupBy_iff, Prod.mk.injEq,
    SortedMap.get?_eq_some_iff_mem]
  constructor
  · rintro ⟨t, i, cells, ⟨⟨c, j, hc, rfl, rfl⟩, rfl⟩, rfl⟩
    exact ⟨c, j, hc, by rw [hlabel]⟩
  · rintro ⟨c, i, hc, rfl⟩
    exact ⟨i.target q, i, _, ⟨⟨c, i, hc, rfl, rfl⟩, rfl⟩, by rw [hlabel]⟩

theorem arrows_sorted (q : String) (row : Row) :
    (arrows q row).Pairwise fun a b => a.label.Before b.label := by
  rw [arrows, List.pairwise_map]
  refine (pairwise_groupBy row.sorted).imp ?_
  rintro ⟨k, g⟩ ⟨k', g'⟩ ⟨p, hp, hlt⟩
  exact ⟨p.1, List.mem_map_of_mem hp, List.forall_mem_map.2 hlt⟩

variable {s : Specification}

theorem label_standsFor {q : String} {row : Row} (h : s.table.get? q = some (some row))
    (i : Instruction) : (row.label i).StandsFor s q i := by
  refine ⟨rfl, rfl, fun c => ?_⟩
  rw [mem_symbols_label_iff, s.table.mem_cells_iff]
  constructor
  · exact fun hc => ⟨row, h, hc⟩
  · rintro ⟨row', h', hc⟩
    cases h.symm.trans h'
    exact hc

theorem startFirst_sorted (s : Specification) :
    (startFirst s).Pairwise fun x y => s.Precedes x.1 y.1 := by
  rw [startFirst, List.pairwise_append]
  refine ⟨?_, ?_, fun x hx y hy => ?_⟩
  · refine (s.table.sorted.filter _).imp_of_mem fun {x y} hx hy hlt => ?_
    -- there is one entry at most for the start state
    rw [of_decide_eq_true (List.mem_filter.1 hx).2, of_decide_eq_true (List.mem_filter.1 hy).2]
      at hlt
    exact absurd hlt Std.lt_irrefl
  · refine (s.table.sorted.filter _).imp_of_mem fun {x y} _ hy hlt => ?_
    exact ⟨of_decide_eq_true (List.mem_filter.1 hy).2, .inr hlt⟩
  · exact ⟨of_decide_eq_true (List.mem_filter.1 hy).2,
      .inl (of_decide_eq_true (List.mem_filter.1 hx).2)⟩

/-- All arrows of a diagram, in the order in which edges are made of them. -/
def arrowsOf (s : Specification) : List Arrow :=
  (startFirst s).flatMap fun (q, row) => row.elim [] (arrows q)

theorem mem_arrowsOf_iff {a : Arrow} :
    a ∈ arrowsOf s ↔ ∃ row c i, s.table.get? a.source = some (some row) ∧ row.get? c = some i ∧
      i.target a.source = a.target ∧ a.label = row.label i := by
  simp only [arrowsOf, List.mem_flatMap, (perm_startFirst s).mem_iff, Prod.exists,
    SortedMap.get?_eq_some_iff_mem]
  constructor
  · rintro ⟨q, _ | row, hq, ha⟩
    · cases ha
    · obtain ⟨c, i, hc, rfl⟩ := mem_arrows_iff.1 ha
      exact ⟨row, c, i, hq, (row.get?_eq_some_iff_mem).1 hc, rfl, rfl⟩
  · rintro ⟨row, c, i, hq, hc, htarget, hlabel⟩
    refine ⟨a.source, some row, hq, mem_arrows_iff.2 ⟨c, i, row.get?_eq_some_iff_mem.2 hc, ?_⟩⟩
    rw [htarget, ← hlabel]

def Arrow.Before (s : Specification) (a b : Arrow) : Prop :=
  s.Precedes a.source b.source ∨ a.source = b.source ∧ a.label.Before b.label

theorem arrowsOf_sorted (s : Specification) : (arrowsOf s).Pairwise (Arrow.Before s) := by
  have hsource {x : String × Option Row} {a : Arrow} (ha : a ∈ x.2.elim [] (arrows x.1)) :
      a.source = x.1 := by
    obtain ⟨q, _ | row⟩ := x
    · cases ha
    · obtain ⟨-, -, -, rfl⟩ := mem_arrows_iff.1 ha
      rfl
  rw [arrowsOf, List.pairwise_flatMap]
  constructor
  · rintro ⟨q, _ | row⟩ -
    · exact .nil
    · refine (arrows_sorted q row).imp_of_mem fun {a b} ha hb h => .inr ⟨?_, h⟩
      exact (hsource (x := (q, some row)) ha).trans (hsource (x := (q, some row)) hb).symm
  · refine (startFirst_sorted s).imp fun {x y} h a ha b hb => .inl ?_
    rw [hsource ha, hsource hb]
    exact h

/-! ### Edges -/

/-- An edge is there if it has an arrow, and it has the labels of its arrows in their order. -/
theorem mem_edges_ofSpec_iff {e : Edge} :
    e ∈ (ofSpec s).edges ↔ (e.source, e.target) ∈ (arrowsOf s).map Arrow.ends ∧
      e.labels = ((arrowsOf s).filter (Arrow.ends · = (e.source, e.target))).map (·.label) := by
  show e ∈ edgesOf (arrowsOf s) ↔ _
  simp only [edgesOf, List.mem_map (l := groupBy _ _), Prod.exists, mem_groupBy_iff]
  constructor
  · rintro ⟨q, t, _, ⟨hends, rfl⟩, rfl⟩
    exact ⟨hends, rfl⟩
  · rintro ⟨hends, hlabels⟩
    exact ⟨e.source, e.target, _, ⟨hends, rfl⟩, by rw [← hlabels]⟩

theorem mem_labels_iff {e : Edge} (he : e ∈ (ofSpec s).edges) {l : Label} :
    l ∈ e.labels ↔ ∃ row c i, s.table.get? e.source = some (some row) ∧ row.get? c = some i ∧
      i.target e.source = e.target ∧ l = row.label i := by
  simp only [(mem_edges_ofSpec_iff.1 he).2, List.mem_map, List.mem_filter, decide_eq_true_iff,
    mem_arrowsOf_iff]
  constructor
  · rintro ⟨⟨q, t, l⟩, ⟨ha, hends⟩, rfl⟩
    obtain ⟨rfl, rfl⟩ := Prod.ext_iff.1 hends
    exact ha
  · rintro ha
    exact ⟨⟨e.source, e.target, l⟩, ⟨ha, rfl⟩, rfl⟩

theorem exists_edge {q t : String} (h : (q, t) ∈ (arrowsOf s).map Arrow.ends) :
    ∃ e ∈ (ofSpec s).edges, e.source = q ∧ e.target = t := by
  let labels := ((arrowsOf s).filter (Arrow.ends · = (q, t))).map (·.label)
  exact ⟨⟨q, t, labels⟩, mem_edges_ofSpec_iff.2 ⟨h, rfl⟩, rfl, rfl⟩

theorem mem_ends_arrowsOf_iff {q t : String} :
    (q, t) ∈ (arrowsOf s).map Arrow.ends ↔ ∃ c, s.LeadsOn q c t := by
  simp only [List.mem_map, mem_arrowsOf_iff, Specification.LeadsOn, s.table.mem_cells_iff]
  constructor
  · rintro ⟨⟨_, _, _⟩, ⟨row, c, i, hq, hc, htarget, -⟩, hends⟩
    obtain ⟨rfl, rfl⟩ := Prod.ext_iff.1 hends
    exact ⟨c, i, ⟨row, hq, hc⟩, htarget⟩
  · rintro ⟨c, i, ⟨row, hq, hc⟩, htarget⟩
    exact ⟨⟨q, t, row.label i⟩, ⟨row, c, i, hq, hc, htarget, rfl⟩, rfl⟩

theorem isSome_edge?_iff {q t : String} :
    ((ofSpec s).edge? q t).isSome = true ↔ ∃ c, s.LeadsOn q c t := by
  rw [edge?, List.find?_isSome, ← mem_ends_arrowsOf_iff]
  simp only [Bool.and_eq_true, beq_iff_eq]
  constructor
  · rintro ⟨e, he, rfl, rfl⟩
    exact (mem_edges_ofSpec_iff.1 he).1
  · exact exists_edge

theorem exists_label {q : String} {c : Char} {i : Instruction} (h : (q, c, i) ∈ s.table.cells) :
    ∃ e l, (ofSpec s).edge? q (i.target q) = some e ∧ l ∈ e.labels ∧ l.StandsFor s q i := by
  obtain ⟨row, hq, hc⟩ := s.table.mem_cells_iff.1 h
  obtain ⟨e, he, rfl, htarget⟩ := exists_edge (mem_ends_arrowsOf_iff.2 ⟨c, i, h, rfl⟩)
  refine ⟨e, row.label i, ?_, (mem_labels_iff he).2 ⟨row, c, i, hq, hc, htarget.symm, rfl⟩,
    label_standsFor hq i⟩
  rw [← htarget]
  exact edge?_of_mem s he

theorem exists_instruction {e : Edge} {l : Label} (he : e ∈ (ofSpec s).edges) (hl : l ∈ e.labels) :
    ∃ i, i.target e.source = e.target ∧ l.StandsFor s e.source i := by
  obtain ⟨row, c, i, hrow, -, htarget, rfl⟩ := (mem_labels_iff he).1 hl
  exact ⟨i, htarget, label_standsFor hrow i⟩

/-! ### The order of edges and labels -/

theorem labels_sorted {e : Edge} (he : e ∈ (ofSpec s).edges) : e.labels.Pairwise Label.Before := by
  rw [(mem_edges_ofSpec_iff.1 he).2, List.pairwise_map]
  refine ((arrowsOf_sorted s).filter _).imp_of_mem fun {a b} ha hb h => ?_
  have hsource {a : Arrow} (ha : a ∈ (arrowsOf s).filter (Arrow.ends · = (e.source, e.target))) :
      a.source = e.source := (Prod.ext_iff.1 (of_decide_eq_true (List.mem_filter.1 ha).2)).1
  refine (h.resolve_left ?_).2
  rw [hsource ha, hsource hb]
  exact Specification.not_precedes_self _

theorem exists_least {cs : List Char} (hne : cs ≠ []) (h : cs.Pairwise (· < ·)) :
    ∃ c ∈ cs, ∀ d ∈ cs, c ≤ d := by
  obtain ⟨c, cs, rfl⟩ := List.exists_cons_of_ne_nil hne
  refine ⟨c, List.mem_cons_self, List.forall_mem_cons.2 ⟨Std.le_refl c, fun d hd => ?_⟩⟩
  exact Std.le_of_lt ((List.pairwise_cons.1 h).1 d hd)

theorem edges_sorted (s : Specification) : (ofSpec s).edges.Pairwise (Edge.Before s) := by
  show (edgesOf (arrowsOf s)).Pairwise _
  rw [edgesOf, List.pairwise_map]
  refine (pairwise_groupBy (arrowsOf_sorted s)).imp_of_mem ?_
  rintro ⟨⟨q, t⟩, as⟩ ⟨⟨q', t'⟩, bs⟩ hg hh ⟨a, ha, hab⟩
  obtain ⟨-, rfl⟩ := mem_groupBy_iff.1 hg
  obtain ⟨hmem, rfl⟩ := mem_groupBy_iff.1 hh
  simp only [List.mem_filter, decide_eq_true_iff] at ha hab
  obtain ⟨ha, hends⟩ := ha
  obtain ⟨rfl, rfl⟩ := Prod.ext_iff.1 hends
  by_cases hq : a.source = q'
  · subst hq
    obtain ⟨row, c, i, hrow, hc, htarget, hlabel⟩ := mem_arrowsOf_iff.1 ha
    -- the least symbol of the first label is less than any that leads along the other edge
    have hne : a.label.symbols ≠ [] := by
      rw [hlabel]
      exact List.ne_nil_of_mem (mem_symbols_label_iff.2 hc)
    obtain ⟨d, hd, hleast⟩ := exists_least hne (hlabel ▸ symbols_label_sorted row i)
    have hcell : (a.source, d, i) ∈ s.table.cells :=
      ((label_standsFor hrow i).symbols d).1 (hlabel ▸ hd)
    refine .inr ⟨rfl, d, ⟨i, hcell, htarget⟩, ?_⟩
    rintro c' ⟨i', hcell', htarget'⟩
    obtain ⟨row', hrow', hc'⟩ := s.table.mem_cells_iff.1 hcell'
    have hb := hab ⟨a.source, t', row'.label i'⟩
      ⟨mem_arrowsOf_iff.2 ⟨row', c', i', hrow', hc', htarget', rfl⟩, rfl⟩
    obtain ⟨-, d', hd', hlt⟩ := hb.resolve_left (Specification.not_precedes_self _)
    exact Std.lt_of_le_of_lt (hleast d' hd') (hlt c' (mem_symbols_label_iff.2 hc'))
  · obtain ⟨b, hb, hends⟩ := List.mem_map.1 hmem
    obtain ⟨rfl, rfl⟩ := Prod.ext_iff.1 hends
    exact .inl ((hab b ⟨hb, rfl⟩).resolve_right fun h => hq h.1)

/-- Labels that say the same stand for different instructions, so one of these leaves its target
out. -/
theorem alike_of_before {q t : String} {l l' : Label} (hbefore : l.Before l')
    (hl : ∃ i, i.target q = t ∧ l.StandsFor s q i) (hl' : ∃ i, i.target q = t ∧ l'.StandsFor s q i)
    (hwrite : l.write = l'.write) (hdirection : l.direction = l'.direction) :
    q = t ∧ (l.StayAlike l' s q ∨ l'.StayAlike l s q) := by
  obtain ⟨⟨w, d, n⟩, htarget, h⟩ := hl
  obtain ⟨⟨w', d', n'⟩, htarget', h'⟩ := hl'
  obtain rfl : w = w' := h.write.symm.trans (hwrite.trans h'.write)
  obtain rfl : d = d' := h.direction.symm.trans (hdirection.trans h'.direction)
  have hne : n ≠ n' := by
    rintro rfl
    obtain ⟨c, hc, hlt⟩ := hbefore
    exact Std.lt_irrefl (hlt c ((h'.symbols c).2 ((h.symbols c).1 hc)))
  obtain ⟨rfl, rfl⟩ : l.write = w ∧ l.direction = d := ⟨h.write, h.direction⟩
  simp only [Label.StayAlike, ← hwrite, ← hdirection]
  cases n with
  | none =>
    cases n' with
    | none => exact absurd rfl hne
    | some t' =>
      obtain rfl : q = t := htarget
      obtain rfl : t' = q := htarget'
      exact ⟨rfl, .inl ⟨h, h'⟩⟩
  | some t₁ =>
    obtain rfl : t₁ = t := htarget
    cases n' with
    | none =>
      obtain rfl : q = t₁ := htarget'
      exact ⟨rfl, .inr ⟨h', h⟩⟩
    | some t' => exact absurd (congrArg some htarget'.symm) hne

theorem canonical_ofSpec (s : Specification) : Canonical s (ofSpec s) where
  mem_names q := (perm_names_ofSpec s).mem_iff
  names_nodup := nodup_names_ofSpec s
  nodes_sorted := List.pairwise_map.2 (startFirst_sorted s)
  start := List.forall_mem_map.2 fun x _ => beq_iff_eq
  halting := by
    refine List.forall_mem_map.2 fun x hx => ?_
    have hq : s.table.get? x.1 = some x.2 :=
      s.table.get?_eq_some_iff_mem.2 ((perm_startFirst s).mem_iff.1 hx)
    rw [hq, Option.some.injEq]
    exact Option.isNone_iff_eq_none
  ends_nodup := nodup_ends_ofSpec s
  edge_iff q t := isSome_edge?_iff
  edges_sorted := edges_sorted s
  labelled q c i h := exists_label h
  stands e he l hl := exists_instruction he hl
  labels_sorted e he := labels_sorted he
  symbols_sorted e he l hl := by
    obtain ⟨row, c, i, -, hc, -, rfl⟩ := (mem_labels_iff he).1 hl
    exact ⟨List.ne_nil_of_mem (mem_symbols_label_iff.2 hc), symbols_label_sorted row i⟩
  alike e he := (labels_sorted he).imp_of_mem fun {l l'} hl hl' hbefore =>
    alike_of_before hbefore (exists_instruction he hl) (exists_instruction he hl')

/-! ### Only one diagram has the form -/

instance : Std.Asymm s.Precedes where
  asymm p q := by
    rintro ⟨hq, rfl | hpq⟩ ⟨hp, rfl | hqp⟩
    · exact hq rfl
    · exact hp rfl
    · exact hq rfl
    · exact Std.lt_irrefl (Std.lt_trans hpq hqp)

instance : Std.Asymm Label.Before where
  asymm l l' := by
    rintro ⟨c, hc, hlt⟩ ⟨d, hd, hlt'⟩
    exact Std.lt_irrefl (Std.lt_trans (hlt d hd) (hlt' c hc))

instance : Std.Asymm (Edge.Before s) where
  asymm e e' := by
    rintro (h | ⟨hs, c, hc, hlt⟩) (h' | ⟨hs', d, hd, hlt'⟩)
    · exact Std.Asymm.asymm _ _ h h'
    · exact Specification.not_precedes_self _ (hs' ▸ h)
    · exact Specification.not_precedes_self _ (hs ▸ h')
    · exact Std.lt_irrefl (Std.lt_trans (hlt d hd) (hlt' c hc))

theorem Label.StandsFor.unique {l l' : Label} {q : String} {i : Instruction}
    (h : l.StandsFor s q i) (h' : l'.StandsFor s q i) (hl : l.symbols.Pairwise (· < ·))
    (hl' : l'.symbols.Pairwise (· < ·)) : l = l' := by
  obtain ⟨cs, w, d⟩ := l
  obtain ⟨cs', w', d'⟩ := l'
  obtain rfl : w = w' := h.write.trans h'.write.symm
  obtain rfl : d = d' := h.direction.trans h'.direction.symm
  obtain rfl : cs = cs' :=
    hl.eq_of_mem_iff hl' fun c => (h.symbols c).trans (h'.symbols c).symm
  rfl

namespace Canonical
variable {d d' : Diagram}

theorem nodes_unique (h : Canonical s d) (h' : Canonical s d') : d.nodes = d'.nodes := by
  have hnames : d.nodes.map (·.name) = d'.nodes.map (·.name) :=
    (List.pairwise_map.2 h.nodes_sorted).eq_of_mem_iff (List.pairwise_map.2 h'.nodes_sorted)
      fun q => (h.mem_names q).trans (h'.mem_names q).symm
  -- a node is known by its name
  have hnodes {d : Diagram} (h : Canonical s d) : d.nodes = (d.nodes.map (·.name)).map fun q =>
      ⟨q, q == s.startState, s.table.get? q == some none⟩ := by
    rw [List.map_map]
    refine (List.map_id _).symm.trans (List.map_congr_left fun n hn => ?_)
    obtain ⟨q, start, halting⟩ := n
    have hstart : start = (q == s.startState) := by
      rw [Bool.eq_iff_iff, beq_iff_eq]
      exact h.start _ hn
    have hhalting : halting = (s.table.get? q == some none) := by
      rw [Bool.eq_iff_iff, beq_iff_eq]
      exact h.halting _ hn
    rw [hstart, hhalting]
    rfl
  rw [hnodes h, hnodes h', hnames]

theorem mem_labels (h : Canonical s d) (h' : Canonical s d') {e e' : Edge} (he : e ∈ d.edges)
    (he' : e' ∈ d'.edges) (hsource : e.source = e'.source) (htarget : e.target = e'.target)
    {l : Label} (hl : l ∈ e.labels) : l ∈ e'.labels := by
  obtain ⟨i, hi, hstands⟩ := h.stands e he l hl
  obtain ⟨hne, hsorted⟩ := h.symbols_sorted e he l hl
  obtain ⟨c, hc⟩ := List.exists_mem_of_ne_nil _ hne
  obtain ⟨e'', l', hedge, hl', hstands'⟩ := h'.labelled _ c i ((hstands.symbols c).1 hc)
  rw [hi, hsource, htarget, edge?_of_nodup h'.ends_nodup he',
    Option.some.injEq] at hedge
  subst hedge
  rwa [hstands.unique hstands' hsorted (h'.symbols_sorted e' he' l' hl').2]

theorem mem_edges (h : Canonical s d) (h' : Canonical s d') {e : Edge} (he : e ∈ d.edges) :
    e ∈ d'.edges := by
  have hsome : (d'.edge? e.source e.target).isSome = true := by
    rw [h'.edge_iff, ← h.edge_iff, edge?_of_nodup h.ends_nodup he]
    rfl
  obtain ⟨e', hedge⟩ := Option.isSome_iff_exists.1 hsome
  have he' : e' ∈ d'.edges := List.mem_of_find?_eq_some hedge
  obtain ⟨hsource, htarget⟩ : e'.source = e.source ∧ e'.target = e.target := by
    simpa using List.find?_some hedge
  have hlabels : e.labels = e'.labels :=
    (h.labels_sorted e he).eq_of_mem_iff (h'.labels_sorted e' he') fun l =>
      ⟨h.mem_labels h' he he' hsource.symm htarget.symm,
        h'.mem_labels h he' he hsource htarget⟩
  obtain ⟨q, t, labels⟩ := e
  obtain ⟨q', t', labels'⟩ := e'
  cases hsource
  cases htarget
  cases hlabels
  exact he'

theorem unique (h : Canonical s d) (h' : Canonical s d') : d = d' := by
  have hedges : d.edges = d'.edges :=
    h.edges_sorted.eq_of_mem_iff h'.edges_sorted fun e => ⟨h.mem_edges h', h'.mem_edges h⟩
  obtain ⟨nodes, edges⟩ := d
  obtain ⟨nodes', edges'⟩ := d'
  cases h.nodes_unique h'
  cases hedges
  rfl

theorem start_first (h : Canonical s d) (hs : s.startState ∈ s.table.keys) :
    ∃ n ns, d.nodes = n :: ns ∧ n.name = s.startState ∧ n.start = true ∧
      ∀ m ∈ ns, m.start = false := by
  obtain ⟨m, hm, hname⟩ := List.mem_map.1 ((h.mem_names _).2 hs)
  have hsorted := h.nodes_sorted
  have hstart := h.start
  cases hd : d.nodes with
  | nil => simp [hd] at hm
  | cons n ns =>
    rw [hd] at hm hsorted hstart
    -- no node comes before that of the start state
    have hfirst : n.name = s.startState := by
      rcases List.mem_cons.1 hm with rfl | hm
      · exact hname
      · exact absurd hname ((List.pairwise_cons.1 hsorted).1 m hm).1
    refine ⟨n, ns, rfl, hfirst, (hstart n List.mem_cons_self).2 hfirst, fun m hm => ?_⟩
    rw [← Bool.not_eq_true, hstart m (List.mem_cons_of_mem n hm)]
    exact ((List.pairwise_cons.1 hsorted).1 m hm).1

end Canonical

/-- A diagram lists the nodes with the start state first and the others in increasing order, the
edges in the order of their sources and then of the least symbols that lead along them, the labels
of an edge by their least symbols and the symbols of a label one after the other. There is one node
for a state, one edge for two states where a cell leads from one to the other, and one label for an
instruction; so labels of one edge are alike only on a loop, where one leaves the target out. No
other diagram is like this. -/
theorem ofSpec_has_canonical_form (s : Specification) :
    Canonical s (ofSpec s) ∧ (∀ d, Canonical s d → d = ofSpec s) ∧
      (s.startState ∈ s.table.keys → ∃ n ns, (ofSpec s).nodes = n :: ns ∧
        n.name = s.startState ∧ n.start = true ∧ ∀ m ∈ ns, m.start = false) :=
  ⟨canonical_ofSpec s, fun _ h => h.unique (canonical_ofSpec s), (canonical_ofSpec s).start_first⟩

/-- A loop with two labels that are alike: `'0'` and `'2'` leave the target out, `'1'` has it. -/
theorem ofSpec_of_loop_alike :
    let s : Specification := ⟨' ', "B", .ofList [("A", none), ("B", some (.ofList
      [('0', .move .right), ('1', ⟨none, .right, some "B"⟩), ('2', .move .right)]))], []⟩
    let e : Edge := ⟨"B", "B", [⟨['0', '2'], none, .right⟩, ⟨['1'], none, .right⟩]⟩
    s.startState ∈ s.table.keys ∧ e ∈ (ofSpec s).edges ∧
      (∃ n ns, (ofSpec s).nodes = n :: ns ∧ n.name = "B" ∧ n.start = true ∧
        ∀ m ∈ ns, m.start = false) ∧
      Label.StayAlike ⟨['0', '2'], none, .right⟩ ⟨['1'], none, .right⟩ s "B" := by
  intro s e
  obtain ⟨hform, -, hstart⟩ := ofSpec_has_canonical_form s
  have hs : s.startState ∈ s.table.keys := by decide
  have he : e ∈ (ofSpec s).edges := by decide
  refine ⟨hs, he, hstart hs, ?_⟩
  have halike := (List.pairwise_cons.1 (hform.alike e he)).1 _ List.mem_cons_self
  obtain ⟨-, h | h⟩ := halike rfl rfl
  · exact h
  · exact absurd ((h.1.symbols '1').1 (by decide)) (by decide)

end Diagram

end TuringTable
