import Mathlib.Data.List.Induction
import Mathlib.Data.List.Nodup
import Mathlib.Data.List.Perm.Basic
import TuringTable.Diagram

/-!
# The edges of a diagram

Grouping loses nothing: what the groups hold, under their keys, is what the list holds
(`groupBy_flatMap_perm`), and each key has one group (`nodup_keys_groupBy`). Twice used, that gives
the edges: the arrows of a row hold its cells (`arrows_flatMap_perm`), the edges of a diagram the
cells of its table (`cells_ofSpec_perm`), and no two edges have the same ends
(`nodup_ends_ofSpec`).
-/

namespace TuringTable

section groupBy
variable {α κ : Type} [DecidableEq κ]

theorem groupBy_concat (key : α → κ) (as : List α) (a : α) :
    groupBy key (as ++ [a]) = addToGroup key a (groupBy key as) := by
  rw [groupBy, List.foldl_append]
  rfl

theorem addToGroup_flatMap_perm {β : Type} (key : α → κ) (f : κ → α → List β) (a : α)
    (gs : List (κ × List α)) :
    ((addToGroup key a gs).flatMap fun g => g.2.flatMap (f g.1)).Perm
      ((gs.flatMap fun g => g.2.flatMap (f g.1)) ++ f (key a) a) := by
  induction gs with
  | nil => simp [addToGroup]
  | cons g gs ih =>
    rw [addToGroup, List.flatMap_cons, List.append_assoc]
    split
    · rename_i hk
      rw [List.flatMap_cons, List.flatMap_append, List.flatMap_singleton, List.append_assoc, hk]
      -- the item stands behind its group, before the items of the groups that follow
      exact .append_left _ List.perm_append_comm
    · rw [List.flatMap_cons]
      exact .append_left _ ih

theorem groupBy_flatMap_perm {β : Type} (key : α → κ) (f : κ → α → List β) (as : List α) :
    ((groupBy key as).flatMap fun g => g.2.flatMap (f g.1)).Perm
      (as.flatMap fun a => f (key a) a) := by
  induction as using List.reverseRecOn with
  | nil => exact .nil
  | append_singleton as a ih =>
    rw [groupBy_concat, List.flatMap_append, List.flatMap_singleton]
    exact (addToGroup_flatMap_perm key f a _).trans (ih.append_right _)

theorem keys_addToGroup (key : α → κ) (a : α) (gs : List (κ × List α)) :
    (addToGroup key a gs).map (·.1) =
      if key a ∈ gs.map (·.1) then gs.map (·.1) else gs.map (·.1) ++ [key a] := by
  induction gs with
  | nil => rfl
  | cons g gs ih =>
    rw [addToGroup]
    by_cases hk : g.1 = key a
    · simp [hk]
    · rw [if_neg hk, List.map_cons, ih]
      simp only [List.map_cons, List.mem_cons, Ne.symm hk, false_or]
      split <;> rfl

theorem nodup_keys_groupBy (key : α → κ) (as : List α) :
    ((groupBy key as).map (·.1)).Nodup := by
  induction as using List.reverseRecOn with
  | nil => exact .nil
  | append_singleton as a ih =>
    rw [groupBy_concat, keys_addToGroup]
    split
    · exact ih
    · rename_i hk
      rw [← List.concat_eq_append]
      exact .concat hk ih

theorem mem_keys_groupBy {key : α → κ} {as : List α} {k : κ} :
    k ∈ (groupBy key as).map (·.1) ↔ k ∈ as.map key := by
  induction as using List.reverseRecOn with
  | nil => rfl
  | append_singleton as a ih =>
    rw [groupBy_concat, keys_addToGroup, List.map_append, List.mem_append, ← ih,
      List.map_singleton, List.mem_singleton]
    split
    · rename_i ha
      exact ⟨.inl, fun h => h.elim id fun h => h ▸ ha⟩
    · rw [List.mem_append, List.mem_singleton]

end groupBy

/-- What is listed under one key. -/
theorem filter_flatMap_key {α β κ : Type} [DecidableEq κ] (key : α → κ) (f : α → List β) (k : κ)
    (as : List α) :
    ((as.flatMap fun a => (f a).map fun b => (key a, b)).filter (·.1 = k)).map (·.2) =
      (as.filter (key · = k)).flatMap f := by
  induction as with
  | nil => rfl
  | cons a as ih =>
    rw [List.flatMap_cons, List.filter_append, List.map_append, ih, List.filter_map]
    by_cases hk : key a = k
    · simp [hk, Function.comp_def]
    · simp [hk, Function.comp_def]

/-! ### Targets written out -/

/-- The instruction with its target written out. -/
def Instruction.explicit (q : String) (i : Instruction) : Instruction :=
  i.withNextState (i.target q)

def Row.explicit (q : String) (row : Row) : Row := row.map fun _ i => i.explicit q

namespace Table

def explicit (t : Table) : Table := t.map fun q row? => row?.map (Row.explicit q)

theorem get?_explicit (t : Table) (q : String) :
    t.explicit.get? q = (t.get? q).map (Option.map (Row.explicit q)) :=
  SortedMap.get?_map ..

theorem cells_explicit (t : Table) :
    t.explicit.cells = t.cells.map fun x => (x.1, x.2.1, x.2.2.explicit x.1) := by
  show (t.entries.map _).flatMap _ = _
  rw [cells, List.flatMap_map, List.map_flatMap]
  refine List.flatMap_congr ?_
  rintro ⟨q, _ | row⟩ -
  · rfl
  · show (row.entries.map _).map _ = (row.entries.map _).map _
    rw [List.map_map, List.map_map]
    rfl

theorem filter_cells (t : Table) {q : String} {row : Row} (h : t.get? q = some (some row)) :
    (t.cells.filter (·.1 = q)).map (·.2) = row.entries := by
  have hq := SortedMap.filter_key_of_nodup t.nodup_keys (t.get?_eq_some_iff_mem.1 h)
  refine (filter_flatMap_key (·.1) (fun e => e.2.elim [] (·.entries)) q t.entries).trans ?_
  rw [hq]
  exact List.flatMap_singleton ..

end Table

namespace Diagram

/-- The symbols of a label, each with the instruction that the label stands for. -/
def Label.cells (target : String) (l : Label) : List (Char × Instruction) :=
  l.symbols.map fun c => (c, ⟨l.write, l.direction, some target⟩)

def Edge.cells (e : Edge) : List (Char × Instruction) := e.labels.flatMap (Label.cells e.target)

def cells (d : Diagram) : List (String × Char × Instruction) :=
  d.edges.flatMap fun e => e.cells.map fun p => (e.source, p)

def Arrow.cells (a : Arrow) : List (String × Char × Instruction) :=
  (a.label.cells a.target).map fun p => (a.source, p)

theorem arrows_flatMap_perm (q : String) (row : Row) :
    ((arrows q row).flatMap Arrow.cells).Perm
      (row.entries.map fun p => (q, p.1, p.2.explicit q)) := by
  -- what a cell says once its target and its instruction are known
  let say (k : String × Instruction) (p : Char × Instruction) : List (String × Char × Instruction) :=
    [(q, p.1, ⟨k.2.write, k.2.direction, some k.1⟩)]
  have harrows : (arrows q row).flatMap Arrow.cells =
      (groupBy (fun p => (p.2.target q, p.2)) row.entries).flatMap fun g =>
        g.2.flatMap (say g.1) := by
    rw [arrows, List.flatMap_map]
    refine List.flatMap_congr fun g _ => ?_
    rw [Arrow.cells, Label.cells, List.map_map, List.map_map]
    exact List.map_eq_flatMap ..
  have hcells : (row.entries.flatMap fun p => say (p.2.target q, p.2) p) =
      row.entries.map fun p => (q, p.1, p.2.explicit q) := (List.map_eq_flatMap ..).symm
  rw [harrows, ← hcells]
  exact groupBy_flatMap_perm _ say _

theorem edgesOf_flatMap_perm (as : List Arrow) :
    ((edgesOf as).flatMap fun e => e.cells.map fun p => (e.source, p)).Perm
      (as.flatMap Arrow.cells) := by
  let say (k : String × String) (a : Arrow) : List (String × Char × Instruction) :=
    (a.label.cells k.2).map fun p => (k.1, p)
  have hedges : ((edgesOf as).flatMap fun e => e.cells.map fun p => (e.source, p)) =
      (groupBy Arrow.ends as).flatMap fun g => g.2.flatMap (say g.1) := by
    rw [edgesOf, List.flatMap_map]
    refine List.flatMap_congr fun g _ => ?_
    rw [Edge.cells, List.flatMap_map, List.map_flatMap]
  rw [hedges]
  exact groupBy_flatMap_perm Arrow.ends say as

/-! ### The whole diagram -/

variable (s : Specification)

theorem perm_startFirst : (startFirst s).Perm s.table.entries := by
  simpa [startFirst] using
    List.filter_append_perm (fun e => decide (e.1 = s.startState)) s.table.entries

theorem perm_names_ofSpec : ((ofSpec s).nodes.map (·.name)).Perm s.table.keys := by
  rw [ofSpec, List.map_map]
  exact (perm_startFirst s).map _

theorem nodup_names_ofSpec : ((ofSpec s).nodes.map (·.name)).Nodup :=
  (perm_names_ofSpec s).nodup_iff.2 s.table.nodup_keys

theorem cells_ofSpec_perm : (ofSpec s).cells.Perm s.table.explicit.cells := by
  have hentry (x : String × Option Row) :
      ((x.2.elim [] (arrows x.1)).flatMap Arrow.cells).Perm
        (((x.2.elim [] (·.entries)).map fun p => (x.1, p)).map
          fun x => (x.1, x.2.1, x.2.2.explicit x.1)) := by
    rw [List.map_map]
    obtain ⟨q, _ | row⟩ := x
    · exact .nil
    · exact arrows_flatMap_perm q row
  refine (edgesOf_flatMap_perm _).trans ?_
  rw [Table.cells_explicit, Table.cells, List.map_flatMap, List.flatMap_assoc]
  exact (perm_startFirst s).flatMap fun x _ => hentry x

-- two symbols share a label, and the target that is left out is the state itself
example :
    let s : Specification := ⟨' ', "A", .ofList [("A", some (.ofList
      [('0', .move .right), ('1', .move .right), ('_', ⟨some '0', .left, some "B"⟩)])),
      ("B", none)], []⟩
    (ofSpec s).edges =
      [⟨"A", "A", [⟨['0', '1'], none, .right⟩]⟩, ⟨"A", "B", [⟨['_'], some '0', .left⟩]⟩] := by
  decide

theorem nodup_ends_ofSpec : ((ofSpec s).edges.map fun e => (e.source, e.target)).Nodup := by
  show ((edgesOf _).map _).Nodup
  rw [edgesOf, List.map_map]
  exact nodup_keys_groupBy Arrow.ends _

/-- If no two edges have the same ends, an edge is found by its ends. -/
theorem edge?_of_nodup {d : Diagram} (hd : (d.edges.map fun e => (e.source, e.target)).Nodup)
    {e : Edge} (h : e ∈ d.edges) : d.edge? e.source e.target = some e := by
  rw [edge?]
  cases hf : d.edges.find? fun e' => e'.source == e.source && e'.target == e.target with
  | none =>
    have := List.find?_eq_none.1 hf e h
    simp at this
  | some e' =>
    have hends : e'.source = e.source ∧ e'.target = e.target := by
      simpa using List.find?_some hf
    have hinj := List.inj_on_of_nodup_map hd (List.mem_of_find?_eq_some hf) h
    rw [hinj (Prod.ext_iff.2 hends)]

theorem edge?_of_mem {e : Edge} (h : e ∈ (ofSpec s).edges) :
    (ofSpec s).edge? e.source e.target = some e :=
  edge?_of_nodup (nodup_ends_ofSpec s) h

end Diagram

end TuringTable
