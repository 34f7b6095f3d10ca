import TuringTable.Proofs.Diagram.Edges

/-!
# Groups in order

A group holds the items with its key in the order of the list (`mem_groupBy_iff`), and of two groups
the earlier one has an item that comes before all of the later one (`pairwise_groupBy`).
-/

namespace TuringTable

section groupBy
variable {α κ : Type} [DecidableEq κ] {key : α → κ} {a : α} {gs : List (κ × List α)}

/-- What the groups are once an item was added: a new one, that of the key, or another one. -/
theorem forall_mem_addToGroup {P : κ × List α → Prop} (hd : (gs.map (·.1)).Nodup)
    (hnew : key a ∉ gs.map (·.1) → P (key a, [a]))
    (hown : ∀ g ∈ gs, g.1 = key a → P (g.1, g.2 ++ [a]))
    (hother : ∀ g ∈ gs, g.1 ≠ key a → P g) : ∀ g ∈ addToGroup key a gs, P g := by
  induction gs with
  | nil => exact List.forall_mem_singleton.2 (hnew (by simp))
  | cons g gs ih =>
    obtain ⟨hg, hd⟩ := List.nodup_cons.1 hd
    obtain ⟨hown, howns⟩ := List.forall_mem_cons.1 hown
    obtain ⟨hother, hothers⟩ := List.forall_mem_cons.1 hother
    rw [addToGroup]
    split
    · rename_i hk
      refine List.forall_mem_cons.2 ⟨hown hk, fun g' hg' => hothers g' hg' fun hk' => ?_⟩
      exact hg (List.mem_map.2 ⟨g', hg', hk'.trans hk.symm⟩)
    · rename_i hk
      refine List.forall_mem_cons.2 ⟨hother hk, ih hd (fun hn => hnew ?_) howns hothers⟩
      rw [List.map_cons, List.mem_cons, not_or]
      exact ⟨Ne.symm hk, hn⟩

theorem eq_filter_of_mem_groupBy {as : List α} :
    ∀ g ∈ groupBy key as, g.2 = as.filter (key · = g.1) := by
  induction as using List.reverseRecOn with
  | nil => exact List.forall_mem_nil _
  | append_singleton as a ih =>
    rw [groupBy_concat]
    refine forall_mem_addToGroup (nodup_keys_groupBy key as) (fun hn => ?_) (fun g hg hk => ?_)
      fun g hg hk => ?_
    · have hnil : as.filter (key · = key a) = [] := by
        rw [List.filter_eq_nil_iff]
        intro b hb hk
        exact hn (mem_keys_groupBy.2 (List.mem_map.2 ⟨b, hb, of_decide_eq_true hk⟩))
      simp [List.filter_append, hnil]
    · rw [List.filter_append, ← ih g hg]
      simp [hk]
    · rw [List.filter_append, ← ih g hg]
      simp [Ne.symm hk]

theorem mem_groupBy_iff {as : List α} {k : κ} {g : List α} :
    (k, g) ∈ groupBy key as ↔ k ∈ as.map key ∧ g = as.filter (key · = k) := by
  constructor
  · intro h
    exact ⟨mem_keys_groupBy.1 (List.mem_map_of_mem h), eq_filter_of_mem_groupBy (k, g) h⟩
  · rintro ⟨hk, rfl⟩
    obtain ⟨g, hg, rfl⟩ := List.mem_map.1 (mem_keys_groupBy.2 hk)
    exact eq_filter_of_mem_groupBy g hg ▸ hg

/-- One group has an item that comes before all items of the other. -/
def GroupBefore (R : α → α → Prop) (g h : κ × List α) : Prop := ∃ a ∈ g.2, ∀ b ∈ h.2, R a b

theorem pairwise_addToGroup {R : α → α → Prop} (hd : (gs.map (·.1)).Nodup)
    (hne : ∀ g ∈ gs, g.2 ≠ []) (ha : ∀ g ∈ gs, ∀ b ∈ g.2, R b a) (h : gs.Pairwise (GroupBefore R)) :
    (addToGroup key a gs).Pairwise (GroupBefore R) := by
  induction gs with
  | nil => exact List.pairwise_singleton _ _
  | cons g gs ih =>
    obtain ⟨hg, h⟩ := List.pairwise_cons.1 h
    obtain ⟨-, hd⟩ := List.nodup_cons.1 hd
    obtain ⟨hne, hnes⟩ := List.forall_mem_cons.1 hne
    obtain ⟨ha, has⟩ := List.forall_mem_cons.1 ha
    rw [addToGroup]
    split
    · -- the group that the item is put in keeps the item that comes before the others
      refine List.pairwise_cons.2 ⟨fun g' hg' => ?_, h⟩
      obtain ⟨b, hb, hbg⟩ := hg g' hg'
      exact ⟨b, List.mem_append_left _ hb, hbg⟩
    · refine List.pairwise_cons.2 ⟨?_, ih hd hnes has h⟩
      refine forall_mem_addToGroup hd (fun _ => ?_) (fun g' hg' _ => ?_) fun g' hg' _ => hg g' hg'
      · obtain ⟨b, hb⟩ := List.exists_mem_of_ne_nil g.2 hne
        exact ⟨b, hb, List.forall_mem_singleton.2 (ha b hb)⟩
      · obtain ⟨b, hb, hbg⟩ := hg g' hg'
        refine ⟨b, hb, List.forall_mem_append.2 ⟨hbg, List.forall_mem_singleton.2 (ha b hb)⟩⟩

theorem ne_nil_of_mem_groupBy {as : List α} : ∀ g ∈ groupBy key as, g.2 ≠ [] := by
  rintro ⟨k, g⟩ hg hnil
  obtain ⟨hk, rfl⟩ := mem_groupBy_iff.1 hg
  obtain ⟨a, ha, rfl⟩ := List.mem_map.1 hk
  exact List.filter_eq_nil_iff.1 hnil a ha (by simp)

/-- Groups are in the order of their first items. -/
theorem pairwise_groupBy {R : α → α → Prop} {as : List α} (h : as.Pairwise R) :
    (groupBy key as).Pairwise (GroupBefore R) := by
  induction as using List.reverseRecOn with
  | nil => exact .nil
  | append_singleton as a ih =>
    obtain ⟨has, -, ha⟩ := List.pairwise_append.1 h
    rw [groupBy_concat]
    refine pairwise_addToGroup (nodup_keys_groupBy key as) ne_nil_of_mem_groupBy ?_ (ih has)
    intro g hg b hb
    rw [eq_filter_of_mem_groupBy g hg] at hb
    exact ha b (List.mem_of_mem_filter hb) a List.mem_cons_self

end groupBy

end TuringTable
