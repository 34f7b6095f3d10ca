import TuringTable.Proofs.Document.Reading

/-!
# Which documents are accepted

A document that has the right form describes a specification, part by part (`exists_describes_iff`).
With what reading gives, `read_iff_grammar` says which documents are read and as what.
-/

namespace TuringTable

open Yaml (Value)
open Grammar

section Forall₂
variable {α β : Type} {R : α → β → Prop} {es : List α} {ks : List β}

theorem exists_mem_of_forall₂ (h : List.Forall₂ R es ks) {e : α} (he : e ∈ es) :
    ∃ k ∈ ks, R e k := by
  induction h with
  | nil => cases he
  | cons hk _ ih =>
    rcases List.mem_cons.1 he with rfl | he
    · exact ⟨_, List.mem_cons_self, hk⟩
    · obtain ⟨k, hks, hek⟩ := ih he
      exact ⟨k, List.mem_cons_of_mem _ hks, hek⟩

theorem exists_forall₂_iff : (∃ ks, List.Forall₂ R es ks) ↔ ∀ e ∈ es, ∃ k, R e k := by
  constructor
  · rintro ⟨ks, h⟩ e he
    obtain ⟨k, -, hk⟩ := exists_mem_of_forall₂ h he
    exact ⟨k, hk⟩
  · intro h
    induction es with
    | nil => exact ⟨[], .nil⟩
    | cons e es ih =>
      obtain ⟨⟨k, hk⟩, hes⟩ := List.forall_mem_cons.1 h
      obtain ⟨ks, hks⟩ := ih hes
      exact ⟨k :: ks, .cons hk hks⟩

end Forall₂

namespace Grammar

variable {es : Entries} {names : List (String × Instruction)}

theorem exists_input_iff :
    (∃ cs, Input es cs) ↔ Omitted es "input" ∨ ∃ v, HasField es "input" v ∧ ((∃ s, Scalar v s) ∨
      ∃ items, Under v (.sequence items) ∧ ∀ x ∈ items, ∃ c, IsSymbol x c) := by
  constructor
  · rintro ⟨cs, h | ⟨hf, hs⟩ | ⟨hf, hu, hcs⟩⟩
    · exact .inl h
    · exact .inr ⟨_, hf, .inl ⟨_, hs⟩⟩
    · exact .inr ⟨_, hf, .inr ⟨_, hu, exists_forall₂_iff.1 ⟨_, hcs⟩⟩⟩
  · rintro (h | ⟨v, hf, ⟨s, hs⟩ | ⟨items, hu, hx⟩⟩)
    · exact ⟨[], .omitted h⟩
    · exact ⟨s.toList, .text hf hs⟩
    · obtain ⟨cs, hcs⟩ := exists_forall₂_iff.2 hx
      exact ⟨cs, .list hf hu hcs⟩

/-! ### Synonyms -/

theorem exists_synonyms_iff :
    (∃ names, Synonyms es names) ↔ Omitted es "synonyms" ∨
      ∃ v ps, HasField es "synonyms" v ∧ Under v (.mapping ps) ∧
        ∀ e ∈ ps, (∃ name, Scalar e.1 name) ∧ ∃ i, Plain e.2 i := by
  constructor
  · rintro ⟨names, h | ⟨hf, hu, hn⟩⟩
    · exact .inl h
    · refine .inr ⟨_, _, hf, hu, fun e he => ?_⟩
      obtain ⟨k, hk, hi⟩ := exists_forall₂_iff.1 ⟨_, hn⟩ e he
      exact ⟨⟨k.1, hk⟩, k.2, hi⟩
  · rintro (h | ⟨v, ps, hf, hu, hp⟩)
    · exact ⟨[], .omitted h⟩
    · have hex : ∀ e ∈ ps, ∃ k : String × Instruction, Scalar e.1 k.1 ∧ Plain e.2 k.2 := by
        intro e he
        obtain ⟨⟨name, hname⟩, i, hi⟩ := hp e he
        exact ⟨(name, i), hname, hi⟩
      obtain ⟨names, hn⟩ := exists_forall₂_iff.2 hex
      exact ⟨names, .mapping hf hu hn⟩

/-- The names of the synonyms are those that can be looked up. -/
theorem Synonyms.isSynonym_iff {name : String} (h : Synonyms es names) :
    IsSynonym es name ↔ ∃ i, names.reverse.lookup name = some i := by
  rw [← Option.isSome_iff_exists, List.lookup_isSome_iff]
  simp only [List.mem_reverse, beq_iff_eq]
  rcases h with ho | ⟨hf, hu, hn⟩
  · refine ⟨?_, nofun⟩
    rintro ⟨v, ps, hf, hu, -⟩
    exact absurd hu (ho.not_mapping hf)
  · constructor
    · rintro ⟨v', ps', hf', hu', e, he, hs⟩
      cases hf.unique hf'
      cases hu.unique hu'
      obtain ⟨k, hk, hek⟩ := exists_mem_of_forall₂ hn he
      exact ⟨k, hk, hs.unique hek.1⟩
    · rintro ⟨k, hk, rfl⟩
      obtain ⟨e, he, hek⟩ := exists_mem_of_forall₂ hn.flip hk
      exact ⟨_, _, hf, hu, e, he, hek.1⟩

/-! ### The table -/

theorem exists_cell_iff (h : Synonyms es names) {v : Value} :
    (∃ i, Cell names v i) ↔
      (∃ i, Plain v i) ∨ ∃ name, Under v (.string name) ∧ IsSynonym es name := by
  constructor
  · rintro ⟨i, hi | ⟨hu, -, -, hi⟩⟩
    · exact .inl ⟨i, hi⟩
    · exact .inr ⟨_, hu, h.isSynonym_iff.2 ⟨i, hi⟩⟩
  · rintro (⟨i, hi⟩ | ⟨name, hu, hn⟩)
    · exact ⟨i, .plain hi⟩
    · obtain ⟨i, hi⟩ := h.isSynonym_iff.1 hn
      -- a synonym with the name of a direction is never asked for
      by_cases hL : name = "L"
      · exact ⟨_, .plain (.left (hL ▸ hu))⟩
      · by_cases hR : name = "R"
        · exact ⟨_, .plain (.right (hR ▸ hu))⟩
        · exact ⟨i, .synonym hu hL hR hi⟩

theorem exists_rowOf_iff {cells : Entries} :
    (∃ row, RowOf names cells row) ↔
      ∀ x ∈ cells, (∃ cs, Key x.1 cs) ∧ ∃ i, Cell names x.2 i := by
  constructor
  · rintro ⟨row, ks, hks, -⟩ x hx
    obtain ⟨k, -, hk, hi⟩ := exists_mem_of_forall₂ hks hx
    exact ⟨⟨k.1, hk⟩, k.2, hi⟩
  · intro h
    have hex : ∀ x ∈ cells, ∃ k : List Char × Instruction, Key x.1 k.1 ∧ Cell names x.2 k.2 := by
      intro x hx
      obtain ⟨⟨cs, hcs⟩, i, hi⟩ := h x hx
      exact ⟨(cs, i), hcs, hi⟩
    obtain ⟨ks, hks⟩ := exists_forall₂_iff.2 hex
    exact ⟨.ofList (ks.flatMap fun k => k.1.map (·, k.2)), ks, hks, fun c => by
      rw [SortedMap.get?_ofList]⟩

theorem exists_state_iff {v : Value} :
    (∃ row, State names v row) ↔ Under v .null ∨ ∃ cells, Under v (.mapping cells) ∧
      ∀ x ∈ cells, (∃ cs, Key x.1 cs) ∧ ∃ i, Cell names x.2 i := by
  constructor
  · rintro ⟨row, hu | ⟨hu, hr⟩⟩
    · exact .inl hu
    · exact .inr ⟨_, hu, exists_rowOf_iff.1 ⟨_, hr⟩⟩
  · rintro (hu | ⟨cells, hu, hc⟩)
    · exact ⟨none, .halting hu⟩
    · obtain ⟨row, hr⟩ := exists_rowOf_iff.2 hc
      exact ⟨some row, .row hu hr⟩

theorem exists_tableOf_iff :
    (∃ table, TableOf names es table) ↔ ∃ v ps, HasField es "table" v ∧ Under v (.mapping ps) ∧
      ∀ e ∈ ps, (∃ q, Scalar e.1 q) ∧ ∃ row, State names e.2 row := by
  constructor
  · rintro ⟨table, v, ps, ks, hf, hu, hks, -⟩
    refine ⟨v, ps, hf, hu, fun e he => ?_⟩
    obtain ⟨k, -, hk, hr⟩ := exists_mem_of_forall₂ hks he
    exact ⟨⟨k.1, hk⟩, k.2, hr⟩
  · rintro ⟨v, ps, hf, hu, hp⟩
    have hex : ∀ e ∈ ps, ∃ k : String × Option Row, Scalar e.1 k.1 ∧ State names e.2 k.2 := by
      intro e he
      obtain ⟨⟨q, hq⟩, row, hr⟩ := hp e he
      exact ⟨(q, row), hq, hr⟩
    obtain ⟨ks, hks⟩ := exists_forall₂_iff.2 hex
    exact ⟨.ofList ks, v, ps, ks, hf, hu, hks, fun q => by rw [SortedMap.get?_ofList]⟩

/-! ### The document -/

theorem exists_describes_iff {document : Value} :
    (∃ s, Describes document s) ↔ Accepted document := by
  constructor
  · rintro ⟨s, es, names, hu, ⟨b, hb, hbc⟩, ⟨q, hq, hqs⟩, hi, hn, ht⟩
    obtain ⟨v, ps, hf, hps, hp⟩ := exists_tableOf_iff.1 ⟨_, ht⟩
    have hb0 : b ≠ .null := hbc.elim fun _ h => h.1.ne_null
    refine ⟨es, hu, ⟨b, _, hb, hb0, hbc⟩, ⟨q, _, hq, hqs.ne_null, hqs⟩, exists_input_iff.1 ⟨_, hi⟩,
      exists_synonyms_iff.1 ⟨_, hn⟩, v, ps, hf, hps, fun e he => ?_⟩
    simpa only [exists_state_iff, exists_cell_iff hn] using hp e he
  · rintro ⟨es, hu, ⟨b, c, hb, -, hbc⟩, ⟨q, start, hq, -, hqs⟩, hi, hn, v, ps, hf, hps, hp⟩
    obtain ⟨input, hi⟩ := exists_input_iff.2 hi
    obtain ⟨names, hn⟩ := exists_synonyms_iff.2 hn
    have ht : ∃ table, TableOf names es table := by
      refine exists_tableOf_iff.2 ⟨v, ps, hf, hps, fun e he => ?_⟩
      simpa only [exists_state_iff, exists_cell_iff hn] using hp e he
    obtain ⟨table, ht⟩ := ht
    exact ⟨⟨c, start, table, input⟩, es, names, hu, ⟨b, hb, hbc⟩, ⟨q, hq, hqs⟩, hi, hn, ht⟩

end Grammar

/-- A document is read if it has the right form, and what it is read as is what it describes. -/
theorem Document.read_iff_grammar (document : Value) :
    ((∃ s, ((read document).run []).1 = .ok s) ↔ Accepted document) ∧
      ∀ s, ((read document).run []).1 = .ok s ↔ Describes document s := by
  have h := read_gives document []
  simp only [h, exists_describes_iff, implies_true, and_self]

end TuringTable
