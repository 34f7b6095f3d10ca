import TuringTable.Proofs.Document.Canonical
import TuringTable.Proofs.Document.FirstFault

/-!
# The symbols of a key

A comma separates the symbols of a text and is a symbol itself, so not every list of symbols can be
written as one text. `Splits` says which parts a text has, and the first part that is no symbol is
what the text is refused for (`symbolsOfText_eq_error_iff`). A comma among symbols that commas join
leaves two empty parts (`splits_intersperse`); a sequence has no such trouble
(`keys_expand_by_grammar`).
-/

namespace TuringTable.Document

open Yaml (Value)

/-- The text is the parts with a comma between each two, and no part holds a comma. -/
structure Splits (cs : List Char) (parts : List (List Char)) : Prop where
  ne_nil : parts ≠ []
  bare : ∀ p ∈ parts, ',' ∉ p
  joined : cs = [','].intercalate parts

theorem splits_iff {cs : List Char} {parts : List (List Char)} :
    Splits cs parts ↔ splitCommas cs = parts := by
  rw [splitCommas_eq_iff]
  exact ⟨fun h => ⟨h.ne_nil, h.bare, h.joined⟩, fun h => ⟨h.1, h.2.1, h.2.2⟩⟩

theorem Splits.unique {cs : List Char} {ps qs : List (List Char)} (hp : Splits cs ps)
    (hq : Splits cs qs) : ps = qs :=
  (splits_iff.1 hp).symm.trans (splits_iff.1 hq)

theorem symbolsOfText_eq_error_iff {s : String} {e : SpecError} :
    symbolsOfText s = .error e ↔ s.toList.length ≠ 1 ∧ ∃ before p after,
      Splits s.toList (before ++ p :: after) ∧ (∀ q ∈ before, q.length = 1) ∧ p.length ≠ 1 ∧
        e = .of (.invalidSymbol (.ofList p)) := by
  rw [← error?_eq_some_iff, finds_symbolsOfText]
  by_cases hs : s.toList.length = 1
  · simp [hs]
  · rw [if_neg hs, List.map_map, List.head?_map, List.head?_filter, Option.map_eq_some_iff,
      and_iff_right hs]
    simp only [List.find?_eq_some_iff_append, splits_iff, splitCommas_eq_splitOn]
    constructor
    · rintro ⟨p, ⟨hp, before, after, hparts, hbefore⟩, rfl⟩
      exact ⟨before, p, after, hparts, by simpa using hbefore, by simpa using hp, rfl⟩
    · rintro ⟨before, p, after, hparts, hbefore, hp, rfl⟩
      exact ⟨p, ⟨by simpa using hp, before, after, hparts, by simpa using hbefore⟩, rfl⟩

/-! ### Symbols joined by commas -/

/-- The parts that come of a symbol between commas. -/
def partsOfSymbol (c : Char) : List (List Char) := if c = ',' then [[], []] else [[c]]

theorem mem_partsOfSymbol {c : Char} {p : List Char} :
    p ∈ partsOfSymbol c ↔ if c = ',' then p = [] else p = [c] := by
  rw [partsOfSymbol]
  split <;> simp

theorem flatMap_partsOfSymbol_ne_nil {cs : List Char} (h : cs ≠ []) :
    cs.flatMap partsOfSymbol ≠ [] := by
  obtain ⟨c, cs, rfl⟩ := List.exists_cons_of_ne_nil h
  rw [List.flatMap_cons, partsOfSymbol]
  split <;> simp

theorem intercalate_partsOfSymbol (c : Char) : [','].intercalate (partsOfSymbol c) = [c] := by
  rw [partsOfSymbol]
  split
  · rename_i hc
    rw [hc]
    rfl
  · rfl

theorem intercalate_partsOfSymbol_append (c : Char) {ps : List (List Char)} (h : ps ≠ []) :
    [','].intercalate (partsOfSymbol c ++ ps) = c :: ',' :: [','].intercalate ps := by
  obtain ⟨p, ps, rfl⟩ := List.exists_cons_of_ne_nil h
  rw [partsOfSymbol]
  split
  · rename_i hc
    simp [hc]
  · simp

theorem intercalate_flatMap_partsOfSymbol :
    ∀ cs : List Char, [','].intercalate (cs.flatMap partsOfSymbol) = cs.intersperse ','
  | [] => rfl
  | [c] => by simpa using intercalate_partsOfSymbol c
  | c :: d :: cs => by
    have hne := flatMap_partsOfSymbol_ne_nil (List.cons_ne_nil d cs)
    rw [List.flatMap_cons, intercalate_partsOfSymbol_append c hne,
      intercalate_flatMap_partsOfSymbol (d :: cs)]
    rfl

theorem splits_intersperse {cs : List Char} (h : cs ≠ []) :
    Splits (cs.intersperse ',') (cs.flatMap partsOfSymbol) := by
  refine ⟨flatMap_partsOfSymbol_ne_nil h, fun p hp => ?_,
    (intercalate_flatMap_partsOfSymbol cs).symm⟩
  obtain ⟨c, -, hp⟩ := List.mem_flatMap.1 hp
  rw [mem_partsOfSymbol] at hp
  split at hp <;> grind

/-- A comma among the symbols leaves an empty part, and no part is too long. -/
theorem symbolsOfText_intersperse_of_mem {cs : List Char} (hl : 2 ≤ cs.length) (hm : ',' ∈ cs) :
    symbolsOfText (.ofList (cs.intersperse ',')) = .error (.of (.invalidSymbol "")) := by
  have hne : cs ≠ [] := List.ne_nil_of_length_pos (by omega)
  have hsplits := splits_intersperse hne
  cases hx : symbolsOfText (.ofList (cs.intersperse ',')) with
  | ok ds =>
    rcases symbolsOfText_iff.1 hx with ⟨c, hc, -⟩ | ⟨hd, hmd, hjoined⟩
    · -- two symbols with a comma between them are no single character
      match cs, hl with
      | a :: b :: cs, _ => simp at hc
    · have hne' : ds ≠ [] := List.ne_nil_of_length_pos (by omega)
      have hds := splits_intersperse hne'
      rw [String.toList_ofList] at hjoined
      have hparts := hsplits.unique (hjoined ▸ hds)
      have hempty : [] ∈ ds.flatMap partsOfSymbol :=
        hparts ▸ List.mem_flatMap.2 ⟨',', hm, mem_partsOfSymbol.2 (by simp)⟩
      obtain ⟨d, hd, hp⟩ := List.mem_flatMap.1 hempty
      rw [mem_partsOfSymbol] at hp
      grind
  | error e =>
    obtain ⟨-, before, p, after, hp, -, hlength, rfl⟩ := symbolsOfText_eq_error_iff.1 hx
    rw [String.toList_ofList] at hp
    have hmem : p ∈ cs.flatMap partsOfSymbol := by simp [hsplits.unique hp]
    obtain ⟨c, -, hc⟩ := List.mem_flatMap.1 hmem
    rw [mem_partsOfSymbol] at hc
    have hempty : p = [] := by grind
    rw [hempty]

theorem readSymbols_sequence (cs : List Char) :
    readSymbols (.sequence (cs.map .symbol)) = .ok cs := by
  refine readSymbolList_iff.2 (List.forall₂_map_left_iff.2 (List.forall₂_same.2 fun c _ => ?_))
  exact symbol_iff.2 (symbol?_symbol c)

/-- A scalar key of one character is that symbol, a comma too. Any other one is read if its text is
two symbols or more joined by commas, none of them a comma, and is otherwise refused for its first
part that is not one character. So a sequence names whatever symbols one likes, and a text does so
if there is no comma among them. -/
theorem keys_expand_by_grammar :
    (∀ key t, Value.text? key = some t →
      (∀ c, t.toList = [c] → readSymbols key = .ok [c]) ∧
      (t.toList.length ≠ 1 →
        (∀ cs, readSymbols key = .ok cs ↔
          2 ≤ cs.length ∧ ',' ∉ cs ∧ t.toList = cs.intersperse ',') ∧
        ∀ e, readSymbols key = .error e ↔ ∃ before p after,
          Splits t.toList (before ++ p :: after) ∧ (∀ q ∈ before, q.length = 1) ∧ p.length ≠ 1 ∧
            e = .of (.invalidSymbol (.ofList p)))) ∧
      (∀ cs, readSymbols (.sequence (cs.map .symbol)) = .ok cs) ∧
      (∀ cs : List Char, 2 ≤ cs.length →
        readSymbols (.string (.ofList (cs.intersperse ','))) =
          if ',' ∈ cs then .error (.of (.invalidSymbol "")) else .ok cs) ∧
      readSymbols (.sequence []) = .ok [] ∧
      readSymbols (.string "") = .error (.of (.invalidSymbol "")) := by
  refine ⟨fun key t ht => ?_, readSymbols_sequence, fun cs hl => ?_, rfl, rfl⟩
  · rw [readSymbols_of_scalar (Grammar.scalar_iff.2 ht)]
    refine ⟨fun c hc => symbolsOfText_iff.2 (.inl ⟨c, hc, rfl⟩), fun hlength => ⟨fun cs => ?_,
      fun e => ?_⟩⟩
    · rw [symbolsOfText_iff, or_iff_right]
      rintro ⟨c, hc, -⟩
      exact hlength (by simp [hc])
    · rw [symbolsOfText_eq_error_iff, and_iff_right hlength]
  · show symbolsOfText (.ofList (cs.intersperse ',')) = _
    split
    · exact symbolsOfText_intersperse_of_mem hl ‹_›
    · exact symbolsOfText_iff.2 (.inr ⟨hl, ‹_›, String.toList_ofList⟩)

/-- Of two bad parts the first is named, here the second of three, under a tag. The comma is a
symbol of a sequence and not of the text that joins the same symbols. -/
theorem keys_expand_of_bad_parts :
    let key := Value.tagged "key" (.string "a,bc,")
    let cs := [',', 'a']
    key.text? = some "a,bc," ∧ readSymbols key = .error (.of (.invalidSymbol "bc")) ∧
      readSymbols (.sequence (cs.map .symbol)) = .ok cs ∧ 2 ≤ cs.length ∧
      readSymbols (.string (.ofList (cs.intersperse ','))) = .error (.of (.invalidSymbol "")) := by
  intro key cs
  obtain ⟨hscalar, hsequence, hjoined, -, -⟩ := keys_expand_by_grammar
  have hkey := ((hscalar key "a,bc," rfl).2 (by decide)).2 (.of (.invalidSymbol "bc"))
  refine ⟨rfl, hkey.2 ⟨[['a']], ['b', 'c'], [[]], ⟨by simp, by decide, rfl⟩, by decide, by decide,
    rfl⟩, hsequence cs, by decide, hjoined cs (by decide)⟩

end TuringTable.Document
