import Mathlib.Data.List.Basic
import Mathlib.Data.List.Induction
import TuringTable.Proofs.Document.Checked
import TuringTable.Proofs.Document.Grammar

/-!
# Reading follows the grammar

For each part of a document what its reader gives is what the grammar says: `readInstruction_iff`,
`readSymbols_iff`, `readRow_gives`, `readTable_gives` and so on, from the scalars up to the whole
document (`read_gives`).
-/

namespace TuringTable

open Yaml (Value)
open Grammar

namespace Grammar

/-! ### Scalars -/

theorem under_iff {v w : Value} : Under v w ↔ v.untag = w := by
  constructor
  · intro h
    induction h with
    | bare hv => exact Value.untag_of_ne_tagged hv
    | tagged _ ih => rwa [Value.untag_tagged]
  · rintro rfl
    fun_induction Value.untag v with
    | case1 t v ih => exact .tagged ih
    | case2 v hv => exact .bare hv

theorem Under.unique {v w w' : Value} (h : Under v w) (h' : Under v w') : w = w' :=
  (under_iff.1 h).symm.trans (under_iff.1 h')

theorem scalar_iff {v : Value} {s : String} : Scalar v s ↔ v.text? = some s := by
  rw [Value.text?]
  constructor
  · rintro (h | h | h) <;> rw [under_iff.1 h]
  · intro h
    split at h <;> cases h
    · exact .string (under_iff.2 ‹_›)
    · exact .number (under_iff.2 ‹_›)
    · exact .boolean (under_iff.2 ‹_›)

theorem Scalar.unique {v : Value} {s s' : String} (h : Scalar v s) (h' : Scalar v s') : s = s' := by
  rw [scalar_iff] at h h'
  exact Option.some.inj (h.symm.trans h')

theorem not_scalar_null {s : String} : ¬ Scalar .null s := by
  rw [scalar_iff]
  nofun

theorem Scalar.ne_null {v : Value} {s : String} (h : Scalar v s) : v ≠ .null := by
  rintro rfl
  exact not_scalar_null h

/-! ### Fields of the document -/

theorem hasField_cons {es : Entries} {name : String} {k v w : Value} :
    HasField ((k, w) :: es) name v ↔
      k = .string name ∧ w = v ∨ k ≠ .string name ∧ HasField es name v := by
  constructor
  · rintro ⟨before, after, he, hb⟩
    cases before with
    | nil =>
      cases he
      exact .inl ⟨rfl, rfl⟩
    | cons e before =>
      obtain ⟨rfl, rfl⟩ := List.cons.inj he
      exact .inr ⟨hb _ List.mem_cons_self, before, after, rfl,
        fun e he => hb e (List.mem_cons_of_mem _ he)⟩
  · rintro (⟨rfl, rfl⟩ | ⟨hk, before, after, rfl, hb⟩)
    · exact ⟨[], es, rfl, nofun⟩
    · exact ⟨(k, w) :: before, after, rfl, List.forall_mem_cons.2 ⟨hk, hb⟩⟩

theorem lookup_cons_of_ne {es : Entries} {name : String} {k v : Value} (hk : k ≠ .string name) :
    Value.lookup name ((k, v) :: es) = Value.lookup name es := by
  cases k with
  | string s => exact if_neg fun h => hk (congrArg _ h)
  | _ => rfl

theorem lookup_eq_some_iff {es : Entries} {name : String} {v : Value} :
    Value.lookup name es = some v ↔ HasField es name v := by
  induction es with
  | nil =>
    refine ⟨nofun, ?_⟩
    rintro ⟨before, after, he, -⟩
    simp at he
  | cons e es ih =>
    obtain ⟨k, w⟩ := e
    rw [hasField_cons]
    by_cases hk : k = .string name
    · subst hk
      simp [Value.lookup]
    · rw [lookup_cons_of_ne hk, ih]
      simp [hk]

theorem lookup_eq_none_iff {es : Entries} {name : String} :
    Value.lookup name es = none ↔ ∀ e ∈ es, e.1 ≠ .string name := by
  induction es with
  | nil => exact ⟨fun _ => nofun, fun _ => rfl⟩
  | cons e es ih =>
    obtain ⟨k, w⟩ := e
    rw [List.forall_mem_cons]
    by_cases hk : k = .string name
    · subst hk
      simp [Value.lookup]
    · rw [lookup_cons_of_ne hk, ih]
      simp [hk]

theorem HasField.unique {es : Entries} {name : String} {v v' : Value} (h : HasField es name v)
    (h' : HasField es name v') : v = v' := by
  rw [← lookup_eq_some_iff] at h h'
  exact Option.some.inj (h.symm.trans h')

theorem omitted_iff {es : Entries} {name : String} :
    Omitted es name ↔ Value.lookup name es = none ∨ Value.lookup name es = some .null := by
  rw [Omitted, lookup_eq_none_iff, lookup_eq_some_iff]

/-- A field has one value, so one that is omitted has no value but null. -/
theorem Omitted.eq_null {es : Entries} {name : String} {v : Value} (h : Omitted es name)
    (hf : HasField es name v) : v = .null := by
  rcases h with hn | hnull
  · obtain ⟨before, after, rfl, -⟩ := hf
    exact absurd rfl (hn (.string name, v) (by simp))
  · exact hf.unique hnull

theorem Omitted.not_mapping {es ps : Entries} {name : String} {v : Value}
    (h : Omitted es name) (hf : HasField es name v) : ¬ Under v (.mapping ps) := by
  intro hu
  cases h.eq_null hf
  cases under_iff.1 hu

end Grammar

namespace Document

theorem onlyChar?_eq_some_iff {s : String} {c : Char} : onlyChar? s = some c ↔ s.toList = [c] := by
  rw [onlyChar?]
  split <;> simp_all

theorem symbol_iff {v : Value} {c : Char} : IsSymbol v c ↔ symbol? v = some c := by
  simp only [IsSymbol, symbol?, Option.bind_eq_some_iff, scalar_iff, onlyChar?_eq_some_iff]

theorem readSymbolList_iff {defect : Value → Defect} {items : List Value} {cs : List Char} :
    readSymbolList defect items = .ok cs ↔ List.Forall₂ IsSymbol items cs := by
  simp only [readSymbolList, Except.mapM_eq_ok_iff, orFail_eq_ok_iff, ← symbol_iff]

theorem readName_iff {v : Value} {s : String} : readName v = .ok s ↔ Scalar v s := by
  rw [readName, orFail_eq_ok_iff, scalar_iff]

/-- A field that has to be there is read from what stands under it. -/
theorem required_iff {α : Type} {read : Option Value → Except SpecError α} {d : Defect}
    {P : Value → α → Prop} (hnone : read none = fail d) (hnull : read (some .null) = fail d)
    (hsome : ∀ v a, v ≠ .null → (read (some v) = .ok a ↔ P v a)) (hP : ∀ a, ¬ P .null a)
    {es : Entries} {name : String} {a : α} :
    read (Value.lookup name es) = .ok a ↔ ∃ v, HasField es name v ∧ P v a := by
  simp only [← lookup_eq_some_iff]
  constructor
  · intro h
    rcases hl : Value.lookup name es with _ | v
    · rw [hl, hnone] at h
      exact absurd h fail_ne_ok
    · rw [hl] at h
      by_cases hv : v = .null
      · rw [hv, hnull] at h
        exact absurd h fail_ne_ok
      · exact ⟨v, rfl, (hsome v a hv).1 h⟩
  · rintro ⟨v, hl, hv⟩
    rw [hl]
    refine (hsome v a ?_).2 hv
    rintro rfl
    exact hP a hv

theorem readBlank_iff {es : Entries} {c : Char} :
    readBlank (Value.lookup "blank" es) = .ok c ↔ ∃ v, HasField es "blank" v ∧ IsSymbol v c :=
  required_iff rfl rfl (fun v c hv => by
    rw [readBlank.eq_3 v hv, orFail_eq_ok_iff, symbol_iff]) fun _ ⟨_, h, _⟩ => not_scalar_null h

theorem readStartState_iff {es : Entries} {q : String} :
    readStartState (Value.lookup "start state" es) = .ok q ↔
      ∃ v, HasField es "start state" v ∧ Scalar v q :=
  required_iff rfl rfl (fun v q hv => by
    rw [readStartState.eq_3 v hv, orFail_eq_ok_iff, scalar_iff]) fun _ => not_scalar_null

theorem readInput_iff {es : Entries} {cs : List Char} :
    readInput (Value.lookup "input" es) = .ok cs ↔ Input es cs := by
  have homitted (h : Omitted es "input") :
      .ok [] = (.ok cs : Except SpecError (List Char)) ↔ Input es cs := by
    refine ⟨fun hcs => Except.ok.inj hcs ▸ .omitted h, ?_⟩
    rintro (- | ⟨hf, hs⟩ | ⟨hf, hu, -⟩)
    · rfl
    · exact absurd (h.eq_null hf) hs.ne_null
    · cases h.eq_null hf
      cases under_iff.1 hu
  rw [readInput.eq_def]
  split
  · rename_i hl
    exact homitted (omitted_iff.2 (.inl hl))
  · rename_i hl
    exact homitted (omitted_iff.2 (.inr hl))
  · rename_i v hv hl
    have hf : HasField es "input" v := lookup_eq_some_iff.1 hl
    split
    · rename_i items hu
      rw [readSymbolList_iff]
      refine ⟨.list hf (under_iff.2 hu), ?_⟩
      rintro (ho | ⟨hf', hs⟩ | ⟨hf', hu', hcs⟩)
      · exact absurd (ho.eq_null hf) hv
      · cases hf.unique hf'
        rw [scalar_iff, Value.text?, hu] at hs
        cases hs
      · cases hf.unique hf'
        cases hu.symm.trans (under_iff.1 hu')
        exact hcs
    · rename_i hn
      rw [orFail_eq_ok_iff, Value.text?_untag, Option.map_eq_some_iff]
      constructor
      · rintro ⟨s, hs, rfl⟩
        exact .text hf (scalar_iff.2 hs)
      · rintro (ho | ⟨hf', hs⟩ | ⟨hf', hu', -⟩)
        · exact absurd (ho.eq_null hf) hv
        · cases hf.unique hf'
          exact ⟨_, scalar_iff.1 hs, rfl⟩
        · cases hf.unique hf'
          exact absurd (under_iff.1 hu') (hn _)

/-! ### Instructions -/

theorem named_iff {name : String} {key : Value} : Named name key ↔ key.string? = some name := by
  rw [Named, under_iff, Value.string?]
  split <;> simp_all

theorem part_concat {ps : Entries} {name : String} {k v w : Value} :
    Part (ps ++ [(k, w)]) name v ↔ Named name k ∧ w = v ∨ ¬ Named name k ∧ Part ps name v := by
  constructor
  · rintro ⟨before, key, after, hp, hk, ha⟩
    rcases List.eq_nil_or_concat after with rfl | ⟨after, e, rfl⟩
    · obtain ⟨-, he⟩ := List.append_inj' hp rfl
      cases he
      exact .inl ⟨hk, rfl⟩
    · rw [List.concat_eq_append, ← List.cons_append, ← List.append_assoc] at hp
      obtain ⟨rfl, he⟩ := List.append_inj' hp rfl
      cases he
      refine .inr ⟨ha (k, w) (by simp), before, key, after, rfl, hk, fun e he => ?_⟩
      exact ha e (by simp [he])
  · rintro (⟨hk, rfl⟩ | ⟨hk, before, key, after, rfl, hkey, ha⟩)
    · exact ⟨ps, k, [], rfl, hk, nofun⟩
    · refine ⟨before, key, after ++ [(k, w)], by simp, hkey, fun e he => ?_⟩
      rcases List.mem_append.1 he with he | he
      · exact ha e he
      · rwa [List.mem_singleton.1 he]

namespace Parts

theorem left_add (p : Parts) (k v : Value) :
    (p.add k v).left = if k.string? = some "L" then some v else p.left := by
  unfold add
  split <;> simp_all

theorem right_add (p : Parts) (k v : Value) :
    (p.add k v).right = if k.string? = some "R" then some v else p.right := by
  unfold add
  split <;> simp_all

theorem write_add (p : Parts) (k v : Value) :
    (p.add k v).write = if k.string? = some "write" then some v else p.write := by
  unfold add
  split <;> simp_all

theorem ofEntries_concat (ps : Entries) (e : Value × Value) :
    ofEntries (ps ++ [e]) = (ofEntries ps).add e.1 e.2 := by
  rw [ofEntries, List.foldl_append]
  rfl

/-- A part that each entry with the name replaces and every other one leaves is what the last entry
with the name says. -/
theorem part_iff {part : Parts → Option Value} {name : String}
    (hnone : part ⟨none, none, none, none⟩ = none)
    (hadd : ∀ p k v, part (p.add k v) = if k.string? = some name then some v else part p)
    (ps : Entries) :
    (∀ v, part (ofEntries ps) = some v ↔ Part ps name v) ∧
      (part (ofEntries ps) = none ↔ NoPart ps name) := by
  induction ps using List.reverseRecOn with
  | nil =>
    refine ⟨fun v => ⟨fun h => ?_, ?_⟩, fun _ => nofun, fun _ => hnone⟩
    · rw [show ofEntries [] = ⟨none, none, none, none⟩ from rfl, hnone] at h
      cases h
    · rintro ⟨before, key, after, hp, -⟩
      simp at hp
  | append_singleton ps e ih =>
    obtain ⟨k, w⟩ := e
    rw [ofEntries_concat, hadd]
    by_cases hk : Named name k
    · rw [if_pos (named_iff.1 hk)]
      refine ⟨fun v => by simp [part_concat, hk], nofun, fun h => ?_⟩
      exact absurd hk (h (k, w) (by simp))
    · rw [if_neg (mt named_iff.2 hk)]
      refine ⟨fun v => ?_, ?_⟩
      · rw [ih.1, part_concat]
        simp [hk]
      · rw [ih.2]
        simp [NoPart, or_imp, forall_and, hk]

theorem left_iff (ps : Entries) :
    (∀ v, (ofEntries ps).left = some v ↔ Part ps "L" v) ∧
      ((ofEntries ps).left = none ↔ NoPart ps "L") :=
  part_iff rfl left_add ps

theorem right_iff (ps : Entries) :
    (∀ v, (ofEntries ps).right = some v ↔ Part ps "R" v) ∧
      ((ofEntries ps).right = none ↔ NoPart ps "R") :=
  part_iff rfl right_add ps

theorem write_iff (ps : Entries) :
    (∀ v, (ofEntries ps).write = some v ↔ Part ps "write" v) ∧
      ((ofEntries ps).write = none ↔ NoPart ps "write") :=
  part_iff rfl write_add ps

theorem unknown_eq_none_iff (ps : Entries) :
    (ofEntries ps).unknown = none ↔
      ∀ e ∈ ps, Named "L" e.1 ∨ Named "R" e.1 ∨ Named "write" e.1 := by
  induction ps using List.reverseRecOn with
  | nil => exact ⟨fun _ => nofun, fun _ => rfl⟩
  | append_singleton ps e ih =>
    rw [ofEntries_concat, List.forall_mem_append, ← ih, List.forall_mem_singleton]
    simp only [named_iff]
    unfold add
    split <;> simp_all

end Parts

theorem readTarget_iff {v : Value} {q : Option String} : readTarget v = .ok q ↔ Target v q := by
  rw [readTarget]
  constructor
  · intro h
    split at h
    · cases h
      exact .stay (under_iff.2 ‹_›)
    · rw [Except.map_eq_ok_iff] at h
      obtain ⟨s, hs, rfl⟩ := h
      exact .enter (scalar_iff.2 (Value.text?_untag v ▸ orFail_eq_ok_iff.1 hs))
  · rintro (h | h)
    · rw [under_iff.1 h]
    · have ht := scalar_iff.1 h
      split
      · rename_i hn
        rw [Value.text?, hn] at ht
        cases ht
      · rw [Value.text?_untag, ht]
        rfl

theorem readWrite_iff {ps : Entries} {c : Option Char} :
    readWrite (Parts.ofEntries ps).write = .ok c ↔ Written ps c := by
  constructor
  · intro h
    cases hw : (Parts.ofEntries ps).write with
    | none =>
      rw [hw] at h
      cases h
      exact .keep ((Parts.write_iff ps).2.1 hw)
    | some v =>
      simp only [hw, readWrite, Except.map_eq_ok_iff, orFail_eq_ok_iff] at h
      obtain ⟨c, hc, rfl⟩ := h
      exact .symbol (((Parts.write_iff ps).1 v).1 hw) (symbol_iff.2 hc)
  · rintro (h | ⟨h, hc⟩)
    · rw [(Parts.write_iff ps).2.2 h]
      rfl
    · rw [((Parts.write_iff ps).1 _).2 h, readWrite, symbol_iff.1 hc]
      rfl

theorem move_iff {ps : Entries} {d : Direction} {target : Value} :
    (Parts.ofEntries ps).move = .ok (d, target) ↔
      d = .left ∧ Part ps "L" target ∧ NoPart ps "R" ∨
        d = .right ∧ NoPart ps "L" ∧ Part ps "R" target := by
  rw [← (Parts.left_iff ps).1, ← (Parts.left_iff ps).2, ← (Parts.right_iff ps).1,
    ← (Parts.right_iff ps).2, Parts.move]
  rcases (Parts.ofEntries ps).left with _ | l <;> rcases (Parts.ofEntries ps).right with _ | r <;>
    simp [fail, eq_comm]

theorem readParts_iff {ps : Entries} {i : Instruction} :
    readParts (.ofEntries ps) = .ok i ↔ Object ps i := by
  simp only [readParts, bind, Except.bind_eq_ok_iff, Prod.exists, move_iff, readTarget_iff,
    readWrite_iff]
  constructor
  · rintro ⟨d, target, hd, q, hq, c, hc, h⟩
    split at h
    · exact absurd h fail_ne_ok
    · cases h
      exact ⟨⟨target, hq, hd⟩, hc, (Parts.unknown_eq_none_iff ps).1 ‹_›⟩
  · rintro ⟨⟨target, hq, hd⟩, hc, hk⟩
    refine ⟨i.direction, target, hd, i.nextState, hq, i.write, hc, ?_⟩
    rw [(Parts.unknown_eq_none_iff ps).2 hk]
    rfl

/-- The names are kept with the last one first. -/
theorem readInstruction_iff {names : List (String × Instruction)} {v : Value} {i : Instruction} :
    readInstruction names.reverse v = .ok i ↔ Cell names v i := by
  rw [readInstruction]
  constructor
  · intro h
    split at h
    · exact absurd h fail_ne_ok
    · cases h
      exact .plain (.left (under_iff.2 ‹_›))
    · cases h
      exact .plain (.right (under_iff.2 ‹_›))
    · rename_i s hL hR hs
      exact .synonym (under_iff.2 hs) hL hR (orFail_eq_ok_iff.1 h)
    · exact .plain (.object (under_iff.2 ‹_›) (readParts_iff.1 h))
    · exact absurd h fail_ne_ok
  · rintro ((h | h | ⟨h, ho⟩) | ⟨h, hL, hR, hi⟩)
    · rw [under_iff.1 h]
      rfl
    · rw [under_iff.1 h]
      rfl
    · rw [under_iff.1 h]
      exact readParts_iff.2 ho
    · rw [under_iff.1 h]
      simpa using hi

theorem readInstruction_nil_iff {v : Value} {i : Instruction} :
    readInstruction [] v = .ok i ↔ Plain v i := by
  rw [← List.reverse_nil, readInstruction_iff]
  refine ⟨?_, .plain⟩
  rintro (h | ⟨-, -, -, hi⟩)
  · exact h
  · cases hi

/-! ### Symbols of a key -/

theorem splitCommas_eq_splitOn (cs : List Char) : splitCommas cs = cs.splitOn ',' := by
  induction cs with
  | nil => rfl
  | cons c cs ih =>
    obtain ⟨p, ps, hp⟩ := List.exists_cons_of_ne_nil (List.splitOn_ne_nil ',' cs)
    rw [splitCommas, List.foldr_cons, ← splitCommas, ih, List.splitOn_cons_eq_if_modifyHead, hp]
    by_cases hc : c = ','
    · simp [hc]
    · rw [if_neg hc, if_neg (by simpa using hc)]
      rfl

theorem not_mem_of_mem_splitOn {a : Char} {cs p : List Char} (h : p ∈ cs.splitOn a) : a ∉ p := by
  induction cs generalizing p with
  | nil =>
    rw [List.splitOn_nil, List.mem_singleton] at h
    simp [h]
  | cons c cs ih =>
    obtain ⟨q, qs, hq⟩ := List.exists_cons_of_ne_nil (List.splitOn_ne_nil a cs)
    rw [List.splitOn_cons_eq_if_modifyHead] at h
    split at h
    · rcases List.mem_cons.1 h with rfl | h
      · simp
      · exact ih h
    · rename_i hc
      rw [hq, List.modifyHead_cons] at h
      rcases List.mem_cons.1 h with rfl | h
      · have hac : a ≠ c := fun h => hc (by simp [h])
        simp [hac, ih (p := q) (by simp [hq])]
      · exact ih (by simp [hq, h])

theorem intercalate_map_singleton (a : Char) :
    ∀ qs : List Char, [a].intercalate (qs.map ([·])) = qs.intersperse a
  | [] => rfl
  | [_] => rfl
  | q :: r :: qs => by
    have ih := intercalate_map_singleton a (r :: qs)
    simp only [List.intercalate, List.map_cons] at ih ⊢
    simp [ih]

/-- The parts are those between which commas were put, if there is no comma in them. -/
theorem splitCommas_eq_iff {cs : List Char} {parts : List (List Char)} :
    splitCommas cs = parts ↔ parts ≠ [] ∧ (∀ p ∈ parts, ',' ∉ p) ∧ cs = [','].intercalate parts := by
  rw [splitCommas_eq_splitOn]
  constructor
  · rintro rfl
    exact ⟨List.splitOn_ne_nil ',' cs, fun _ => not_mem_of_mem_splitOn,
      (List.intercalate_splitOn ',').symm⟩
  · rintro ⟨hne, hbare, rfl⟩
    exact List.splitOn_intercalate ',' hbare hne

/-- The parts between the commas are single characters if commas were put between these. -/
theorem splitCommas_eq_map_iff {cs qs : List Char} :
    splitCommas cs = qs.map ([·]) ↔ qs ≠ [] ∧ ',' ∉ qs ∧ cs = qs.intersperse ',' := by
  have hbare : (∀ p ∈ qs.map ([·]), ',' ∉ p) ↔ ',' ∉ qs := by
    simp only [List.forall_mem_map, List.mem_singleton, List.forall_mem_ne]
  rw [splitCommas_eq_iff, intercalate_map_singleton, hbare, Ne, List.map_eq_nil_iff]

theorem readPart_iff {part : List Char} {c : Char} : readPart part = .ok c ↔ part = [c] := by
  rw [readPart.eq_def]
  split
  · simp
  · rename_i h
    simp only [fail_ne_ok, false_iff]
    exact h c

theorem mapM_readPart_iff {parts : List (List Char)} {cs : List Char} :
    parts.mapM readPart = .ok cs ↔ parts = cs.map ([·]) := by
  simp only [Except.mapM_eq_ok_iff, readPart_iff]
  rw [← List.forall₂_map_right_iff (R := (· = ·)), List.forall₂_eq_eq_eq]

theorem symbolsOfText_iff {s : String} {cs : List Char} :
    symbolsOfText s = .ok cs ↔
      (∃ c, s.toList = [c] ∧ cs = [c]) ∨
        2 ≤ cs.length ∧ ',' ∉ cs ∧ s.toList = cs.intersperse ',' := by
  rw [symbolsOfText]
  split
  · rename_i c hc
    rw [onlyChar?_eq_some_iff] at hc
    constructor
    · intro h
      cases h
      exact .inl ⟨c, hc, rfl⟩
    · rintro (⟨d, hd, rfl⟩ | ⟨hl, -, hs⟩)
      · cases hc.symm.trans hd
        rfl
      · -- two symbols with a comma between them are no single character
        match cs, hl with
        | a :: b :: cs, _ => simp [hs] at hc
  · rename_i hn
    rw [mapM_readPart_iff, splitCommas_eq_map_iff]
    have hno (c : Char) : s.toList ≠ [c] := fun h => by
      rw [onlyChar?_eq_some_iff.2 h] at hn
      cases hn
    constructor
    · rintro ⟨hne, hm, hs⟩
      match cs, hne with
      | [c], _ => exact absurd hs (hno c)
      | a :: b :: cs, _ => exact .inr ⟨by simp, hm, hs⟩
    · rintro (⟨c, hc, -⟩ | ⟨hl, hm, hs⟩)
      · exact absurd hc (hno c)
      · refine ⟨?_, hm, hs⟩
        rintro rfl
        simp at hl

theorem readSymbols_of_scalar {key : Value} {s : String} (h : Scalar key s) :
    readSymbols key = symbolsOfText s := by
  have ht := scalar_iff.1 h
  rw [readSymbols]
  split
  · rename_i hn
    rw [Value.text?, hn] at ht
    cases ht
  · rw [Value.text?_untag, ht]
    rfl

theorem readSymbols_iff {key : Value} {cs : List Char} : readSymbols key = .ok cs ↔ Key key cs := by
  constructor
  · intro h
    rw [readSymbols] at h
    split at h
    · exact .list (under_iff.2 ‹_›) (readSymbolList_iff.1 h)
    · obtain ⟨s, hs, h⟩ := Except.bind_eq_ok_iff.1 h
      rw [orFail_eq_ok_iff, Value.text?_untag, ← scalar_iff] at hs
      rcases symbolsOfText_iff.1 h with ⟨c, hc, rfl⟩ | ⟨hl, hm, hc⟩
      · exact .single ⟨s, hs, hc⟩
      · exact .joined hs hl hm hc
  · rintro (⟨s, hs, hc⟩ | ⟨hs, hl, hm, hc⟩ | ⟨hu, hc⟩)
    · rw [readSymbols_of_scalar hs, symbolsOfText_iff]
      exact .inl ⟨_, hc, rfl⟩
    · rw [readSymbols_of_scalar hs, symbolsOfText_iff]
      exact .inr ⟨hl, hm, hc⟩
    · rw [readSymbols, under_iff.1 hu]
      exact readSymbolList_iff.2 hc

/-! ### Synonyms -/

theorem entries?_iff {v : Value} {es : Entries} : v.entries? = some es ↔ Under v (.mapping es) := by
  rw [under_iff, Value.entries?]
  split <;> simp_all

theorem addSynonym_gives (acc : Document.Synonyms) (key value : Value) :
    (addSynonym acc key value).Gives fun r =>
      ∃ k : String × Instruction, (Scalar key k.1 ∧ Plain value k.2) ∧ r = k :: acc := by
  refine ((Checked.Gives.ofExcept _).bind fun name => .warnIf
    (((Checked.Gives.ofExcept _).locate _).bind fun i => .pure _)).congr fun r => ?_
  simp only [readName_iff, readInstruction_nil_iff, Prod.exists]
  grind

theorem foldl_cons_eq (names : List (String × Instruction)) (acc : Document.Synonyms) :
    names.foldl (fun acc k => k :: acc) acc = names.reverse ++ acc := by
  induction names generalizing acc with
  | nil => rfl
  | cons k names ih => rw [List.foldl_cons, ih, List.reverse_cons, List.append_assoc,
      List.singleton_append]

theorem readSynonyms_gives (es : Entries) :
    (readSynonyms (Value.lookup "synonyms" es)).Gives fun r =>
      ∃ names, Grammar.Synonyms es names ∧ r = names.reverse := by
  have homitted (h : Omitted es "synonyms") : Checked.Gives (pure []) fun r =>
      ∃ names, Grammar.Synonyms es names ∧ r = names.reverse := by
    refine (Checked.Gives.pure _).congr fun r => ⟨?_, ?_⟩
    · rintro rfl
      exact ⟨[], .omitted h, rfl⟩
    · rintro ⟨names, hn | ⟨hf, hu, -⟩, rfl⟩
      · rfl
      · exact absurd hu (h.not_mapping hf)
  rw [readSynonyms.eq_def]
  split
  · rename_i hl
    exact homitted (omitted_iff.2 (.inl hl))
  · rename_i hl
    exact homitted (omitted_iff.2 (.inr hl))
  · rename_i v hv hl
    have hf : HasField es "synonyms" v := lookup_eq_some_iff.1 hl
    refine ((Checked.Gives.ofExcept _).bind fun ps => .foldlM
      (fun acc e => addSynonym_gives acc e.1 e.2) ps []).congr fun r => ?_
    simp only [orFail_eq_ok_iff, entries?_iff, foldl_cons_eq, List.append_nil]
    constructor
    · rintro ⟨ps, hu, names, hn, rfl⟩
      exact ⟨names, .mapping hf hu hn, rfl⟩
    · rintro ⟨names, ho | ⟨hf', hu, hn⟩, rfl⟩
      · exact absurd (ho.eq_null hf) hv
      · cases hf.unique hf'
        exact ⟨_, hu, _, hn, rfl⟩

/-! ### The table -/

theorem addSymbol_gives (i : Instruction) (row : Row) (c : Char) :
    (addSymbol i row c).Gives fun r => ∃ d, c = d ∧ r = row.insert d i :=
  (Checked.Gives.warnIf (f := fun _ => pure (row.insert c i)) (.pure _)).congr fun r => by simp

theorem addCell_gives (names : List (String × Instruction)) (row : Row) (key value : Value) :
    (addCell names.reverse row key value).Gives fun r =>
      ∃ k : List Char × Instruction, (Key key k.1 ∧ Cell names value k.2) ∧
        r = k.1.foldl (fun row c => row.insert c k.2) row := by
  refine (((Checked.Gives.ofExcept _).locate _).bind fun cs =>
    ((Checked.Gives.ofExcept _).locate _).bind fun i =>
      .foldlM (addSymbol_gives i) cs row).congr fun r => ?_
  simp only [readSymbols_iff, readInstruction_iff, Prod.exists, List.forall₂_eq_eq_eq]
  grind

theorem foldl_insert_eq_ofList (ks : List (List Char × Instruction)) :
    ks.foldl (fun row k => k.1.foldl (fun row c => row.insert c k.2) row) (∅ : Row) =
      .ofList (ks.flatMap fun k => k.1.map (·, k.2)) := by
  simp only [SortedMap.ofList, List.foldl_flatMap, List.foldl_map]

theorem readRow_gives (names : List (String × Instruction)) (cells : Entries) :
    (readRow names.reverse cells).Gives (RowOf names cells) := by
  refine (Checked.Gives.foldlM (fun row e => addCell_gives names row e.1 e.2) cells ∅).congr
    fun r => ?_
  simp only [foldl_insert_eq_ofList, SortedMap.eq_ofList_iff, RowOf]

theorem readEntry_gives (names : List (String × Instruction)) (v : Value) :
    (readEntry names.reverse v).Gives (State names v) := by
  rw [readEntry]
  split
  · rename_i hv
    refine (Checked.Gives.pure _).congr fun r => ⟨?_, ?_⟩
    · rintro rfl
      exact .halting (under_iff.2 hv)
    · rintro (_ | ⟨hu, -⟩)
      · rfl
      · cases hv.symm.trans (under_iff.1 hu)
  · rename_i cells hv
    refine ((readRow_gives names cells).map some).congr fun r => ⟨?_, ?_⟩
    · rintro ⟨row, hr, rfl⟩
      exact .row (under_iff.2 hv) hr
    · rintro (hu | ⟨hu, hr⟩)
      · cases hv.symm.trans (under_iff.1 hu)
      · cases hv.symm.trans (under_iff.1 hu)
        exact ⟨_, hr, rfl⟩
  · rename_i hn hm
    refine (Checked.Gives.ofExcept _).congr fun r => ⟨fun h => absurd h fail_ne_ok, ?_⟩
    rintro (hu | ⟨hu, -⟩)
    · exact absurd (under_iff.1 hu) hn
    · exact absurd (under_iff.1 hu) (hm _)

theorem addState_gives (names : List (String × Instruction)) (table : Table) (key value : Value) :
    (addState names.reverse table key value).Gives fun r =>
      ∃ k : String × Option Row, (Scalar key k.1 ∧ State names value k.2) ∧
        r = table.insert k.1 k.2 := by
  refine ((Checked.Gives.ofExcept _).bind fun q => ((readEntry_gives names value).locate _).bind
    fun entry => .warnIf (c := table.contains q = true)
      (f := fun _ => pure (table.insert q entry)) (.pure _)).congr fun r => ?_
  simp only [readName_iff, Prod.exists]
  grind

theorem readTable_gives (names : List (String × Instruction)) (es : Entries) :
    (readTable names.reverse (Value.lookup "table" es)).Gives (TableOf names es) := by
  have hmissing (h : Omitted es "table") : Checked.Gives
      (Checked.ofExcept (fail .missingTable)) (TableOf names es) := by
    refine (Checked.Gives.ofExcept _).congr fun r => ⟨fun h => absurd h fail_ne_ok, ?_⟩
    rintro ⟨v, ps, ks, hf, hu, -⟩
    exact absurd hu (h.not_mapping hf)
  rw [readTable.eq_def]
  split
  · rename_i hl
    exact hmissing (omitted_iff.2 (.inl hl))
  · rename_i hl
    exact hmissing (omitted_iff.2 (.inr hl))
  · rename_i v hv hl
    have hf : HasField es "table" v := lookup_eq_some_iff.1 hl
    refine ((Checked.Gives.ofExcept _).bind fun ps => .foldlM
      (fun table e => addState_gives names table e.1 e.2) ps ∅).congr fun r => ?_
    simp only [orFail_eq_ok_iff, entries?_iff, ← SortedMap.ofList.eq_def, SortedMap.eq_ofList_iff]
    constructor
    · rintro ⟨ps, hu, ks, hk, hr⟩
      exact ⟨v, ps, ks, hf, hu, hk, hr⟩
    · rintro ⟨v', ps, ks, hf', hu, hk, hr⟩
      cases hf.unique hf'
      exact ⟨ps, hu, ks, hk, hr⟩

/-! ### The document -/

theorem read_gives (document : Value) : (read document).Gives (Describes document) := by
  have htable (es : Entries) (synonyms : Document.Synonyms) :
      (readTable synonyms (Value.lookup "table" es)).Gives (TableOf synonyms.reverse es) := by
    simpa using readTable_gives synonyms.reverse es
  rw [read]
  have h := (Checked.Gives.ofExcept (orFail document.entries? .emptyDocument)).bind fun es =>
    (Checked.Gives.ofExcept (readBlank (Value.lookup "blank" es))).bind fun blank =>
    (Checked.Gives.ofExcept (readStartState (Value.lookup "start state" es))).bind fun start =>
    (Checked.Gives.ofExcept (readInput (Value.lookup "input" es))).bind fun input =>
    (readSynonyms_gives es).bind fun synonyms => (htable es synonyms).bind fun table =>
        .pure (⟨blank, start, table, input⟩ : Specification)
  refine h.congr fun s => ?_
  simp only [orFail_eq_ok_iff, entries?_iff, readBlank_iff, readStartState_iff, readInput_iff]
  constructor
  · rintro ⟨es, hes, blank, hb, start, hq, input, hi, _, ⟨names, hn, rfl⟩, table, ht, rfl⟩
    rw [List.reverse_reverse] at ht
    exact ⟨es, names, hes, hb, hq, hi, hn, ht⟩
  · rintro ⟨es, names, hes, hb, hq, hi, hn, ht⟩
    exact ⟨es, hes, s.blank, hb, s.startState, hq, s.input, hi, _, ⟨names, hn, rfl⟩, s.table,
      by rwa [List.reverse_reverse], rfl⟩

end Document

end TuringTable
