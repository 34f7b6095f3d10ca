import TuringTable.Proofs.Closed
import TuringTable.Proofs.Document.Acceptance
import TuringTable.Proofs.Document.Faults

/-!
# Reading stops at the first fault

A reader `Fails` with a list of faults if it fails with the first of them, and succeeds if there is
none. There is a rule for each way in which readings are put together, as for `Gives`: of a sequence
the faults of the first part come first, and a loop has the faults of its entries one after the
other. A place is given from the inside out while the error is on its way, and comes to the place
that the fault has in the list. So a document is refused for the first of its faults
(`fails_read`, `fails_with_first_fault`).
-/

namespace TuringTable

open Yaml (Value)

variable {α β γ : Type}

/-- What a reading failed with. -/
def error? : Except SpecError α → Option SpecError
  | .error e => some e
  | .ok _ => none

theorem error?_eq_some_iff {x : Except SpecError α} {e : SpecError} :
    error? x = some e ↔ x = .error e := by
  cases x <;> simp [error?]

theorem error?_eq_none_iff {x : Except SpecError α} : error? x = none ↔ ∃ a, x = .ok a := by
  cases x <;> simp [error?]

/-! ### Readings without warnings -/

namespace Document

/-- `x` fails with the first of the defects, at no place, and succeeds if there is none. -/
def Finds (x : Except SpecError α) (ds : List Defect) : Prop := error? x = (ds.map .of).head?

namespace Finds

theorem ok (a : α) : Finds (.ok a) [] := rfl

theorem fail (d : Defect) : Finds (fail d : Except SpecError α) [d] := rfl

theorem orFail (x : Option α) (d : Defect) : Finds (orFail x d) (absent x d) := by
  cases x <;> rfl

theorem map (f : α → β) {x : Except SpecError α} {ds : List Defect} (h : Finds x ds) :
    Finds (x.map f) ds := by
  cases x <;> exact h

theorem bind {x : Except SpecError α} {f : α → Except SpecError β} {ds es : List Defect}
    (hx : Finds x ds) (hf : ∀ a, x = .ok a → Finds (f a) es) : Finds (x.bind f) (ds ++ es) := by
  rw [Finds] at hx ⊢
  rw [List.map_append, List.head?_append, ← hx]
  cases x with
  | error e => rfl
  | ok a => exact hf a rfl

/-- Of a list the first bad item counts. -/
theorem mapM {f : α → Except SpecError β} {g : α → List Defect} (h : ∀ x, Finds (f x) (g x))
    (xs : List α) : Finds (xs.mapM f) (xs.flatMap g) := by
  induction xs with
  | nil => rfl
  | cons x xs ih =>
    rw [List.mapM_cons, List.flatMap_cons]
    refine (h x).bind fun y _ => ?_
    have hrest := ih.bind fun ys _ => ok (y :: ys)
    rwa [List.append_nil] at hrest

end Finds

end Document

/-! ### Readings with warnings -/

namespace Checked

/-- `x` fails with the first of the faults and succeeds if there is none, whatever was warned of
before. -/
def Fails (x : Checked α) (fs : List SpecError) : Prop := ∀ ws, error? (x.run ws).1 = fs.head?

namespace Fails
variable {x : Checked α} {fs gs : List SpecError}

theorem pure (a : α) : Fails (Pure.pure a : Checked α) [] := fun _ => rfl

theorem ofExcept {x : Except SpecError α} {ds : List Defect} (h : Document.Finds x ds) :
    Fails (Checked.ofExcept x) (ds.map .of) := fun _ => h

theorem locate (f : SpecError → SpecError) (h : x.Fails fs) : (x.locate f).Fails (fs.map f) := by
  intro ws
  have hw := h ws
  show error? (match x.run ws with | (r, ws) => (r.mapError f, ws)).1 = _
  rw [List.head?_map, ← hw]
  rcases x.run ws with ⟨e | a, ws'⟩ <;> rfl

/-- Only what the first part gives goes into the second. -/
theorem bind {f : α → Checked β} (hx : x.Fails fs)
    (hf : ∀ a, (∃ ws, (x.run ws).1 = .ok a) → (f a).Fails gs) : (x >>= f).Fails (fs ++ gs) := by
  intro ws
  have hw := hx ws
  rw [run_bind, List.head?_append, ← hw]
  rcases hr : x.run ws with ⟨e | a, ws'⟩
  · rfl
  · exact hf a ⟨ws, by rw [hr]⟩ ws'

/-- What cannot fail adds no fault. -/
theorem bind_nil {f : α → Checked β} (hx : x.Fails fs) (hf : ∀ a, (f a).Fails []) :
    (x >>= f).Fails fs := by
  have h := hx.bind fun a _ => hf a
  rwa [List.append_nil] at h

theorem warnIf {c : Prop} [Decidable c] {w : Warning} {f : Unit → Checked α}
    (h : (f ()).Fails fs) : (if c then Checked.warn w >>= f else f ()).Fails fs := by
  split
  · have hwarn : (Checked.warn w).Fails [] := fun _ => rfl
    exact hwarn.bind fun _ _ => h
  · exact h

theorem map (f : α → β) (h : x.Fails fs) : (f <$> x).Fails fs := by
  rw [map_eq_pure_bind]
  exact h.bind_nil fun a => pure (f a)

/-- Without the part that is wanted there is one fault, and with it those of the rest. -/
theorem orFail_bind {a? : Option α} {d : Defect} {f : α → Checked β} {rest : α → List SpecError}
    (h : ∀ a, a? = some a → (f a).Fails (rest a)) :
    (Checked.ofExcept (Document.orFail a? d) >>= f).Fails (a?.elim [.of d] rest) := by
  cases a? with
  | none => exact fun _ => rfl
  | some a => exact h a rfl

theorem foldlM {turn : β → α → Checked β} {fault : α → List SpecError}
    (h : ∀ acc e, (turn acc e).Fails (fault e)) (es : List α) (acc : β) :
    (es.foldlM turn acc).Fails (es.flatMap fault) := by
  induction es generalizing acc with
  | nil => exact pure acc
  | cons e es ih =>
    rw [List.foldlM_cons, List.flatMap_cons]
    exact (h acc e).bind fun acc' _ => ih acc'

end Fails

end Checked

namespace Document

/-! ### Instructions -/

section Parts
variable {ps : List (Value × Value)}

theorem part?_concat (name : String) (k v : Value) :
    part? (ps ++ [(k, v)]) name = if k.string? = some name then some v else part? ps name := by
  rw [part?, part?, List.reverse_append, List.reverse_singleton, List.singleton_append,
    List.find?_cons]
  split <;> simp_all

theorem part_eq_part? {part : Parts → Option Value} {name : String}
    (hnone : part ⟨none, none, none, none⟩ = none)
    (hadd : ∀ p k v, part (p.add k v) = if k.string? = some name then some v else part p)
    (ps : List (Value × Value)) : part (.ofEntries ps) = part? ps name := by
  induction ps using List.reverseRecOn with
  | nil => exact hnone
  | append_singleton ps e ih =>
    obtain ⟨k, v⟩ := e
    rw [Parts.ofEntries_concat, hadd, ih, part?_concat]

theorem left_ofEntries (ps : List (Value × Value)) : (Parts.ofEntries ps).left = part? ps "L" :=
  part_eq_part? rfl Parts.left_add ps

theorem right_ofEntries (ps : List (Value × Value)) : (Parts.ofEntries ps).right = part? ps "R" :=
  part_eq_part? rfl Parts.right_add ps

theorem write_ofEntries (ps : List (Value × Value)) :
    (Parts.ofEntries ps).write = part? ps "write" :=
  part_eq_part? rfl Parts.write_add ps

theorem unknown_add (p : Parts) (k v : Value) :
    (p.add k v).unknown = if isForeign k then some (p.unknown.getD k) else p.unknown := by
  unfold Parts.add
  split <;> simp_all [isForeign]

/-- The key that is told of is the first one that names no part. -/
theorem unknown_ofEntries (ps : List (Value × Value)) :
    (Parts.ofEntries ps).unknown = ((ps.filter fun e => isForeign e.1).head?).map (·.1) := by
  induction ps using List.reverseRecOn with
  | nil => rfl
  | append_singleton ps e ih =>
    obtain ⟨k, v⟩ := e
    rw [Parts.ofEntries_concat, unknown_add, List.filter_append, List.head?_append, ih]
    by_cases hk : isForeign k = true
    · rw [if_pos hk, List.filter_cons_of_pos (by exact hk)]
      cases (ps.filter fun e => isForeign e.1).head? <;> rfl
    · rw [if_neg hk, List.filter_cons_of_neg (by exact hk), List.filter_nil, List.head?_nil,
        Option.or_none]

theorem finds_move (p : Parts) :
    Finds p.move ((if p.left.isSome && p.right.isSome then [.conflictingDirections] else []) ++
      if p.left.isNone && p.right.isNone then [.missingDirection] else []) := by
  obtain ⟨left, right, write, unknown⟩ := p
  cases left <;> cases right <;> rfl

theorem toList_of_move {p : Parts} {m : Direction × Value} (h : p.move = .ok m) :
    p.left.toList ++ p.right.toList = [m.2] := by
  obtain ⟨left, right, write, unknown⟩ := p
  cases left <;> cases right <;> cases h <;> rfl

theorem finds_readTarget (v : Value) : Finds (readTarget v) (targetFaults v) := by
  rw [readTarget, targetFaults, ← v.text?_untag, ← v.typeName_untag]
  cases v.untag with
  | null => exact .ok none
  | _ => exact (Finds.orFail _ _).map some

theorem finds_readWrite (v? : Option Value) :
    Finds (readWrite v?) (v?.toList.flatMap writeFaults) := by
  cases v? with
  | none => exact .ok none
  | some v =>
    rw [Option.toList_some, List.flatMap_singleton]
    exact (Finds.orFail _ _).map some

theorem finds_readParts (ps : List (Value × Value)) :
    Finds (readParts (.ofEntries ps)) (objectFaults ps) := by
  rw [objectFaults, ← left_ofEntries, ← right_ofEntries, ← write_ofEntries, List.append_assoc,
    List.append_assoc]
  refine (finds_move _).bind fun m hm => ?_
  rw [toList_of_move hm, List.flatMap_singleton]
  refine (finds_readTarget m.2).bind fun q _ => (finds_readWrite _).bind fun c _ => ?_
  rw [unknown_ofEntries]
  cases ps.filter fun e => isForeign e.1 <;> rfl

end Parts

/-- Which names the synonyms have decides what is wrong, not what they stand for. -/
theorem finds_readInstruction {synonyms : Synonyms} {names : List String}
    (h : ∀ s, (synonyms.lookup s).isSome ↔ s ∈ names) (v : Value) :
    Finds (readInstruction synonyms v) (instructionFaults names v) := by
  rw [readInstruction, instructionFaults, ← v.typeName_untag]
  cases v.untag with
  | null => exact .fail _
  | mapping ps => exact finds_readParts ps
  | string s =>
    by_cases hL : s = "L"
    · rw [hL]
      exact .ok _
    · by_cases hR : s = "R"
      · rw [hR]
        exact .ok _
      · have hs := Finds.orFail (synonyms.lookup s) (.unrecognizedSynonym s)
        simp only [absent, h] at hs
        simpa only [hL, hR, false_or] using hs
  | _ => exact .fail _

/-! ### Fields -/

theorem finds_readSymbolList (defect : Value → Defect) (items : List Value) :
    Finds (readSymbolList defect items) (items.flatMap fun v => absent (symbol? v) (defect v)) :=
  .mapM (fun _ => .orFail _ _) items

theorem finds_readBlank (v? : Option Value) : Finds (readBlank v?) (blankFaults v?) := by
  rw [readBlank.eq_def]
  split
  · exact .fail _
  · exact .fail _
  · rename_i v hv
    rw [blankFaults.eq_3 v hv]
    exact .orFail _ _

theorem finds_readStartState (v? : Option Value) :
    Finds (readStartState v?) (startStateFaults v?) := by
  rw [readStartState.eq_def]
  split
  · exact .fail _
  · exact .fail _
  · rename_i v hv
    rw [startStateFaults.eq_3 v hv]
    exact .orFail _ _

theorem finds_readInput (v? : Option Value) : Finds (readInput v?) (inputFaults v?) := by
  have htext (v : Value) (d : Defect) :
      Finds (orFail (v.text?.map String.toList) d) (absent v.text? d) := by
    cases v.text? <;> rfl
  rw [readInput.eq_def]
  split
  · exact .ok _
  · exact .ok _
  · rename_i v hv
    rw [inputFaults.eq_3 v hv, ← v.text?_untag, ← v.describe_untag]
    cases v.untag with
    | sequence items => exact finds_readSymbolList _ items
    | _ => exact htext _ _

theorem finds_readPart (p : List Char) :
    Finds (readPart p) (if p.length ≠ 1 then [.invalidSymbol (.ofList p)] else []) := by
  rcases p with _ | ⟨c, _ | ⟨d, cs⟩⟩
  · exact .fail _
  · exact .ok c
  · exact .fail _

theorem flatMap_ite_eq (p : α → Prop) [DecidablePred p] (f : α → β) (xs : List α) :
    xs.flatMap (fun x => if p x then [f x] else []) = (xs.filter p).map f := by
  induction xs with
  | nil => rfl
  | cons x xs ih => by_cases hp : p x <;> simp [List.flatMap_cons, ih, hp]

theorem finds_symbolsOfText (s : String) :
    Finds (symbolsOfText s) (if s.toList.length = 1 then []
      else ((s.toList.splitOn ',').filter (·.length ≠ 1)).map fun p => .invalidSymbol (.ofList p)) := by
  rw [symbolsOfText, onlyChar?]
  rcases s.toList with _ | ⟨c, _ | ⟨d, cs⟩⟩
  · exact .fail _
  · exact .ok [c]
  · rw [if_neg (by simp), ← flatMap_ite_eq, splitCommas_eq_splitOn]
    exact .mapM finds_readPart _

theorem finds_readSymbols (key : Value) : Finds (readSymbols key) (symbolFaults key) := by
  have hscalar (v : Value) (d : Defect) : Finds (do let s ← orFail v.text? d; symbolsOfText s)
      (v.text?.elim [d] fun s => if s.toList.length = 1 then []
        else ((s.toList.splitOn ',').filter (·.length ≠ 1)).map fun p =>
          .invalidSymbol (.ofList p)) := by
    cases v.text? with
    | none => exact .fail d
    | some s => exact finds_symbolsOfText s
  rw [readSymbols, symbolFaults, ← key.text?_untag, ← key.describe_untag]
  cases key.untag with
  | sequence items => exact finds_readSymbolList _ items
  | _ => exact hscalar _ _

/-! ### Synonyms -/

theorem fails_addSynonym (acc : Synonyms) (e : Value × Value) :
    (addSynonym acc e.1 e.2).Fails (synonymFaults e) := by
  have hnil (s : String) : (List.lookup s ([] : Synonyms)).isSome ↔ s ∈ ([] : List String) := by
    simp
  rw [addSynonym, synonymFaults]
  refine .orFail_bind fun name _ => .warnIf ?_
  have hvalue := (Checked.Fails.ofExcept (finds_readInstruction hnil e.2)).locate
    (·.inSynonym name)
  rw [List.map_map] at hvalue
  exact hvalue.bind_nil fun i => .pure _

theorem fails_readSynonyms (v? : Option Value) : (readSynonyms v?).Fails (synonymsFaults v?) := by
  rw [readSynonyms.eq_def]
  split
  · exact .pure _
  · exact .pure _
  · rename_i v hv
    rw [synonymsFaults.eq_3 v hv]
    exact .orFail_bind fun es _ => .foldlM fails_addSynonym es []

/-! ### The table -/

section Table
variable {synonyms : Synonyms} {names : List String}
  (h : ∀ s, (synonyms.lookup s).isSome ↔ s ∈ names)
include h

/-- The state is not known yet. -/
theorem fails_addCell (row : Row) (e : Value × Value) :
    (addCell synonyms row e.1 e.2).Fails ((symbolFaults e.1 ++ instructionFaults names e.2).map
      fun d => (SpecError.of d).atSymbol e.1.describe) := by
  have haddAll (i : Instruction) (cs : List Char) : (cs.foldlM (addSymbol i) row).Fails [] := by
    have hadd (row : Row) (c : Char) : (addSymbol i row c).Fails [] := .warnIf (.pure _)
    have hall := Checked.Fails.foldlM hadd cs row
    rwa [List.flatMap_eq_nil_iff.2 fun _ _ => rfl] at hall
  have hsymbols := (Checked.Fails.ofExcept (finds_readSymbols e.1)).locate (·.atSymbol e.1.describe)
  have hinstruction := (Checked.Fails.ofExcept (finds_readInstruction h e.2)).locate
    (·.atSymbol e.1.describe)
  have hcell := hsymbols.bind fun cs _ => hinstruction.bind_nil fun i => haddAll i cs
  rwa [List.map_map, List.map_map, ← List.map_append] at hcell

theorem fails_readEntry (q : String) (v : Value) :
    ((readEntry synonyms v).locate (·.inState q)).Fails (entryFaults names q v) := by
  rw [readEntry, entryFaults, ← v.typeName_untag]
  cases v.untag with
  | null => exact (Checked.Fails.pure _).locate _
  | mapping cells =>
    have hcells := ((Checked.Fails.foldlM (fails_addCell h) cells ∅).map some).locate (·.inState q)
    simp only [List.map_flatMap, List.map_map] at hcells
    exact hcells
  | _ => exact (Checked.Fails.ofExcept (.fail _)).locate _

theorem fails_addState (table : Table) (e : Value × Value) :
    (addState synonyms table e.1 e.2).Fails (stateFaults names e) := by
  rw [addState, stateFaults]
  exact .orFail_bind fun q _ => (fails_readEntry h q e.2).bind_nil fun entry => .warnIf (.pure _)

theorem fails_readTable (v? : Option Value) :
    (readTable synonyms v?).Fails (tableFaults names v?) := by
  rw [readTable.eq_def]
  split
  · exact .ofExcept (.fail _)
  · exact .ofExcept (.fail _)
  · rename_i v hv
    rw [tableFaults.eq_3 names v hv]
    exact .orFail_bind fun es _ => .foldlM (fails_addState h) es ∅

end Table

/-! ### The document -/

/-- Whatever the synonyms stand for, they have the names that the document gives them. -/
theorem isSome_lookup_of_readSynonyms {synonyms : Synonyms} {es : List (Value × Value)} {ws : List Warning}
    (h : ((readSynonyms (Value.lookup "synonyms" es)).run ws).1 = .ok synonyms) (s : String) :
    (synonyms.lookup s).isSome ↔ s ∈ synonymNames es := by
  obtain ⟨ks, hks, rfl⟩ := (readSynonyms_gives es ws synonyms).1 h
  rw [Option.isSome_iff_exists, ← hks.isSynonym_iff]
  simp only [Grammar.IsSynonym, ← Grammar.lookup_eq_some_iff, Grammar.scalar_iff, ← entries?_iff]
  rw [synonymNames, List.mem_filterMap]
  constructor
  · rintro ⟨v, ps, hv, hps, e, he, hs⟩
    refine ⟨e, ?_, hs⟩
    rwa [synonymEntries_eq hv hps]
  · rintro ⟨e, he, hs⟩
    obtain ⟨v, hv, hps⟩ := exists_of_mem_synonymEntries he
    exact ⟨v, _, hv, hps, e, he, hs⟩

theorem fails_read (document : Value) : (read document).Fails (faults document) := by
  rw [read, faults]
  refine .orFail_bind fun es _ => ?_
  have hfields := (Checked.Fails.ofExcept (finds_readBlank (Value.lookup "blank" es))).bind
    fun blank _ =>
      (Checked.Fails.ofExcept (finds_readStartState (Value.lookup "start state" es))).bind
    fun start _ => (Checked.Fails.ofExcept (finds_readInput (Value.lookup "input" es))).bind
    fun input _ => (fails_readSynonyms (Value.lookup "synonyms" es)).bind
    fun synonyms hs => (fails_readTable (isSome_lookup_of_readSynonyms hs.choose_spec)
      (Value.lookup "table" es)).bind
    fun table _ => .pure (⟨blank, start, table, input⟩ : Specification)
  rw [List.map_append, List.map_append]
  simpa only [List.append_assoc, List.append_nil] using hfields

end Document

/-! ### The whole table -/

/-- The cells are by state and then by symbol. -/
theorem Table.cells_sorted (t : Table) :
    t.cells.Pairwise fun x y => x.1 < y.1 ∨ x.1 = y.1 ∧ x.2.1 < y.2.1 := by
  rw [cells, List.pairwise_flatMap]
  constructor
  · rintro ⟨q, row?⟩ -
    rw [List.pairwise_map]
    cases row? with
    | none => exact .nil
    | some row => exact row.sorted.imp fun h => .inr ⟨rfl, h⟩
  · refine t.sorted.imp fun h x hx y hy => .inl ?_
    obtain ⟨_, -, rfl⟩ := List.mem_map.1 hx
    obtain ⟨_, -, rfl⟩ := List.mem_map.1 hy
    exact h

theorem Specification.error?_analyze (s : Specification) :
    error? s.analyze = s.faults.head? := by
  have htargets : (s.table.cells.flatMap s.cellFaults).head? = s.firstUndeclaredTarget.map
      fun t => ⟨.undeclaredState t.2.2, .ofCell t.1 (String.singleton t.2.1)⟩ := by
    rw [List.head?_flatMap, firstUndeclaredTarget, List.map_findSome?]
    congr 1
    funext cell
    obtain ⟨q, c, i⟩ := cell
    dsimp only [Function.comp, cellFaults]
    cases i.nextState.filter fun t => !s.declares t <;> rfl
  rw [analyze, faults, List.head?_append, htargets]
  cases s.firstUndeclaredTarget with
  | some _ => rfl
  | none =>
    show error? (if s.declares s.startState then _ else _) = _
    split <;> rfl

/-! ### The document with its table -/

namespace Document

theorem read_eq_error_iff {document : Value} {e : SpecError} :
    ((read document).run []).1 = .error e ↔ (faults document).head? = some e := by
  rw [← error?_eq_some_iff, fails_read document []]

/-- The documents without a fault are those of the right form. -/
theorem faults_eq_nil_iff {document : Value} :
    faults document = [] ↔ Grammar.Accepted document := by
  rw [← List.head?_eq_none_iff, ← fails_read document [], error?_eq_none_iff,
    ← Grammar.exists_describes_iff]
  exact exists_congr (read_gives document [])

theorem check_eq_error_iff {document : Value} {e : SpecError} :
    (check document).1 = .error e ↔ ((read document).run []).1 = .error e ∨
      ∃ s, ((read document).run []).1 = .ok s ∧ s.analyze = .error e := by
  rw [check]
  rcases (read document).run [] with ⟨e' | s, ws⟩
  · simp
  · cases ha : s.analyze <;> simp [ha]

/-- A document of the right form has no fault, and any other one is refused for the first. What it
describes is then refused for the first fault of the table, where cells come by state and symbol.
The error lies where its kind does. -/
theorem fails_with_first_fault (document : Value) :
    (faults document = [] ↔ Grammar.Accepted document) ∧
      (∀ e, ((read document).run []).1 = .error e ↔ (faults document).head? = some e) ∧
      (∀ e, (check document).1 = .error e ↔
        ((faults document).head? = some e ∨
          ∃ s, Grammar.Describes document s ∧ s.faults.head? = some e) ∧
        e.defect.Lies e.place) ∧
      ∀ t : Table, t.cells.Pairwise fun x y => x.1 < y.1 ∨ x.1 = y.1 ∧ x.2.1 < y.2.1 := by
  refine ⟨faults_eq_nil_iff, fun e => read_eq_error_iff, fun e => ?_, Table.cells_sorted⟩
  have hcheck : (check document).1 = .error e ↔ (faults document).head? = some e ∨
      ∃ s, Grammar.Describes document s ∧ s.faults.head? = some e := by
    rw [check_eq_error_iff, read_eq_error_iff]
    refine or_congr_right (exists_congr fun s => and_congr (read_gives document [] s) ?_)
    rw [← s.error?_analyze, error?_eq_some_iff]
  rw [hcheck, iff_self_and]
  rintro (h | ⟨s, -, h⟩)
  · exact lies_of_mem_faults document e (List.mem_of_head? h)
  · exact s.lies_of_mem_faults e (List.mem_of_head? h)

/-- The key that names no part comes first, but two directions count before it. -/
example :
    let cell := Value.mapping [(.string "wrote", .null), (.string "R", .null), (.string "L", .null)]
    let row := Value.mapping [(.sequence [.string "0", .string "1"], cell)]
    let document := Value.mapping [(.string "table", .mapping [(.string "A", row)]),
      (.string "start state", .string "A"), (.string "blank", .string "0")]
    faults document =
        [⟨.conflictingDirections, .ofCell "A" "[0, 1]"⟩,
          ⟨.unrecognizedKey "wrote", .ofCell "A" "[0, 1]"⟩] ∧
      (check document).1 = .error ⟨.conflictingDirections, .ofCell "A" "[0, 1]"⟩ := by
  decide

end Document

end TuringTable
