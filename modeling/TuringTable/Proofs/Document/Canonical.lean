import TuringTable.Proofs.Closed
import TuringTable.Proofs.Document.Reading

/-!
# The canonical document

Every specification can be written as a document: `Specification.document` has strings for all that
is named, each state once, each symbol on its own. Nothing in a name is taken for syntax when it is
read again (`read_document`), be it a comma, a direction or no character at all. So the check
accepts just the closed specifications (`accepted_iff_closed`).
-/

namespace TuringTable

open Yaml (Value)

/-! ### Writing -/

namespace Yaml.Value

/-- A symbol as a text of one character. -/
def symbol (c : Char) : Value := string (String.singleton c)

end Yaml.Value

namespace Instruction

/-- The state to enter, null if there is none. -/
def targetValue (i : Instruction) : Value := i.nextState.elim .null .string

/-- The direction with the state to enter, then the symbol to write if there is one. -/
def entries (i : Instruction) : List (Value × Value) :=
  (.symbol i.direction.letter, i.targetValue) ::
    i.write.toList.map fun c => (.string "write", .symbol c)

end Instruction

def Row.value (row : Row) : Value :=
  .mapping (row.entries.map fun cell => (.symbol cell.1, .mapping cell.2.entries))

def Table.value (t : Table) : Value :=
  .mapping (t.entries.map fun e => (.string e.1, e.2.elim .null Row.value))

def Specification.document (s : Specification) : Value :=
  .mapping [(.string "blank", .symbol s.blank), (.string "start state", .string s.startState),
    (.string "input", .string (String.ofList s.input)), (.string "table", s.table.value)]

/-! ### Reading again -/

namespace Checked
variable {κ ν : Type} [LT κ] [DecidableLT κ] [LE κ] [Std.IsLinearOrder κ] [Std.LawfulOrderLT κ]
  [DecidableEq κ] {turn : SortedMap κ ν → κ × ν → Checked (SortedMap κ ν)}

/-- A loop that puts in what is not yet there makes a map of entries whose keys differ. -/
theorem foldlM_insert (hturn : ∀ m e, m.contains e.1 = false → turn m e = pure (m.insert e.1 e.2))
    {es : List (κ × ν)} (hd : (es.map (·.1)).Nodup) (m : SortedMap κ ν)
    (hm : ∀ e ∈ es, m.contains e.1 = false) :
    es.foldlM turn m = pure (es.foldl (fun m e => m.insert e.1 e.2) m) := by
  induction es generalizing m with
  | nil => rfl
  | cons e es ih =>
    obtain ⟨he, hd⟩ := List.nodup_cons.1 hd
    obtain ⟨hme, hm⟩ := List.forall_mem_cons.1 hm
    -- the key that was put in is none of those to come
    have hm' : ∀ d ∈ es, (m.insert e.1 e.2).contains d.1 = false := by
      intro d hdes
      have hne : d.1 ≠ e.1 := fun h => he (List.mem_map.2 ⟨d, hdes, h⟩)
      rw [SortedMap.contains, SortedMap.get?_insert, if_neg hne]
      exact hm d hdes
    rw [List.foldlM_cons, hturn m e hme, pure_bind, ih hd _ hm', List.foldl_cons]

theorem foldlM_entries (hturn : ∀ m e, m.contains e.1 = false → turn m e = pure (m.insert e.1 e.2))
    (m : SortedMap κ ν) : m.entries.foldlM turn ∅ = pure m := by
  rw [foldlM_insert hturn m.nodup_keys ∅ fun _ _ => rfl, ← SortedMap.ofList,
    SortedMap.ofList_eq_of_perm (.refl _)]

end Checked

namespace Document

theorem onlyChar?_singleton (c : Char) : onlyChar? (String.singleton c) = some c := by
  rw [onlyChar?_eq_some_iff, String.toList_singleton]

theorem symbol?_symbol (c : Char) : symbol? (.symbol c) = some c := onlyChar?_singleton c

/-- A comma on its own is no separator. -/
theorem readSymbols_symbol (c : Char) : readSymbols (.symbol c) = .ok [c] := by
  show symbolsOfText (String.singleton c) = _
  rw [symbolsOfText, onlyChar?_singleton]

theorem readTarget_targetValue (i : Instruction) : readTarget i.targetValue = .ok i.nextState := by
  rw [Instruction.targetValue]
  cases i.nextState <;> rfl

theorem readWrite_symbol (w : Option Char) : readWrite (w.map .symbol) = .ok w := by
  cases w with
  | none => rfl
  | some c =>
    rw [Option.map_some, readWrite, symbol?_symbol]
    rfl

theorem parts_entries (i : Instruction) :
    let p := Parts.ofEntries i.entries
    p.move = .ok (i.direction, i.targetValue) ∧ p.write = i.write.map .symbol ∧
      p.unknown = none := by
  obtain ⟨w, d, q⟩ := i
  cases d <;> cases w <;> exact ⟨rfl, rfl, rfl⟩

/-- The names of directions are looked for in keys only, so any state can be entered. -/
theorem readInstruction_entries (synonyms : Synonyms) (i : Instruction) :
    readInstruction synonyms (.mapping i.entries) = .ok i := by
  obtain ⟨hmove, hwrite, hunknown⟩ := parts_entries i
  show readParts (.ofEntries i.entries) = _
  rw [readParts, hmove, hwrite, hunknown, readWrite_symbol]
  show Except.bind (readTarget i.targetValue) _ = _
  rw [readTarget_targetValue]
  rfl

theorem addCell_symbol {row : Row} {c : Char} (h : row.contains c = false) (i : Instruction) :
    addCell [] row (.symbol c) (.mapping i.entries) = pure (row.insert c i) := by
  have hsymbol : addSymbol i row c = pure (row.insert c i) := by
    rw [addSymbol, h]
    rfl
  rw [addCell, readSymbols_symbol, readInstruction_entries]
  show [c].foldlM (addSymbol i) row = _
  rw [List.foldlM_cons, hsymbol]
  rfl

theorem readEntry_elim (row? : Option Row) : readEntry [] (row?.elim .null Row.value) = pure row? := by
  cases row? with
  | none => rfl
  | some row =>
    have hrow : readRow [] (row.entries.map fun cell => (.symbol cell.1, .mapping cell.2.entries)) =
        pure row := by
      rw [readRow, List.foldlM_map]
      exact Checked.foldlM_entries (fun m e h => addCell_symbol h e.2) row
    show some <$> readRow [] _ = _
    rw [hrow, map_pure]

theorem addState_string {table : Table} {q : String} (h : table.contains q = false)
    (row? : Option Row) :
    addState [] table (.string q) (row?.elim .null Row.value) = pure (table.insert q row?) := by
  have hnot : ¬ table.contains q = true := by simp [h]
  rw [addState, readEntry_elim]
  show (if table.contains q = true then _ else (pure (table.insert q row?) : Checked Table)) = _
  rw [if_neg hnot]

theorem readTable_value (t : Table) : readTable [] (some t.value) = pure t := by
  have hnull : t.value ≠ .null := nofun
  have hes : t.value.entries? =
      some (t.entries.map fun e => (Value.string e.1, e.2.elim .null Row.value)) := rfl
  rw [readTable.eq_3 _ _ hnull, Checked.ofExcept_orFail_bind, hes, Option.elim_some,
    List.foldlM_map]
  exact Checked.foldlM_entries (fun m e h => addState_string h e.2) t

/-- What is written is read again, and nothing is warned of. -/
theorem read_document (s : Specification) : read s.document = pure s := by
  have hblank : readBlank (some (.symbol s.blank)) = .ok s.blank := by
    have hnull : Value.symbol s.blank ≠ .null := nofun
    rw [readBlank.eq_3 _ hnull, symbol?_symbol]
    rfl
  have hinput : readInput (some (.string (String.ofList s.input))) = .ok s.input := by
    show Except.ok (String.ofList s.input).toList = _
    rw [String.toList_ofList]
  show (Checked.ofExcept (readBlank (some (.symbol s.blank))) >>= fun blank =>
    Checked.ofExcept (.ok s.startState) >>= fun start =>
    Checked.ofExcept (readInput (some (.string (String.ofList s.input)))) >>= fun input =>
    pure [] >>= fun synonyms => readTable synonyms (some s.table.value) >>= fun table =>
    pure (⟨blank, start, table, input⟩ : Specification)) = _
  rw [hblank, hinput]
  simp only [Checked.ofExcept_ok, pure_bind, readTable_value]

theorem check_document_iff (s : Specification) : (check s.document).1 = .ok s ↔ s.Closed := by
  have hread : ((read s.document).run []).1 = .ok s := by
    rw [read_document]
    rfl
  rw [check_eq_ok_iff, Specification.analyze_eq_ok_iff, and_iff_right hread]

/-- Any specification whatever is what its document is read as, with no warnings. The check then
asks for the start state and every state that an instruction enters to be declared, and so does
what is accepted of any text or document. -/
theorem accepted_iff_closed (s : Specification) :
    (read s.document).run [] = (.ok s, []) ∧
      (s.analyze = .ok () ↔ s.Closed) ∧
      ((check s.document).1 = .ok s ↔ s.Closed) ∧
      ((∃ document, (check document).1 = .ok s) ↔ s.Closed) ∧
      ∀ text, (parse text).1 = .ok s → s.Closed := by
  refine ⟨?_, Specification.analyze_eq_ok_iff, check_document_iff s, ⟨?_, ?_⟩, ?_⟩
  · rw [read_document]
    rfl
  · rintro ⟨document, h⟩
    exact closed_of_check h
  · intro h
    exact ⟨s.document, (check_document_iff s).2 h⟩
  · exact fun text => closed_of_parse

/-- States with the names of directions and one without a name, a comma and the blank as symbols, a
row without cells and no row at all. -/
example :
    let s : Specification := ⟨'_', "", .ofList [("", some (.ofList [(',', ⟨some '_', .left, "L"⟩),
      ('_', ⟨none, .right, "R"⟩)])), ("L", none), ("R", some ∅)], []⟩
    check s.document = (.ok s, []) := by
  decide +kernel

end Document

end TuringTable
