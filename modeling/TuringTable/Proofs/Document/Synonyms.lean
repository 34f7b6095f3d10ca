import TuringTable.Program
import TuringTable.Proofs.Document.Edit
import TuringTable.Proofs.Document.Faults
import TuringTable.Proofs.Document.Reading

/-!
# Synonyms are abbreviations

A synonym can be written out: its value, which cannot refer to other synonyms, is read the same in a
cell (`readInstruction_expandCell`). So a document means the same without its synonyms, if each cell
that names one has the value instead (`expandSynonyms`). A synonym with the name of a direction is
never asked for, and a document means the same without it (`removeSynonym`). In both cases the
warnings differ in those about such names alone; for the rest `Warns` says that a reading warns of
the same, whatever came before it.
-/

namespace TuringTable

open Yaml (Value)

/-- The warnings about synonyms. -/
def Warning.isShadowing : Warning → Bool
  | shadowedSynonym _ => true
  | _ => false

namespace Document

/-! ### Changes to the synonyms -/

/-- The value that the last entry of the name has. -/
def definition? (ps : List (Value × Value)) (name : String) : Option Value :=
  (ps.reverse.find? fun e => e.1.text? = some name).map (·.2)

/-- A string that is no direction gives way to the value of the synonym that it names. -/
def expandCell (ps : List (Value × Value)) (v : Value) : Value :=
  match v.untag with
  | .string s => if s = "L" ∨ s = "R" then v else (definition? ps s).getD v
  | _ => v

/-- The entry of a state with another value in each cell. -/
def onRow (g : Value → Value) (row : Value) : Value :=
  row.onEntries (·.map fun cell => (cell.1, g cell.2))

/-- The table with another value in each cell of each state. -/
def onCells (g : Value → Value) (table : Value) : Value :=
  table.onEntries (·.map fun e => (e.1, onRow g e.2))

/-- The fields without the synonyms, and in the cells of the table what these stand for. -/
def expandEntries (es : List (Value × Value)) : List (Value × Value) :=
  Value.onField "table" (onCells (expandCell (synonymEntries es))) (Value.dropField "synonyms" es)

def expandSynonyms (document : Value) : Value := document.onEntries expandEntries

/-- The fields without the synonym at the index. -/
def eraseSynonym (n : Nat) (es : List (Value × Value)) : List (Value × Value) :=
  Value.onField "synonyms" (Value.onEntries (·.eraseIdx n)) es

def removeSynonym (n : Nat) (document : Value) : Value := document.onEntries (eraseSynonym n)

/-! ### The table with other cells -/

section Table
variable {synonyms synonyms' : Synonyms} {g : Value → Value}

section Congr
variable (h : ∀ v, readInstruction synonyms v = readInstruction synonyms' (g v))
include h

theorem addCell_congr (row : Row) (key v : Value) :
    addCell synonyms row key v = addCell synonyms' row key (g v) := by
  rw [addCell, addCell, h]

theorem readEntry_congr (v : Value) : readEntry synonyms v = readEntry synonyms' (onRow g v) := by
  rw [readEntry, readEntry, onRow, Value.untag_onEntries]
  cases v.untag with
  | mapping cells =>
    show some <$> readRow synonyms cells =
      some <$> readRow synonyms' (cells.map fun cell => (cell.1, g cell.2))
    rw [readRow, readRow, List.foldlM_map]
    simp only [addCell_congr h]
  | tagged t w =>
    have ht := Value.typeName_onEntries (f := (·.map fun cell => (cell.1, g cell.2))) (.tagged t w)
    exact congrArg (fun type => Checked.ofExcept (fail (.invalidStateEntryType type))) ht.symm
  | _ => rfl

theorem addState_congr (table : Table) (key v : Value) :
    addState synonyms table key v = addState synonyms' table key (onRow g v) := by
  rw [addState, addState, readEntry_congr h]

/-- Where each cell is read as its replacement is with other synonyms, so is the table. -/
theorem readTable_congr (v? : Option Value) :
    readTable synonyms v? = readTable synonyms' (v?.map (onCells g)) := by
  match v? with
  | none => rfl
  | some v =>
    by_cases hv : v = .null
    · subst hv
      rfl
    · have hv' : onCells g v ≠ .null := mt Value.onEntries_eq_null_iff.1 hv
      rw [Option.map_some, readTable.eq_3 _ v hv, readTable.eq_3 _ _ hv', onCells,
        Value.entries?_onEntries, Value.typeName_onEntries, Checked.ofExcept_orFail_bind,
        Checked.ofExcept_orFail_bind]
      cases v.entries? with
      | none => rw [Option.map_none, Option.elim_none, Option.elim_none]
      | some es =>
        rw [Option.map_some, Option.elim_some, Option.elim_some, List.foldlM_map]
        simp only [addState_congr h]

end Congr

theorem onRow_id (v : Value) : onRow id v = v := by
  have hcells : (fun cells : List (Value × Value) => cells.map fun cell => (cell.1, id cell.2)) =
      id := funext List.map_id'
  rw [onRow, hcells, Value.onEntries_id]

theorem onCells_id (v : Value) : onCells id v = v := by
  have hstates : (fun es : List (Value × Value) => es.map fun e => (e.1, onRow id e.2)) = id := by
    simp only [onRow_id]
    exact funext List.map_id'
  rw [onCells, hstates, Value.onEntries_id]

theorem warns_readTable {p : Warning → Prop} (hp : ∀ c, p (.repeatedSymbol c))
    (hq : ∀ q, p (.repeatedState q)) (v? : Option Value) : (readTable synonyms v?).Warns p := by
  have hsymbol (i : Instruction) (row : Row) (c : Char) : (addSymbol i row c).Warns p :=
    .warnIf (w := .repeatedSymbol c) (f := fun _ => pure (row.insert c i)) (hp c) (.pure _)
  have hcell (row : Row) (e : Value × Value) : (addCell synonyms row e.1 e.2).Warns p :=
    ((Checked.Warns.ofExcept _).locate _).bind fun cs =>
      ((Checked.Warns.ofExcept _).locate _).bind fun i => .foldlM (hsymbol i) cs row
  have hentry (v : Value) : (readEntry synonyms v).Warns p := by
    rw [readEntry]
    split
    · exact .pure _
    · exact (Checked.Warns.foldlM hcell _ ∅).map some
    · exact .ofExcept _
  have hstate (table : Table) (e : Value × Value) : (addState synonyms table e.1 e.2).Warns p :=
    (Checked.Warns.ofExcept _).bind fun q => ((hentry e.2).locate _).bind fun entry =>
      .warnIf (hq q) (.pure _)
  rw [readTable.eq_def]
  split
  · exact .ofExcept _
  · exact .ofExcept _
  · exact (Checked.Warns.ofExcept _).bind fun es => .foldlM hstate es ∅

end Table

/-! ### Writing synonyms out -/

/-- A synonym is what the last entry of its name stands for on its own. -/
theorem map_definition? {ps : List (Value × Value)} {names : List (String × Instruction)}
    (h : List.Forall₂ (fun e k => Grammar.Scalar e.1 k.1 ∧ Grammar.Plain e.2 k.2) ps names)
    (s : String) :
    (definition? ps s).map (readInstruction []) = (names.reverse.lookup s).map .ok := by
  rw [← List.forall₂_reverse_iff] at h
  rw [definition?]
  generalize ps.reverse = qs, names.reverse = ks at h
  induction h with
  | nil => rfl
  | @cons e k qs ks hek _ ih =>
    obtain ⟨name, i⟩ := k
    obtain ⟨hname, hi⟩ := hek
    rw [List.find?_cons, Grammar.scalar_iff.1 hname, SortedMap.lookup_cons_eq_ite]
    by_cases hs : s = name
    · simp [hs, readInstruction_nil_iff.2 hi]
    · rw [if_neg hs, ← ih]
      simp [Ne.symm hs]

theorem readInstruction_of_string {v : Value} {s : String} (hv : v.untag = .string s) (hL : s ≠ "L")
    (hR : s ≠ "R") (synonyms : Synonyms) :
    readInstruction synonyms v = orFail (synonyms.lookup s) (.unrecognizedSynonym s) := by
  rw [readInstruction]
  split <;> simp_all

/-- Only names that are no directions are looked up. -/
theorem readInstruction_eq_of_lookup {synonyms synonyms' : Synonyms} {v : Value}
    (h : ∀ s, v.untag = .string s → s ≠ "L" → s ≠ "R" → synonyms.lookup s = synonyms'.lookup s) :
    readInstruction synonyms v = readInstruction synonyms' v := by
  cases hv : v.untag with
  | string s =>
    by_cases hL : s = "L"
    · rw [readInstruction, readInstruction, hv, hL]
      rfl
    · by_cases hR : s = "R"
      · rw [readInstruction, readInstruction, hv, hR]
        rfl
      · rw [readInstruction_of_string hv hL hR, readInstruction_of_string hv hL hR, h s hv hL hR]
  | _ => rw [readInstruction, readInstruction, hv]

/-- A cell is read as it is without synonyms where they are written out. -/
theorem readInstruction_expandCell {synonyms : Synonyms} {ps : List (Value × Value)}
    (h : ∀ s, (definition? ps s).map (readInstruction []) = (synonyms.lookup s).map .ok)
    (v : Value) : readInstruction synonyms v = readInstruction [] (expandCell ps v) := by
  rw [expandCell]
  split
  · rename_i s hv
    split
    · rename_i hs
      refine readInstruction_eq_of_lookup fun s' hs' hL hR => ?_
      cases hv.symm.trans hs'
      exact absurd hs (not_or_intro hL hR)
    · rename_i hs
      obtain ⟨hL, hR⟩ := not_or.1 hs
      have hd := h s
      rw [readInstruction_of_string hv hL hR]
      cases hdef : definition? ps s with
      | none =>
        rw [hdef, Option.map_none, eq_comm, Option.map_eq_none_iff] at hd
        rw [Option.getD_none, readInstruction_of_string hv hL hR, hd, List.lookup_nil]
      | some w =>
        rw [hdef, Option.map_some, eq_comm, Option.map_eq_some_iff] at hd
        obtain ⟨i, hi, hw⟩ := hd
        rw [Option.getD_some, ← hw, hi]
        rfl
  · rename_i hv
    exact readInstruction_eq_of_lookup fun s hs => absurd hs (hv s)

/-! ### One synonym after the other -/

/-- One synonym with its name. -/
def readSynonym (e : Value × Value) : Checked (String × Instruction) := do
  let name ← Checked.ofExcept (readName e.1)
  if name = "L" ∨ name = "R" then Checked.warn (.shadowedSynonym name)
  let i ← Checked.locate (·.inSynonym name) (Checked.ofExcept (readInstruction [] e.2))
  return (name, i)

theorem addSynonym_eq (acc : Synonyms) (e : Value × Value) :
    addSynonym acc e.1 e.2 = readSynonym e >>= fun k => pure (k :: acc) := by
  rw [addSynonym, readSynonym, bind_assoc]
  refine bind_congr fun name => ?_
  by_cases hname : name = "L" ∨ name = "R"
  · simp [hname]
  · simp [hname]

theorem foldlM_addSynonym (es : List (Value × Value)) (acc : Synonyms) :
    es.foldlM (fun acc e => addSynonym acc e.1 e.2) acc =
      es.mapM readSynonym >>= fun ks => pure (ks.reverse ++ acc) := by
  induction es generalizing acc with
  | nil => simp
  | cons e es ih =>
    rw [List.foldlM_cons, List.mapM_cons, addSynonym_eq]
    simp [ih]

/-- The synonyms are read one by one, and the last one comes first. -/
theorem readSynonyms_eq_mapM {es ps : List (Value × Value)} {v : Value}
    (hv : Value.lookup "synonyms" es = some v) (hps : v.entries? = some ps) :
    readSynonyms (Value.lookup "synonyms" es) =
      ps.mapM readSynonym >>= fun ks => pure ks.reverse := by
  have hnull : v ≠ .null := by
    rintro rfl
    cases hps
  rw [hv, readSynonyms.eq_3 v hnull, Checked.ofExcept_orFail_bind, hps, Option.elim_some,
    foldlM_addSynonym]
  simp only [List.append_nil]

theorem readSynonym_of_direction {key value : Value} {name : String} {i : Instruction}
    (hname : Grammar.Scalar key name) (hd : name = "L" ∨ name = "R")
    (hi : Grammar.Plain value i) :
    readSynonym (key, value) =
      Checked.warn (.shadowedSynonym name) >>= fun _ => pure (name, i) := by
  rw [readSynonym, readName_iff.2 hname, readInstruction_nil_iff.2 hi, Checked.ofExcept_ok,
    pure_bind, if_pos hd]
  rfl

theorem warns_readSynonym (e : Value × Value) :
    (readSynonym e).Warns (·.isShadowing = true) :=
  (Checked.Warns.ofExcept _).bind fun name =>
    .warnIf (w := .shadowedSynonym name) rfl (((Checked.Warns.ofExcept _).locate _).bind
      fun i => .pure (name, i))

theorem warns_readSynonyms (v? : Option Value) :
    (readSynonyms v?).Warns (·.isShadowing = true) := by
  rw [readSynonyms.eq_def]
  split
  · exact .pure _
  · exact .pure _
  · refine (Checked.Warns.ofExcept _).bind fun es => ?_
    rw [foldlM_addSynonym]
    exact (Checked.Warns.mapM warns_readSynonym es).bind fun ks => .pure _

/-! ### The document -/

/-- The fields before the synonyms. -/
def readHead (es : List (Value × Value)) : Except SpecError (Char × String × List Char) := do
  let blank ← readBlank (Value.lookup "blank" es)
  let start ← readStartState (Value.lookup "start state" es)
  let input ← readInput (Value.lookup "input" es)
  return (blank, start, input)

theorem readHead_congr {es es' : List (Value × Value)}
    (h : ∀ name, name ≠ "synonyms" → name ≠ "table" →
      Value.lookup name es' = Value.lookup name es) : readHead es' = readHead es := by
  rw [readHead, readHead, h _ (by decide) (by decide), h _ (by decide) (by decide),
    h _ (by decide) (by decide)]

/-- The specification of these fields and the table. -/
def readBody (es : List (Value × Value)) (head : Char × String × List Char)
    (synonyms : Synonyms) : Checked Specification := do
  let table ← readTable synonyms (Value.lookup "table" es)
  return ⟨head.1, head.2.1, table, head.2.2⟩

theorem read_eq {document : Value} {es : List (Value × Value)}
    (h : document.entries? = some es) :
    read document = Checked.ofExcept (readHead es) >>= fun head =>
      readSynonyms (Value.lookup "synonyms" es) >>= readBody es head := by
  rw [read, Checked.ofExcept_orFail_bind, h, Option.elim_some]
  simp only [readHead, Checked.ofExcept_bind, bind_assoc]
  rfl

theorem warns_readBody (es : List (Value × Value)) (head : Char × String × List Char)
    (synonyms : Synonyms) : (readBody es head synonyms).Warns (·.isShadowing = false) :=
  (warns_readTable (fun _ => rfl) (fun _ => rfl) _).bind fun _ => .pure _

theorem definition?_of_synonyms {es : List (Value × Value)} {names : List (String × Instruction)}
    (h : Grammar.Synonyms es names) (s : String) :
    (definition? (synonymEntries es) s).map (readInstruction []) =
      (names.reverse.lookup s).map .ok := by
  rcases h with h | ⟨hf, hu, hn⟩
  · rcases Grammar.omitted_iff.1 h with h | h <;> rw [synonymEntries, h] <;> rfl
  · rw [synonymEntries_eq (Grammar.lookup_eq_some_iff.2 hf) (entries?_iff.2 hu)]
    exact map_definition? hn s

theorem exists_entries_of_read {document : Value} {s : Specification}
    (h : ((read document).run []).1 = .ok s) : ∃ es, document.entries? = some es := by
  cases hes : document.entries? with
  | none =>
    rw [read, Checked.ofExcept_orFail_bind, hes] at h
    cases h
  | some es => exact ⟨es, rfl⟩

section Expand
variable {document : Value} {es : List (Value × Value)} {s : Specification}

theorem readHead_expandEntries (es : List (Value × Value)) :
    readHead (expandEntries es) = readHead es := by
  refine readHead_congr fun name hs ht => ?_
  rw [expandEntries, Value.lookup_onField_of_ne ht, Value.lookup_dropField_of_ne hs]

theorem readSynonyms_expandEntries (es : List (Value × Value)) :
    readSynonyms (Value.lookup "synonyms" (expandEntries es)) = pure [] := by
  rw [expandEntries, Value.lookup_onField_of_ne (by decide), Value.lookup_dropField_self]
  rfl

theorem readBody_expandEntries {synonyms : Synonyms}
    (h : ∀ s, (definition? (synonymEntries es) s).map (readInstruction []) =
      (synonyms.lookup s).map .ok) (head : Char × String × List Char) :
    readBody (expandEntries es) head [] = readBody es head synonyms := by
  rw [readBody, readBody, expandEntries, Value.lookup_onField_self,
    Value.lookup_dropField_of_ne (by decide), readTable_congr (readInstruction_expandCell h)]

/-- What a document means it means without its synonyms, where they are written out. -/
theorem read_expandSynonyms (h : ((read document).run []).1 = .ok s) :
    (read (expandSynonyms document)).run [] =
      (.ok s, ((read document).run []).2.filter fun w => !w.isShadowing) := by
  obtain ⟨es, hes⟩ := exists_entries_of_read h
  have hes' : (expandSynonyms document).entries? = some (expandEntries es) := by
    rw [expandSynonyms, Value.entries?_onEntries, hes, Option.map_some]
  rw [read_eq hes] at h ⊢
  rw [read_eq hes', readHead_expandEntries, readSynonyms_expandEntries]
  -- what is read before the table succeeds, so the table is read with the synonyms of the document
  cases hhead : readHead es with
  | error e =>
    rw [hhead] at h
    cases h
  | ok head =>
    rw [hhead, Checked.ofExcept_ok, pure_bind] at h
    obtain ⟨synonyms, hs⟩ := Checked.exists_ok_of_bind h
    have hrun := Checked.run_second_of_bind (warns_readSynonyms _) (warns_readBody es head) hs
    obtain ⟨names, hnames, rfl⟩ := (readSynonyms_gives es [] synonyms).1 hs
    rw [Checked.ofExcept_ok, pure_bind, pure_bind, pure_bind,
      readBody_expandEntries (definition?_of_synonyms hnames), hrun, h]

end Expand

/-! ### Synonyms that are never asked for -/

section Remove
variable {document value key : Value} {es : List (Value × Value)} {n : Nat} {name : String}
  {i : Instruction}

theorem lookup_skip_direction (hd : name = "L" ∨ name = "R") (ks ls : List (String × Instruction))
    {s : String} (hL : s ≠ "L") (hR : s ≠ "R") :
    (ks ++ (name, i) :: ls).reverse.lookup s = (ks ++ ls).reverse.lookup s := by
  have hs : s ≠ name := by
    rintro rfl
    exact hd.elim hL hR
  rw [List.reverse_append, List.reverse_append, List.reverse_cons, List.append_assoc,
    List.singleton_append, List.lookup_append, List.lookup_append,
    SortedMap.lookup_cons_eq_ite, if_neg hs]

theorem readBody_eraseSynonym (hd : name = "L" ∨ name = "R") (n : Nat)
    (head : Char × String × List Char) (ks ls : List (String × Instruction)) :
    readBody (eraseSynonym n es) head (ks ++ ls).reverse =
      readBody es head (ks ++ (name, i) :: ls).reverse := by
  have hsame (v : Value) : readInstruction (ks ++ (name, i) :: ls).reverse v =
      readInstruction (ks ++ ls).reverse (id v) :=
    readInstruction_eq_of_lookup fun s _ hL hR => lookup_skip_direction hd ks ls hL hR
  have htable (v? : Option Value) : v?.map (onCells id) = v? := by
    rw [funext onCells_id]
    exact Option.map_id'
  rw [readBody, readBody, eraseSynonym, Value.lookup_onField_of_ne (by decide),
    readTable_congr hsame, htable]

/-- The synonyms before the one at the index, that one, the ones after it, the table. -/
theorem read_eq_around {e : Value × Value} (hes : document.entries? = some es)
    (hn : (synonymEntries es)[n]? = some e) :
    read document = Checked.ofExcept (readHead es) >>= fun head =>
      ((synonymEntries es).take n).mapM readSynonym >>= fun ks => readSynonym e >>= fun k =>
      ((synonymEntries es).drop (n + 1)).mapM readSynonym >>= fun ls =>
      readBody es head (ks ++ k :: ls).reverse := by
  obtain ⟨v, hv, hps⟩ := exists_of_mem_synonymEntries (List.mem_of_getElem? hn)
  have hsplit : (synonymEntries es).take n ++ e :: (synonymEntries es).drop (n + 1) =
      synonymEntries es := by
    obtain ⟨hlt, rfl⟩ := List.getElem?_eq_some_iff.1 hn
    rw [← List.drop_eq_getElem_cons hlt, List.take_append_drop]
  have hall : (synonymEntries es).mapM readSynonym =
      ((synonymEntries es).take n).mapM readSynonym >>= fun ks => readSynonym e >>= fun k =>
      ((synonymEntries es).drop (n + 1)).mapM readSynonym >>= fun ls => pure (ks ++ k :: ls) := by
    conv_lhs => rw [← hsplit]
    simp only [List.mapM_append, List.mapM_cons, bind_assoc, pure_bind]
  rw [read_eq hes, readSynonyms_eq_mapM hv hps, hall]
  simp only [bind_assoc, pure_bind]

theorem read_removeSynonym_eq {e : Value × Value} (hes : document.entries? = some es)
    (hn : (synonymEntries es)[n]? = some e) :
    read (removeSynonym n document) = Checked.ofExcept (readHead es) >>= fun head =>
      ((synonymEntries es).take n).mapM readSynonym >>= fun ks =>
      ((synonymEntries es).drop (n + 1)).mapM readSynonym >>= fun ls =>
      readBody (eraseSynonym n es) head (ks ++ ls).reverse := by
  obtain ⟨v, hv, hps⟩ := exists_of_mem_synonymEntries (List.mem_of_getElem? hn)
  have hes' : (removeSynonym n document).entries? = some (eraseSynonym n es) := by
    rw [removeSynonym, Value.entries?_onEntries, hes, Option.map_some]
  have hv' : Value.lookup "synonyms" (eraseSynonym n es) = some (v.onEntries (·.eraseIdx n)) := by
    rw [eraseSynonym, Value.lookup_onField_self, hv, Option.map_some]
  have hps' : (v.onEntries (·.eraseIdx n)).entries? =
      some ((synonymEntries es).take n ++ (synonymEntries es).drop (n + 1)) := by
    rw [Value.entries?_onEntries, hps, Option.map_some, List.eraseIdx_eq_take_drop_succ]
  have hhead : readHead (eraseSynonym n es) = readHead es :=
    readHead_congr fun name hs _ => Value.lookup_onField_of_ne hs _ _
  rw [read_eq hes', hhead, readSynonyms_eq_mapM hv' hps', List.mapM_append]
  simp only [bind_assoc, pure_bind]

theorem read_removeSynonym (hes : document.entries? = some es)
    (hn : (synonymEntries es)[n]? = some (key, value)) (hname : Grammar.Scalar key name)
    (hd : name = "L" ∨ name = "R") (hi : Grammar.Plain value i) :
    Checked.WarnsMore (.shadowedSynonym name) (read document) (read (removeSynonym n document)) := by
  rw [read_eq_around hes hn, read_removeSynonym_eq hes hn, readSynonym_of_direction hname hd hi]
  refine .bind fun head => .bind fun ks => ?_
  simp only [bind_assoc, pure_bind, readBody_eraseSynonym (i := i) hd]
  have hrest := (Checked.Warns.mapM warns_readSynonym ((synonymEntries es).drop (n + 1))).mono
    (q := fun _ => True) fun _ _ => trivial
  exact .warn (hrest.bind fun ls => (warns_readBody es head _).mono fun _ _ => trivial)

end Remove

/-! ### The whole check -/

theorem filter_unreachable {p : Warning → Bool}
    (hp : ∀ q start, p (.unreachableState q start) = true) (s : Specification) :
    (s.unreachable.map fun q => Warning.unreachableState q s.startState).filter p =
      s.unreachable.map fun q => .unreachableState q s.startState := by
  refine List.filter_eq_self.2 fun w hw => ?_
  obtain ⟨q, -, rfl⟩ := List.mem_map.1 hw
  exact hp q s.startState

theorem check_expandSynonyms {document : Value} {s : Specification}
    (h : ((read document).run []).1 = .ok s) :
    check (expandSynonyms document) =
      ((check document).1, (check document).2.filter fun w => !w.isShadowing) := by
  rw [check, check, read_expandSynonyms h]
  rcases hr : (read document).run [] with ⟨r, ws⟩
  rw [hr] at h
  cases h
  dsimp only
  split
  · rw [List.filter_reverse]
  · rw [List.filter_append, List.filter_reverse, filter_unreachable fun _ _ => rfl]

/-- Where one reading warns of one thing more, so does the check. -/
theorem check_of_warnsMore {document document' : Value} {w : Warning}
    (h : Checked.WarnsMore w (read document) (read document')) :
    ((read document').run []).1 = ((read document).run []).1 ∧
      (check document').1 = (check document).1 ∧
      ((∃ e, (check document).1 = .error e ∧ (check document').2 = (check document).2) ∨
        ∃ us vs, (check document).2 = us ++ w :: vs ∧ (check document').2 = us ++ vs) := by
  rw [check, check]
  rcases h [] with ⟨e, us, hx, hy⟩ | ⟨r, us, vs, hx, hy⟩
  · rw [hx, hy]
    exact ⟨rfl, rfl, .inl ⟨e, rfl, rfl⟩⟩
  · rw [hx, hy]
    refine ⟨rfl, ?_⟩
    cases r with
    | error e => exact ⟨rfl, .inr ⟨vs.reverse, us.reverse, by simp, by simp⟩⟩
    | ok s =>
      dsimp only
      split
      · exact ⟨rfl, .inr ⟨vs.reverse, us.reverse, by simp, by simp⟩⟩
      · exact ⟨rfl, .inr ⟨vs.reverse, us.reverse ++ s.unreachable.map fun q =>
          .unreachableState q s.startState, by simp, by simp⟩⟩

/-- A document that is read means the same with its synonyms written out, and only the warnings
about their names are gone. In any document a synonym that has the name of a direction, and an
instruction as its value, changes nothing but that it is warned of. -/
theorem synonyms_are_abbreviations (document : Value) :
    (∀ s, ((read document).run []).1 = .ok s →
      ((read (expandSynonyms document)).run []).1 = .ok s ∧
        check (expandSynonyms document) =
          ((check document).1, (check document).2.filter fun w => !w.isShadowing)) ∧
      ∀ es n key value name i, document.entries? = some es →
        (synonymEntries es)[n]? = some (key, value) → Grammar.Scalar key name →
        name = "L" ∨ name = "R" → Grammar.Plain value i →
        ((read (removeSynonym n document)).run []).1 = ((read document).run []).1 ∧
          (check (removeSynonym n document)).1 = (check document).1 ∧
          ((∃ e, (check document).1 = .error e ∧
              (check (removeSynonym n document)).2 = (check document).2) ∨
            ∃ us vs, (check document).2 = us ++ .shadowedSynonym name :: vs ∧
              (check (removeSynonym n document)).2 = us ++ vs) := by
  constructor
  · intro s h
    exact ⟨by rw [read_expandSynonyms h], check_expandSynonyms h⟩
  · intro es n key value name i hes hn hname hd hi
    exact check_of_warnsMore (read_removeSynonym hes hn hname hd hi)

/-- One cell goes left although there is a synonym L, the other names the last one called 1. -/
theorem abbreviations_written_out :
    let right := Value.string "R"
    let flip := Value.mapping [(.string "R", .null), (.string "write", .string "1")]
    let one := Value.number (.integer 1)
    let synonyms := [(.string "L", right), (.string "1", right), (one, flip)]
    let table (cell : Value) := Value.mapping
      [(.string "A", .mapping [(.string "0", cell), (one, .string "L")])]
    let fields := [(.string "blank", .string "0"), (.string "start state", .string "A")]
    let document := Value.mapping (fields ++
      [(.string "synonyms", .mapping synonyms), (.string "table", table (.tagged "!t" (.string "1")))])
    let s : Specification := ⟨'0', "A", .ofList [("A", some (.ofList
      [('0', ⟨some '1', .right, none⟩), ('1', .move .left)]))], []⟩
    expandSynonyms document = .mapping (fields ++ [(.string "table", table flip)]) ∧
      ((read (expandSynonyms document)).run []).1 = .ok s ∧
      check (removeSynonym 0 document) = (.ok s, []) := by
  intro right flip one synonyms table fields document s
  have hread : ((read document).run []).1 = .ok s := by decide
  have hcheck : check document = (.ok s, [.shadowedSynonym "L"]) := by decide +kernel
  obtain ⟨hexpand, hremove⟩ := synonyms_are_abbreviations document
  obtain ⟨-, hresult, hwarnings⟩ := hremove _ 0 (.string "L") right "L" (.move .right) rfl rfl
    (.string (.bare nofun)) (.inl rfl) (.right (.bare nofun))
  rw [hcheck] at hresult hwarnings
  refine ⟨rfl, (hexpand s hread).1, Prod.ext hresult ?_⟩
  rcases hwarnings with ⟨e, he, -⟩ | ⟨us, vs, hus, hvs⟩
  · cases he
  · obtain ⟨rfl, h⟩ | ⟨us, rfl, h⟩ := List.cons_eq_append_iff.1 hus
    · cases h
      exact hvs
    · simp at h

end Document

end TuringTable
