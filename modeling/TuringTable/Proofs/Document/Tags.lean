import TuringTable.Program
import TuringTable.Proofs.Document.Checked
import TuringTable.Proofs.Document.Edit

/-!
# Tags

Tags carry no meaning. `strip` takes them all away, and whatever is looked at under the tags is the
same without them: the text of a scalar, the entries of a mapping, what a message says of a value. So
every reader reads the same (`read_stripDocument`). Only the fields of the document are found by keys
without a tag, which therefore stay as they are, and a field with a tagged null is not left out.
-/

namespace TuringTable

namespace Yaml.Value

mutual

/-- The value without its tags, also those of its items, keys and entries. -/
def strip : Value → Value
  | tagged _ v => strip v
  | sequence items => sequence (stripItems items)
  | mapping es => mapping (stripEntries es)
  | v => v
termination_by structural v => v

def stripItems : List Value → List Value
  | [] => []
  | v :: vs => strip v :: stripItems vs
termination_by structural vs => vs

def stripEntries : List (Value × Value) → List (Value × Value)
  | [] => []
  | e :: es => stripEntry e :: stripEntries es
termination_by structural es => es

def stripEntry : Value × Value → Value × Value
  | (k, v) => (strip k, strip v)
termination_by structural e => e

end

theorem stripItems_eq_map (vs : List Value) : stripItems vs = vs.map strip := by
  induction vs with
  | nil => rfl
  | cons v vs ih => rw [stripItems, ih, List.map_cons]

theorem stripEntries_eq_map (es : List (Value × Value)) : stripEntries es = es.map stripEntry := by
  induction es with
  | nil => rfl
  | cons e es ih => rw [stripEntries, ih, List.map_cons]

theorem stripEntry_eq (e : Value × Value) : stripEntry e = (e.1.strip, e.2.strip) := by
  rw [stripEntry.eq_def]

/-- What a value is without its tags is seen under the outer ones. -/
theorem strip_eq (v : Value) :
    v.strip = match v.untag with
      | sequence items => sequence (items.map strip)
      | mapping es => mapping (es.map stripEntry)
      | w => w := by
  induction v using untag.induct with
  | case1 t v ih => rw [strip, ih, untag_tagged]
  | case2 v h =>
    rw [untag_of_ne_tagged h]
    cases v with
    | tagged t v => exact absurd rfl (h t v)
    | sequence items => rw [strip, stripItems_eq_map]
    | mapping es => rw [strip, stripEntries_eq_map]
    | _ => rfl

theorem untag_strip (v : Value) : v.strip.untag = v.strip := by
  induction v using untag.induct with
  | case1 t v ih => rw [strip, ih]
  | case2 v h =>
    cases v with
    | tagged t v => exact absurd rfl (h t v)
    | _ => rfl

@[simp] theorem text?_strip (v : Value) : v.strip.text? = v.text? := by
  rw [text?, text?, untag_strip, strip_eq]
  cases v.untag <;> rfl

@[simp] theorem string?_strip (v : Value) : v.strip.string? = v.string? := by
  rw [string?, string?, untag_strip, strip_eq]
  cases v.untag <;> rfl

@[simp] theorem typeName_strip (v : Value) : v.strip.typeName = v.typeName := by
  rw [typeName, typeName, untag_strip, strip_eq]
  cases v.untag <;> rfl

theorem entries?_strip (v : Value) : v.strip.entries? = v.entries?.map (·.map stripEntry) := by
  rw [entries?, entries?, untag_strip, strip_eq]
  cases v.untag <;> rfl

theorem strip_eq_null_iff {v : Value} : v.strip = null ↔ v.untag = null := by
  rw [strip_eq]
  cases v.untag <;> simp

mutual

theorem describe_strip (v : Value) : v.strip.describe = v.describe := by
  cases v with
  | tagged t v => rw [strip, describe_strip v, describe]
  | sequence items => rw [strip, describe, describe, describeItems_strip items]
  | _ => rfl
termination_by structural v

theorem describeItems_strip (vs : List Value) : describeItems (stripItems vs) = describeItems vs := by
  cases vs with
  | nil => rfl
  | cons v vs => rw [stripItems, describeItems, describeItems, describe_strip v, describeItems_strip vs]
termination_by structural vs

end

/-! ### The fields of a document -/

/-- A key of the document keeps its own tags. -/
def stripKey : Value → Value
  | tagged t k => tagged t (stripKey k)
  | k => k.strip

def stripFields (es : List (Value × Value)) : List (Value × Value) :=
  es.map fun e => (stripKey e.1, e.2.strip)

/-- The document without tags, but for those on its keys. -/
def stripDocument (document : Value) : Value :=
  document.entries?.elim document.strip fun es => mapping (stripFields es)

theorem isField_stripKey (name : String) (k : Value) : k.stripKey.isField name = k.isField name := by
  cases k <;> rfl

theorem lookup_stripFields (name : String) (es : List (Value × Value)) :
    lookup name (stripFields es) = (lookup name es).map strip := by
  induction es with
  | nil => rfl
  | cons e es ih =>
    obtain ⟨k, v⟩ := e
    rw [stripFields, List.map_cons, ← stripFields, lookup_cons, lookup_cons, isField_stripKey, ih]
    split <;> rfl

theorem entries?_stripDocument (document : Value) :
    document.stripDocument.entries? = document.entries?.map stripFields := by
  rw [stripDocument]
  cases h : document.entries? with
  | none => rw [Option.elim_none, entries?_strip, h, Option.map_none, Option.map_none]
  | some es => rfl

end Yaml.Value

namespace Document

open Yaml (Value)
open Yaml.Value

/-! ### Scalars and symbols -/

theorem symbol?_strip (v : Value) : symbol? v.strip = symbol? v := by
  rw [symbol?, symbol?, text?_strip]

theorem readName_strip (v : Value) : readName v.strip = readName v := by
  rw [readName, readName, text?_strip, describe_strip]

theorem readSymbolList_strip {defect : Value → Defect} (h : ∀ v, defect v.strip = defect v)
    (items : List Value) :
    readSymbolList defect (items.map strip) = readSymbolList defect items := by
  simp only [readSymbolList, List.mapM_map, Function.comp_def, symbol?_strip, h]

theorem readSymbols_strip (key : Value) : readSymbols key.strip = readSymbols key := by
  rw [readSymbols, readSymbols, untag_strip, strip_eq]
  cases key.untag with
  | sequence items =>
    exact readSymbolList_strip (fun v => by rw [describe_strip]) items
  | _ => rfl

/-! ### Instructions -/

/-- The parts without their tags. -/
def Parts.strip (p : Parts) : Parts :=
  ⟨p.left.map .strip, p.right.map .strip, p.write.map .strip, p.unknown.map .strip⟩

theorem Parts.add_strip (p : Parts) (k v : Value) :
    p.strip.add k.strip v.strip = (p.add k v).strip := by
  rw [add, add, string?_strip]
  split
  · rfl
  · rfl
  · rfl
  · rw [strip, strip, Option.getD_map]
    rfl

theorem Parts.ofEntries_strip (ps : List (Value × Value)) :
    ofEntries (ps.map stripEntry) = (ofEntries ps).strip := by
  rw [ofEntries, ofEntries, List.foldl_map]
  show ps.foldl _ (strip ⟨none, none, none, none⟩) = _
  refine List.foldl_hom Parts.strip fun p e => ?_
  rw [stripEntry_eq, add_strip]

theorem readTarget_strip (v : Value) : readTarget v.strip = readTarget v := by
  rw [readTarget, readTarget, untag_strip, strip_eq]
  cases v.untag <;> rfl

theorem readWrite_strip (v? : Option Value) : readWrite (v?.map .strip) = readWrite v? := by
  cases v? with
  | none => rfl
  | some v => rw [Option.map_some, readWrite, readWrite, symbol?_strip, describe_strip]

theorem readParts_strip (p : Parts) : readParts p.strip = readParts p := by
  have hmove : p.strip.move = p.move.map fun m => (m.1, m.2.strip) := by
    rw [Parts.move, Parts.move, Parts.strip]
    cases p.left <;> cases p.right <;> rfl
  rw [readParts, readParts, hmove]
  cases p.move with
  | error e => rfl
  | ok m =>
    simp only [Except.map, bind, Except.bind, readTarget_strip, Parts.strip, readWrite_strip]
    cases p.unknown with
    | none => rfl
    | some key => simp only [Option.map_some, describe_strip]

theorem readInstruction_strip (synonyms : Synonyms) (v : Value) :
    readInstruction synonyms v.strip = readInstruction synonyms v := by
  rw [readInstruction, readInstruction, untag_strip, strip_eq]
  cases v.untag with
  | mapping ps =>
    show readParts (.ofEntries (ps.map stripEntry)) = readParts (.ofEntries ps)
    rw [Parts.ofEntries_strip, readParts_strip]
  | _ => rfl

/-! ### Synonyms and states -/

theorem addSynonym_strip (acc : Synonyms) (e : Value × Value) :
    addSynonym acc (stripEntry e).1 (stripEntry e).2 = addSynonym acc e.1 e.2 := by
  rw [stripEntry_eq, addSynonym, addSynonym, readName_strip, readInstruction_strip]

theorem addCell_strip (synonyms : Synonyms) (row : Row) (e : Value × Value) :
    addCell synonyms row (stripEntry e).1 (stripEntry e).2 = addCell synonyms row e.1 e.2 := by
  rw [stripEntry_eq, addCell, addCell, describe_strip, readSymbols_strip, readInstruction_strip]

theorem readEntry_strip (synonyms : Synonyms) (v : Value) :
    readEntry synonyms v.strip = readEntry synonyms v := by
  rw [readEntry, readEntry, untag_strip, strip_eq]
  cases v.untag with
  | mapping cells =>
    show some <$> readRow synonyms (cells.map stripEntry) = some <$> readRow synonyms cells
    rw [readRow, readRow, List.foldlM_map]
    simp only [addCell_strip]
  | _ => rfl

theorem addState_strip (synonyms : Synonyms) (table : Table) (e : Value × Value) :
    addState synonyms table (stripEntry e).1 (stripEntry e).2 = addState synonyms table e.1 e.2 := by
  rw [stripEntry_eq, addState, addState, readName_strip, readEntry_strip]

/-! ### The document -/

/-- A field is no null with a tag on it. -/
def NotTaggedNull (v? : Option Value) : Prop := ∀ v, v? = some v → v.untag = .null → v = .null

/-- What is read alike with tags and without, but for null, is read alike. -/
theorem read_map_strip {α : Type} {read : Option Value → α}
    (h : ∀ v : Value, v ≠ .null → v.strip ≠ .null → read (some v.strip) = read (some v))
    {v? : Option Value} (hv : NotTaggedNull v?) : read (v?.map .strip) = read v? := by
  cases v? with
  | none => rfl
  | some v =>
    by_cases hnull : v = .null
    · rw [hnull]
      rfl
    · exact h v hnull fun hs => hnull (hv v rfl (strip_eq_null_iff.1 hs))

section Fields
variable {v? : Option Value} (h : NotTaggedNull v?)
include h

theorem readBlank_strip : readBlank (v?.map .strip) = readBlank v? := by
  refine read_map_strip (fun v hv hs => ?_) h
  rw [readBlank.eq_3 _ hs, readBlank.eq_3 v hv, symbol?_strip, describe_strip]

theorem readStartState_strip : readStartState (v?.map .strip) = readStartState v? := by
  refine read_map_strip (fun v hv hs => ?_) h
  rw [readStartState.eq_3 _ hs, readStartState.eq_3 v hv, text?_strip, typeName_strip]

theorem readInput_strip : readInput (v?.map .strip) = readInput v? := by
  refine read_map_strip (fun v hv hs => ?_) h
  rw [readInput.eq_3 _ hs, readInput.eq_3 v hv, untag_strip, strip_eq]
  cases v.untag with
  | sequence items => exact readSymbolList_strip (fun v => by rw [describe_strip]) items
  | _ => rfl

theorem readSynonyms_strip : readSynonyms (v?.map .strip) = readSynonyms v? := by
  refine read_map_strip (fun v hv hs => ?_) h
  rw [readSynonyms.eq_3 _ hs, readSynonyms.eq_3 v hv, Checked.ofExcept_orFail_bind,
    Checked.ofExcept_orFail_bind, entries?_strip, typeName_strip]
  cases v.entries? with
  | none => rfl
  | some es =>
    rw [Option.map_some, Option.elim_some, Option.elim_some, List.foldlM_map]
    simp only [addSynonym_strip]

theorem readTable_strip (synonyms : Synonyms) :
    readTable synonyms (v?.map .strip) = readTable synonyms v? := by
  refine read_map_strip (fun v hv hs => ?_) h
  rw [readTable.eq_3 _ _ hs, readTable.eq_3 _ v hv, Checked.ofExcept_orFail_bind,
    Checked.ofExcept_orFail_bind, entries?_strip, typeName_strip]
  cases v.entries? with
  | none => rfl
  | some es =>
    rw [Option.map_some, Option.elim_some, Option.elim_some, List.foldlM_map]
    simp only [addState_strip]

end Fields

/-- A document is read as it is without its tags. -/
theorem read_stripDocument {document : Value}
    (h : ∀ es, document.entries? = some es → ∀ name ∈ fieldNames,
      NotTaggedNull (Value.lookup name es)) :
    read document.stripDocument = read document := by
  rw [read, read, Checked.ofExcept_orFail_bind, Checked.ofExcept_orFail_bind,
    entries?_stripDocument]
  cases hes : document.entries? with
  | none => rfl
  | some es =>
    have hfield (name : String) (hname : name ∈ fieldNames) := h es hes name hname
    simp only [Option.map_some, Option.elim_some, lookup_stripFields,
      readBlank_strip (hfield "blank" (by decide)),
      readStartState_strip (hfield "start state" (by decide)),
      readInput_strip (hfield "input" (by decide)),
      readSynonyms_strip (hfield "synonyms" (by decide)),
      readTable_strip (hfield "table" (by decide))]

/-- Without its tags a document gives the same specification or the same error, and the same
warnings, unless a field is a null with a tag. -/
theorem tags_carry_no_meaning (document : Value)
    (h : ∀ es, document.entries? = some es → ∀ name ∈ fieldNames,
      NotTaggedNull (Value.lookup name es)) :
    (read document.stripDocument).run [] = (read document).run [] ∧
      check document.stripDocument = check document := by
  have hread := read_stripDocument h
  exact ⟨by rw [hread], by rw [check, check, hread]⟩

/-- Tags on values, items and keys go, but a key of the document with a tag names no field. -/
theorem tags_taken_away :
    let right := Value.mapping [(.tagged "!d" (.string "R"), .tagged "!n" .null)]
    let row := Value.mapping
      [(.sequence [.tagged "!x" (.string "0"), .string "0"], .tagged "!i" (.tagged "!j" right))]
    let document := Value.tagged "!m" (.mapping [(.string "blank", .tagged "!c" (.string "0")),
      (.string "start state", .string "A"), (.tagged "!k" (.string "input"), .string "11"),
      (.string "table", .mapping [(.tagged "!s" (.string "A"), row)])])
    document.stripDocument = .mapping [(.string "blank", .string "0"),
        (.string "start state", .string "A"), (.tagged "!k" (.string "input"), .string "11"),
        (.string "table", .mapping [(.string "A", .mapping
          [(.sequence [.string "0", .string "0"], .mapping [(.string "R", .null)])])])] ∧
      (read document.stripDocument).run [] =
        (.ok ⟨'0', "A", .ofList [("A", some (.ofList [('0', .move .right)]))], []⟩,
          [.repeatedSymbol '0']) := by
  intro right row document
  refine ⟨rfl, (tags_carry_no_meaning document ?_).1.trans rfl⟩
  intro es hes name hname v hv hnull
  cases hes
  simp only [fieldNames, List.mem_cons, List.not_mem_nil, or_false] at hname
  rcases hname with rfl | rfl | rfl | rfl | rfl <;> cases hv <;> cases hnull

/-- A null with a tag is not left out. -/
example :
    let document := Value.mapping [(.string "blank", .tagged "!t" .null)]
    ((read document).run []).1 = .error (.of (.invalidBlank "null")) ∧
      ((read document.stripDocument).run []).1 = .error (.of .missingBlank) := by
  decide

end Document

end TuringTable
