import TuringTable.SpecError
import TuringTable.Specification
import TuringTable.Yaml.Value

/-!
# Documents

How a value describes a machine. A document is a mapping with `blank`, `start state`, `input`,
`synonyms` and `table`; `Document.read` checks them in this order and stops at the first defect.
The warnings on the way are kept, also those before a defect.
-/

namespace TuringTable

/-- Something worth a word that is no defect. -/
inductive Warning where
  | shadowedSynonym (name : String)
  | repeatedState (state : String)
  | repeatedSymbol (symbol : Char)
  | unreachableState (state start : String)
deriving Repr, DecidableEq

def Warning.text : Warning → String
  | shadowedSynonym s => s!"Synonym '{s}' is shadowed by the built-in direction '{s}'"
  | repeatedState q => s!"State '{q}' is declared more than once; the last declaration wins"
  | repeatedSymbol c => s!"Symbol '{c}' is listed more than once; the last entry wins"
  | unreachableState q s => s!"State '{q}' is unreachable from '{s}'"

/-- A result or a defect, with the warnings so far, last one first. -/
abbrev Checked := ExceptT SpecError (StateM (List Warning))

namespace Checked

def warn (w : Warning) : Checked Unit := modify (w :: ·)

/-- A result that no warning comes with. -/
def ofExcept {α : Type} (x : Except SpecError α) : Checked α := ExceptT.mk (pure x)

def locate {α : Type} (f : SpecError → SpecError) (x : Checked α) : Checked α :=
  ExceptT.adapt f x

end Checked

namespace Document

open Yaml (Value)

def fail {α : Type} (d : Defect) : Except SpecError α := .error (.of d)

/-- The first defect found, if `x` is not there. -/
def orFail {α : Type} (x : Option α) (d : Defect) : Except SpecError α := x.elim (fail d) .ok

def onlyChar? (s : String) : Option Char :=
  match s.toList with
  | [c] => some c
  | _ => none

/-- The symbol that a scalar of one character names. -/
def symbol? (v : Value) : Option Char := v.text?.bind onlyChar?

def readBlank : Option Value → Except SpecError Char
  | none | some .null => fail .missingBlank
  | some v => orFail (symbol? v) (.invalidBlank v.describe)

def readStartState : Option Value → Except SpecError String
  | none | some .null => fail .missingStartState
  | some v => orFail v.text? (.invalidStartState v.typeName)

/-- The symbols of a list of scalars; `defect` is what to say of an item that is none. -/
def readSymbolList (defect : Value → Defect) (items : List Value) : Except SpecError (List Char) :=
  items.mapM fun v => orFail (symbol? v) (defect v)

/-- The input is a text or a list of symbols. -/
def readInput : Option Value → Except SpecError (List Char)
  | none | some .null => .ok []
  | some v =>
    match v.untag with
    | .sequence items => readSymbolList (fun v => .invalidInput v.describe) items
    | v => orFail (v.text?.map String.toList) (.invalidInput v.describe)

def readName (v : Value) : Except SpecError String := orFail v.text? (.invalidName v.describe)

def splitCommas (cs : List Char) : List (List Char) :=
  cs.foldr (fun c parts =>
    if c = ',' then [] :: parts
    else match parts with
      | [] => [[c]]
      | p :: ps => (c :: p) :: ps) [[]]

/-- The symbol between two commas. -/
def readPart : List Char → Except SpecError Char
  | [c] => .ok c
  | cs => fail (.invalidSymbol (String.ofList cs))

/-- The symbols that a text names: the text itself if it is one character, otherwise the parts
between its commas. -/
def symbolsOfText (s : String) : Except SpecError (List Char) :=
  match onlyChar? s with
  | some c => .ok [c]
  | none => (splitCommas s.toList).mapM readPart

/-- The symbols that a key of a state's entry names. -/
def readSymbols (key : Value) : Except SpecError (List Char) :=
  match key.untag with
  | .sequence items => readSymbolList (fun v => .invalidSymbol v.describe) items
  | v => do
    let s ← orFail v.text? (.invalidSymbol v.describe)
    symbolsOfText s

/-- The parts of an instruction written as a mapping; of parts with one name the last counts. -/
structure Parts where
  left : Option Value
  right : Option Value
  write : Option Value
  /-- The first key that names no part. -/
  unknown : Option Value

namespace Parts

def add (p : Parts) (key value : Value) : Parts :=
  match key.string? with
  | some "L" => { p with left := some value }
  | some "R" => { p with right := some value }
  | some "write" => { p with write := some value }
  | _ => { p with unknown := some (p.unknown.getD key) }

def ofEntries (es : List (Value × Value)) : Parts :=
  es.foldl (fun p e => p.add e.1 e.2) ⟨none, none, none, none⟩

/-- The direction and what is written for the state to enter. -/
def move (p : Parts) : Except SpecError (Direction × Value) :=
  match p.left, p.right with
  | some _, some _ => fail .conflictingDirections
  | none, none => fail .missingDirection
  | some target, none => .ok (.left, target)
  | none, some target => .ok (.right, target)

end Parts

/-- The state to enter; null stays in the state. -/
def readTarget (v : Value) : Except SpecError (Option String) :=
  match v.untag with
  | .null => .ok none
  | v => (orFail v.text? (.invalidTargetState v.typeName)).map some

def readWrite : Option Value → Except SpecError (Option Char)
  | none => .ok none
  | some v => (orFail (symbol? v) (.invalidWriteLength v.describe)).map some

def readParts (p : Parts) : Except SpecError Instruction := do
  let (direction, target) ← p.move
  let nextState ← readTarget target
  let write ← readWrite p.write
  match p.unknown with
  | some key => fail (.unrecognizedKey key.describe)
  | none => return ⟨write, direction, nextState⟩

/-- The named instructions, last one first. -/
abbrev Synonyms := List (String × Instruction)

/-- An instruction: a direction, a synonym or a mapping. -/
def readInstruction (synonyms : Synonyms) (v : Value) : Except SpecError Instruction :=
  match v.untag with
  | .null => fail .missingInstruction
  | .string "L" => .ok (.move .left)
  | .string "R" => .ok (.move .right)
  | .string s => orFail (synonyms.lookup s) (.unrecognizedSynonym s)
  | .mapping es => readParts (.ofEntries es)
  | v => fail (.invalidInstructionType v.typeName)

/-- Adds a synonym. It cannot refer to others. -/
def addSynonym (synonyms : Synonyms) (key value : Value) : Checked Synonyms := do
  let name ← Checked.ofExcept (readName key)
  if name = "L" ∨ name = "R" then Checked.warn (.shadowedSynonym name)
  let i ← Checked.locate (·.inSynonym name) (Checked.ofExcept (readInstruction [] value))
  return (name, i) :: synonyms

def readSynonyms : Option Value → Checked Synonyms
  | none | some .null => return []
  | some v => do
    let es ← Checked.ofExcept (orFail v.entries? (.invalidSynonymsType v.typeName))
    es.foldlM (fun acc e => addSynonym acc e.1 e.2) []

def addSymbol (i : Instruction) (row : Row) (c : Char) : Checked Row := do
  if row.contains c then Checked.warn (.repeatedSymbol c)
  return row.insert c i

/-- Puts an instruction under all symbols that a key names. -/
def addCell (synonyms : Synonyms) (row : Row) (key value : Value) : Checked Row := do
  let place := (·.atSymbol key.describe)
  let symbols ← Checked.locate place (Checked.ofExcept (readSymbols key))
  let i ← Checked.locate place (Checked.ofExcept (readInstruction synonyms value))
  symbols.foldlM (addSymbol i) row

def readRow (synonyms : Synonyms) (cells : List (Value × Value)) : Checked Row :=
  cells.foldlM (fun row e => addCell synonyms row e.1 e.2) ∅

/-- The entry of a state: null for a halting state, otherwise its cells. -/
def readEntry (synonyms : Synonyms) (v : Value) : Checked (Option Row) :=
  match v.untag with
  | .null => return none
  | .mapping cells => some <$> readRow synonyms cells
  | v => Checked.ofExcept (fail (.invalidStateEntryType v.typeName))

def addState (synonyms : Synonyms) (table : Table) (key value : Value) : Checked Table := do
  let q ← Checked.ofExcept (readName key)
  let entry ← Checked.locate (·.inState q) (readEntry synonyms value)
  if table.contains q then Checked.warn (.repeatedState q)
  return table.insert q entry

def readTable (synonyms : Synonyms) : Option Value → Checked Table
  | none | some .null => Checked.ofExcept (fail .missingTable)
  | some v => do
    let es ← Checked.ofExcept (orFail v.entries? (.invalidTableType v.typeName))
    es.foldlM (fun table e => addState synonyms table e.1 e.2) ∅

/-- The specification that a document describes. Whether the states it names are declared is not
checked here. -/
def read (document : Value) : Checked Specification := do
  let es ← Checked.ofExcept (orFail document.entries? .emptyDocument)
  let blank ← Checked.ofExcept (readBlank (Value.lookup "blank" es))
  let start ← Checked.ofExcept (readStartState (Value.lookup "start state" es))
  let input ← Checked.ofExcept (readInput (Value.lookup "input" es))
  let synonyms ← readSynonyms (Value.lookup "synonyms" es)
  let table ← readTable synonyms (Value.lookup "table" es)
  return ⟨blank, start, table, input⟩

end Document

end TuringTable
