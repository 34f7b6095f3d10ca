import TuringTable.Text.Quoted

/-!
# What can be wrong with a specification

A defect with the place it was found at. The place is filled in from the inside out, so what is
closest to the defect stays.
-/

namespace TuringTable

inductive Defect where
  | emptyDocument
  | missingBlank
  | invalidBlank (value : String)
  | missingStartState
  | invalidStartState (type : String)
  | missingTable
  | invalidTableType (type : String)
  | invalidSynonymsType (type : String)
  | invalidInput (value : String)
  | invalidName (value : String)
  | invalidStateEntryType (type : String)
  | invalidSymbol (value : String)
  | missingInstruction
  | invalidInstructionType (type : String)
  | unrecognizedSynonym (name : String)
  | conflictingDirections
  | missingDirection
  | unrecognizedKey (key : String)
  | invalidWriteLength (value : String)
  | invalidTargetState (type : String)
  | undeclaredState (state : String)
  | undeclaredStartState (state : String)
deriving Repr, DecidableEq

namespace Defect

def message : Defect → String
  | emptyDocument => "The document is empty"
  | missingBlank => "No blank symbol was specified"
  | invalidBlank v => "The blank symbol must be a string of length 1, not " ++ Text.quote v
  | missingStartState => "No start state was specified"
  | invalidStartState t => "The start state must be a state name, not a " ++ t
  | missingTable => "Missing transition table"
  | invalidTableType t => "Transition table has an invalid type: " ++ t
  | invalidSynonymsType t => "Synonyms must be a mapping, not a " ++ t
  | invalidInput v => "Input must be a string or a list of symbols, not " ++ Text.quote v
  | invalidName v => "Names must be strings, numbers or booleans, not " ++ Text.quote v
  | invalidStateEntryType t =>
    "A state must be a mapping of symbols to instructions or empty, not a " ++ t
  | invalidSymbol v => "Each symbol must be a single character, not " ++ Text.quote v
  | missingInstruction => "Missing instruction"
  | invalidInstructionType t => "An instruction must be a string or a mapping, not a " ++ t
  | unrecognizedSynonym s => "Unrecognized synonym " ++ Text.quote s
  | conflictingDirections => "Conflicting tape movements: an instruction has both L and R"
  | missingDirection => "Missing tape movement: an instruction needs L or R"
  | unrecognizedKey k => "Unrecognized instruction key " ++ Text.quote k
  | invalidWriteLength v => "write requires a string of length 1, not " ++ Text.quote v
  | invalidTargetState t => "A target state must be a state name, not a " ++ t
  | undeclaredState q => "Undeclared state " ++ Text.quote q
  | undeclaredStartState q =>
    "The start state " ++ Text.quote q ++ " is not declared in the transition table"

/-- The offending value, for the defects that have one. -/
def value? : Defect → Option String
  | emptyDocument | missingBlank | missingStartState | missingTable | missingInstruction
  | conflictingDirections | missingDirection => none
  | invalidBlank v | invalidStartState v | invalidTableType v | invalidSynonymsType v
  | invalidInput v | invalidName v | invalidStateEntryType v | invalidSymbol v
  | invalidInstructionType v | unrecognizedSynonym v | unrecognizedKey v | invalidWriteLength v
  | invalidTargetState v | undeclaredState v | undeclaredStartState v => some v

end Defect

/-- Where in a document something lies, as far as it is known. -/
structure Place where
  state : Option String
  symbol : Option String
  synonym : Option String
deriving Repr, DecidableEq

namespace Place

def unknown : Place := ⟨none, none, none⟩

def text (p : Place) : String :=
  let parts := [p.synonym.map fun s => s!"synonym '{s}'", p.state.map fun s => s!"state '{s}'",
    p.symbol.map fun s => s!"symbol '{s}'"].reduceOption
  if parts.isEmpty then "" else " (in " ++ ", ".intercalate parts ++ ")"

end Place

structure SpecError where
  defect : Defect
  place : Place
deriving Repr, DecidableEq

namespace SpecError

/-- A defect at a place that nothing is known of. -/
def of (d : Defect) : SpecError := ⟨d, .unknown⟩

def inState (e : SpecError) (q : String) : SpecError :=
  { e with place := { e.place with state := some (e.place.state.getD q) } }

def atSymbol (e : SpecError) (s : String) : SpecError :=
  { e with place := { e.place with symbol := some (e.place.symbol.getD s) } }

def inSynonym (e : SpecError) (s : String) : SpecError :=
  { e with place := { e.place with synonym := some (e.place.synonym.getD s) } }

def message (e : SpecError) : String := e.defect.message ++ e.place.text

end SpecError

end TuringTable
