import TuringTable.Yaml.Character

/-!
# Tokens

The words of a text: its scalars and names, its indicators, and the beginnings and ends that its
indentation stands for.
-/

namespace TuringTable.Yaml

inductive Token.Kind where
  | streamEnd
  | versionDirective (major minor : Nat)
  | tagDirective (handle stem : String)
  | documentStart
  | documentEnd
  | blockSequenceStart
  | blockMappingStart
  | blockEnd
  | flowSequenceStart
  | flowSequenceEnd
  | flowMappingStart
  | flowMappingEnd
  | dash
  | comma
  | key
  | value
  | anchor (name : String)
  | aliasName (name : String)
  | tag (handle name : String)
  | scalar (text : String) (plain : Bool)
deriving Repr, DecidableEq

/-- A word of a text and where it begins. -/
structure Token where
  kind : Token.Kind
  mark : Mark
deriving Repr, DecidableEq

end TuringTable.Yaml
