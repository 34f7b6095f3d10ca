import TuringTable.Text.Quoted
import TuringTable.Yaml.Character

/-!
# Faults of a text

Why a text has no value. A `Fault` is a cause with the place it was found at; `Fault.message`
says it in words and `Fault.place?` tells where it lies, counted from one.
-/

namespace TuringTable.Yaml

inductive Activity where
  | token | simpleKey | anchor | aliasName | tag | tagName | directive | versionDirective
  | tagDirective | tagDirectiveHandle | tagDirectiveWord | tagDirectiveName | blockScalar
  | quotedText | quotedEscape | plainScalar
  | node | blockNode | flowNode | blockSequence | blockMapping | flowSequence | flowMapping
deriving Repr, DecidableEq

def Activity.text : Activity → String
  | token => "while scanning for the next token"
  | simpleKey => "while scanning a simple key"
  | anchor => "while scanning an anchor"
  | aliasName => "while scanning an alias"
  | tag => "while scanning a tag"
  | tagName => "while parsing a tag"
  | directive => "while scanning a directive"
  | versionDirective => "while scanning a %YAML directive"
  | tagDirective => "while scanning a %TAG directive"
  | tagDirectiveHandle => "while scanning a tag directive"
  | tagDirectiveWord => "while parsing a tag directive"
  | tagDirectiveName => "while parsing a %TAG directive"
  | blockScalar => "while scanning a block scalar"
  | quotedText => "while scanning a quoted scalar"
  | quotedEscape => "while parsing a quoted scalar"
  | plainScalar => "while scanning a plain scalar"
  | node => "while parsing a node"
  | blockNode => "while parsing a block node"
  | flowNode => "while parsing a flow node"
  | blockSequence => "while parsing a block collection"
  | blockMapping => "while parsing a block mapping"
  | flowSequence => "while parsing a flow sequence"
  | flowMapping => "while parsing a flow mapping"

inductive Problem where
  | strayCharacter | noColon | entryNotAllowed | keyNotAllowed | valueNotAllowed
  | noAnchorName | noTagEnd | noTagBang | noTagName | noTagOctet | badLeadingOctet
  | badTrailingOctet | noSpaceAfterTag | noDirectiveName | badDirectiveName | unknownDirective
  | longVersion | noVersion | noVersionPoint | noSpaceInDirective | noSpaceAfterDirective
  | noLineEnd | zeroIndentation | tabInIndentation | documentMarkerInQuotes | endInQuotes
  | unknownEscape | noHexDigit | badEscapedCode | colonInFlow | tabInPlainIndentation
  | noDocumentStart | repeatedVersion | wrongVersion | repeatedTagHandle | undefinedTagHandle
  | noNode | noDash | noKey | noCommaOrBracket | noCommaOrBrace
deriving Repr, DecidableEq

def Problem.text : Problem → String
  | strayCharacter => "found character that cannot start any token"
  | noColon => "could not find expected ':'"
  | entryNotAllowed => "block sequence entries are not allowed in this context"
  | keyNotAllowed => "mapping keys are not allowed in this context"
  | valueNotAllowed => "mapping values are not allowed in this context"
  | noAnchorName => "did not find expected alphabetic or numeric character"
  | noTagEnd => "did not find the expected '>'"
  | noTagBang => "did not find expected '!'"
  | noTagName => "did not find expected tag URI"
  | noTagOctet => "did not find URI escaped octet"
  | badLeadingOctet => "found an incorrect leading UTF-8 octet"
  | badTrailingOctet => "found an incorrect trailing UTF-8 octet"
  | noSpaceAfterTag => "did not find expected whitespace or line break"
  | noDirectiveName => "could not find expected directive name"
  | badDirectiveName => "found unexpected non-alphabetical character"
  | unknownDirective => "found unknown directive name"
  | longVersion => "found extremely long version number"
  | noVersion => "did not find expected version number"
  | noVersionPoint => "did not find expected digit or '.' character"
  | noSpaceInDirective => "did not find expected whitespace"
  | noSpaceAfterDirective => "did not find expected whitespace or line break"
  | noLineEnd => "did not find expected comment or line break"
  | zeroIndentation => "found an indentation indicator equal to 0"
  | tabInIndentation => "found a tab character where an indentation space is expected"
  | documentMarkerInQuotes => "found unexpected document indicator"
  | endInQuotes => "found unexpected end of stream"
  | unknownEscape => "found unknown escape character"
  | noHexDigit => "did not find expected hexadecimal number"
  | badEscapedCode => "found invalid Unicode character escape code"
  | colonInFlow => "found unexpected ':'"
  | tabInPlainIndentation => "found a tab character that violates indentation"
  | noDocumentStart => "did not find expected <document start>"
  | repeatedVersion => "found duplicate %YAML directive"
  | wrongVersion => "found incompatible YAML document"
  | repeatedTagHandle => "found duplicate %TAG directive"
  | undefinedTagHandle => "found undefined tag handle"
  | noNode => "did not find expected node content"
  | noDash => "did not find expected '-' indicator"
  | noKey => "did not find expected key"
  | noCommaOrBracket => "did not find expected ',' or ']'"
  | noCommaOrBrace => "did not find expected ',' or '\x7d'"

inductive Path where
  | root
  | item (parent : Path) (index : Nat)
  | field (parent : Path) (key : String)
  | unnamed (parent : Path)
  /-- What an alias stands for. -/
  | followed (parent : Path)
deriving Repr, DecidableEq

namespace Path

mutual

/-- Keys are joined by points and indices stand in brackets; the root is a point. -/
def text : Path → String
  | root => "."
  | item p i => text p ++ s!"[{i}]"
  | field p k => stem p ++ k
  | unnamed p => stem p ++ "?"
  | followed p => text p

/-- What stands before a key of the value at a path. -/
def stem : Path → String
  | root => ""
  | item p i => text p ++ s!"[{i}]."
  | field p k => stem p ++ k ++ "."
  | unnamed p => stem p ++ "?."
  | followed p => text p ++ "."

end

end Path

inductive Expected where
  | boolean | integer | float | null
deriving Repr, DecidableEq

def Expected.text : Expected → String
  | boolean => "a boolean"
  | integer => "an integer"
  | float => "a float"
  | null => "null"

/-- The key that a mapping holds already, as far as a message tells it. -/
inductive RepeatedKey where
  | null
  | boolean (b : Bool)
  | number (text : String)
  | string (s : String)
  | other
deriving Repr, DecidableEq

def RepeatedKey.text : RepeatedKey → String
  | null => "with null key"
  | boolean b => s!"with key `{b}`"
  | number n => s!"with key {n}"
  | string s => "with key " ++ Text.quote s
  | other => "in YAML map"

inductive Misfit where
  | repeatedKey (key : RepeatedKey)
  | notA (expected : Expected) (text : String)
  | hugeInteger (n : Int)
deriving Repr, DecidableEq

def Misfit.text : Misfit → String
  | repeatedKey k => "duplicate entry " ++ k.text
  | notA e s => "invalid value: string " ++ Text.quote s ++ ", expected " ++ e.text
  | hugeInteger n =>
    let width := if n < 0 then "i128" else "u128"
    s!"invalid type: integer `{n}` as {width}, expected any YAML value"

inductive Fault where
  /-- A character that no text may hold, at an offset in bytes. -/
  | control (offset : Nat)
  | form (problem : Problem) (mark : Mark) (during : Option (Activity × Mark))
  | unknownAnchor (mark : Mark)
  | misfit (what : Misfit) (mark : Mark) (path : Path)
  | tooDeep (mark : Mark)
  | tooManyAliases
  | moreDocuments
deriving Repr, DecidableEq

namespace Fault

def message : Fault → String
  | control 0 => "control characters are not allowed"
  | control n => s!"control characters are not allowed at position {n}"
  | form p m during =>
    let context := match during with
      | none => ""
      | some (a, m') => ", " ++ a.text ++ if m'.sameSpot m then "" else m'.suffix
    p.text ++ m.suffix ++ context
  | unknownAnchor m => "unknown anchor" ++ m.suffix
  | misfit w m path =>
    let way := if path.text == "." then "" else path.text ++ ": "
    way ++ w.text ++ m.suffix
  | tooDeep m => "recursion limit exceeded" ++ m.suffix
  | tooManyAliases => "repetition limit exceeded"
  | moreDocuments => "deserializing from YAML containing more than one document is not supported"

def mark? : Fault → Option Mark
  | control _ => some .origin
  | form _ m _ => some m
  | unknownAnchor m => some m
  | misfit _ m _ => some m
  | tooDeep m => some m
  | tooManyAliases => none
  | moreDocuments => none

/-- Line and column, counted from one. -/
def place? (f : Fault) : Option (Nat × Nat) :=
  f.mark?.map fun m => (m.line + 1, m.column + 1)

end Fault

end TuringTable.Yaml
