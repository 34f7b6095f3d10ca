/-!
# Characters and places of the text form
-/

namespace TuringTable.Yaml

/-- A character that may stand in a text. -/
def isAllowed (c : Char) : Bool :=
  c == '\t' || c == '\n' || c == '\r' || (' ' ≤ c && c ≤ '~') || c == '\u0085' ||
    ('\u00a0' ≤ c && c ≤ '\ufffd') || 0x10000 ≤ c.toNat

def isSpace (c : Char) : Bool := c == ' ' || c == '\t'

def isBreak (c : Char) : Bool :=
  c == '\r' || c == '\n' || c == '\u0085' || c == '\u2028' || c == '\u2029'

def isSpaceOrBreak (c : Char) : Bool := isSpace c || isBreak c

/-- The characters of names and anchors. -/
def isWord (c : Char) : Bool :=
  ('0' ≤ c && c ≤ '9') || ('A' ≤ c && c ≤ 'Z') || ('a' ≤ c && c ≤ 'z') || c == '_' || c == '-'

/-- The characters of a tag, the escaped ones and those that only stand between `<` and `>`
apart. -/
def isTagChar (c : Char) : Bool :=
  isWord c || ";/?:@&=+$.!~*()".toList.contains c || c == '\x27'

/-- The characters that have a meaning of their own between brackets. -/
def isFlowIndicator (c : Char) : Bool :=
  c == ',' || c == '[' || c == ']' || c == '\x7b' || c == '\x7d'

/-- The characters that a plain scalar never begins with. -/
def isIndicator (c : Char) : Bool :=
  isFlowIndicator c || "-?:#&*!|>%@".toList.contains c || c == '\x27' || c == '"' || c == '\x60'

/-- A word ends at a blank, at a line break and at the end of the text. -/
def endsWord : Option Char → Bool
  | none => true
  | some c => isSpaceOrBreak c

/-- A line ends at a line break and at the end of the text. -/
def endsLine : Option Char → Bool
  | none => true
  | some c => isBreak c

/-! ### Places -/

/-- A place in a text: bytes before it, line breaks before it, characters before it in its line. -/
structure Mark where
  index : Nat
  line : Nat
  column : Nat
deriving Repr, DecidableEq

namespace Mark

def origin : Mark := ⟨0, 0, 0⟩

/-- Line and column of both places are equal. -/
def sameSpot (a b : Mark) : Bool := a.line == b.line && a.column == b.column

/-- Counted from one. -/
def text (m : Mark) : String := s!"line {m.line + 1} column {m.column + 1}"

/-- The words that tell where something is; the beginning goes without saying. -/
def suffix (m : Mark) : String := if m.sameSpot origin then "" else s!" at {m.text}"

/-- The place after a character that ends no line. -/
def next (m : Mark) (c : Char) : Mark := ⟨m.index + c.utf8Size, m.line, m.column + 1⟩

end Mark

end TuringTable.Yaml
