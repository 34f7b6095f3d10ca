import TuringTable.Yaml.Cursor

/-!
# Plain scalars

Words without quotes. A plain scalar may go on over several lines; blanks inside a line are kept
and line breaks between words are folded.
-/

namespace TuringTable.Yaml.Plain

/-- What lies between two words: the blanks inside a line, or the line breaks. Both are listed
last first. -/
structure Gap where
  blanks : List Char
  first : List Char
  more : List Char
  brokeLine : Bool

namespace Gap

def none : Gap := ⟨[], [], [], false⟩

/-- The text that a gap stands for. -/
def text (g : Gap) : List Char :=
  if g.brokeLine then foldBreaks g.first g.more.reverse else g.blanks.reverse

end Gap

/-- A word ends before a colon that ends a word itself and, between brackets, before the
characters that have a meaning there. -/
def endsAt (flow : Bool) (c : Char) (next : Option Char) : Bool :=
  (c == ':' && endsWord next) || (flow && isFlowIndicator c)

/-- A colon between brackets has no place before these. -/
def isMisplacedColon (flow : Bool) (c : Char) (next : Option Char) : Bool :=
  flow && c == ':' && next.any fun d => isFlowIndicator d || d == '?'

/-- Reads the rest of a word. Here and below `n` exceeds the number of characters left. -/
def word (flow : Bool) (start : Mark) : Nat → List Char → Lexer (List Char)
  | 0, acc => return acc
  | n + 1, acc => do
    match ← Lexer.peek with
    | none => return acc
    | some c =>
      if isSpaceOrBreak c then return acc
      let next ← Lexer.peekAt 1
      if isMisplacedColon flow c next then
        Lexer.fail .colonInFlow (some (.plainScalar, start))
      if endsAt flow c next then return acc
      Lexer.skip
      Lexer.need 2
      word flow start n (c :: acc)

/-- Reads blanks and line breaks. -/
def gap (indent : Nat) (start : Mark) : Nat → Gap → Lexer Gap
  | 0, g => return g
  | n + 1, g => do
    match ← Lexer.peek with
    | none => return g
    | some c =>
      if isSpace c then
        if g.brokeLine && (← Lexer.mark).column < indent && c == '\t' then
          Lexer.fail .tabInPlainIndentation (some (.plainScalar, start))
        Lexer.skip
        Lexer.need 1
        gap indent start n (if g.brokeLine then g else { g with blanks := c :: g.blanks })
      else if isBreak c then
        let kept ← Lexer.takeBreak
        Lexer.need 1
        gap indent start n <|
          if g.brokeLine then { g with more := kept ++ g.more }
          else { g with first := kept, brokeLine := true }
      else return g

/-- Reads words and the gaps between them. `acc` holds what was read, last character first, and
`before` the gap read last, which counts only if a word follows. -/
def words (flow : Bool) (indent : Nat) (start : Mark) :
    Nat → List Char → Gap → Lexer (List Char × Gap)
  | 0, acc, before => return (acc, before)
  | n + 1, acc, before => do
    Lexer.need 4
    if (← Lexer.atDocumentMarker) || (← Lexer.peek) == some '#' then return (acc, before)
    let w ← word flow start n []
    if w.isEmpty then return (acc, before)
    let acc := w ++ before.text.reverse ++ acc
    let after ← gap indent start n .none
    if !flow && (← Lexer.mark).column < indent then return (acc, after)
    words flow indent start n acc after

/-- Reads a plain scalar whose lines are indented to `indent` at least; tells also whether line
breaks follow it. -/
def read (n : Nat) (flow : Bool) (indent : Nat) : Lexer (String × Bool) := do
  let (acc, after) ← words flow indent (← Lexer.mark) n [] .none
  return (String.ofList acc.reverse, after.brokeLine)

end TuringTable.Yaml.Plain
