import TuringTable.Text.Quoted
import TuringTable.Yaml.Cursor

/-!
# Quoted scalars

Between single quotes a quote is written twice and nothing else is special. Between double quotes
a backslash escapes. In both, line breaks are folded.
-/

namespace TuringTable.Yaml.Quoted

def shortEscape? : Char → Option Char
  | '0' => some '\x00'
  | 'a' => some '\x07'
  | 'b' => some '\x08'
  | 't' | '\t' => some '\t'
  | 'n' => some '\n'
  | 'v' => some '\x0b'
  | 'f' => some '\x0c'
  | 'r' => some '\r'
  | 'e' => some '\x1b'
  | ' ' => some ' '
  | '"' => some '"'
  | '/' => some '/'
  | '\\' => some '\\'
  | 'N' => some '\u0085'
  | '_' => some '\u00a0'
  | 'L' => some '\u2028'
  | 'P' => some '\u2029'
  | _ => none

/-- How many hexadecimal digits follow a backslash and one of these. -/
def codeLength? : Char → Option Nat
  | 'x' => some 2
  | 'u' => some 4
  | 'U' => some 8
  | _ => none

/-- The value of `n` digits from the cursor on. -/
def codeAhead? (c : Cursor) (n : Nat) : Option Nat :=
  (List.range n).foldlM (fun acc i => do
    return 16 * acc + (← Text.hexDigit? (← c.peekAt i))) 0

/-- Reads an escape; the cursor is at its backslash. -/
def readEscape (start : Mark) : Lexer Char := do
  let during := some (Activity.quotedEscape, start)
  match ← Lexer.peekAt 1 with
  | none => Lexer.fail .unknownEscape during
  | some e =>
    match shortEscape? e, codeLength? e with
    | some c, _ => Lexer.skipMany 2; return c
    | none, none => Lexer.fail .unknownEscape during
    | none, some n =>
      Lexer.skipMany 2
      Lexer.need n
      match codeAhead? (← get) n with
      | none => Lexer.fail .noHexDigit during
      | some v =>
        if v.isValidChar then
          Lexer.skipMany n
          return Char.ofNat v
        else Lexer.fail .badEscapedCode during

/-- Reads up to a blank, a line break or the closing quote. Answers the characters, last one
first, and whether an escaped line break ended them. Here and below `n` exceeds the number of
characters left. -/
def word (quote : Char) (start : Mark) : Nat → List Char → Lexer (List Char × Bool)
  | 0, acc => return (acc, false)
  | n + 1, acc => do
    match ← Lexer.peek with
    | none => return (acc, false)
    | some c =>
      if isSpaceOrBreak c then return (acc, false)
      let next ← Lexer.peekAt 1
      if c == quote then
        if quote == '\x27' && next == some quote then
          Lexer.skipMany 2
          Lexer.need 2
          word quote start n (c :: acc)
        else return (acc, false)
      else if quote == '"' && c == '\\' then
        if next.any isBreak then
          Lexer.need 3
          Lexer.skip
          let _ ← Lexer.takeBreak
          return (acc, true)
        else
          let e ← readEscape start
          Lexer.need 2
          word quote start n (e :: acc)
      else
        Lexer.skip
        Lexer.need 2
        word quote start n (c :: acc)

/-- Reads the line breaks after a word, and the blanks around them. -/
def breaks : Nat → List Char → Lexer (List Char)
  | 0, acc => return acc
  | n + 1, acc => do
    Lexer.skipWhile isSpace
    if (← Lexer.peek).any isBreak then
      let kept ← Lexer.takeBreak
      Lexer.need 1
      breaks n (kept ++ acc)
    else return acc

/-- Reads words and the gaps between them up to the closing quote. -/
def words (quote : Char) (start : Mark) : Nat → List Char → Lexer (List Char)
  | 0, acc => return acc
  | n + 1, acc => do
    let during := some (Activity.quotedText, start)
    Lexer.need 4
    if ← Lexer.atDocumentMarker then Lexer.fail .documentMarkerInQuotes during
    if (← Lexer.peek).isNone then Lexer.fail .endInQuotes during
    let (acc, escaped) ← word quote start n acc
    Lexer.need 1
    if (← Lexer.peek) == some quote then
      Lexer.skip
      return acc
    if escaped then
      words quote start n ((← breaks n []) ++ acc)
    else
      let blanks ← Lexer.takeWhile isSpace
      if (← Lexer.peek).any isBreak then
        let first ← Lexer.takeBreak
        Lexer.need 1
        let more ← breaks n []
        words quote start n ((foldBreaks first more.reverse).reverse ++ acc)
      else words quote start n (blanks.reverse ++ acc)

/-- Reads a scalar in quotes of the kind `quote`; the cursor is at the opening one. -/
def read (n : Nat) (quote : Char) : Lexer String := do
  let start ← Lexer.mark
  Lexer.skip
  let acc ← words quote start n []
  return String.ofList acc.reverse

end TuringTable.Yaml.Quoted
