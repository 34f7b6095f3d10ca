import TuringTable.Yaml.Cursor

/-!
# Block scalars

Lines under a `|` or a `>`. Their indentation is given or found at the first line with content. A
literal scalar keeps its line breaks, a folded one folds those between lines that do not begin
with a blank; `-` drops the breaks at the end and `+` keeps all of them.
-/

namespace TuringTable.Yaml.Block

inductive Chomping where
  | strip
  | clip
  | keep
deriving Repr, DecidableEq

/-- What the first line of a block scalar says. -/
structure Header where
  chomping : Chomping
  increment : Option Nat
deriving Repr

def chomping? : Option Char → Option Chomping
  | some '+' => some .keep
  | some '-' => some .strip
  | _ => none

def readIncrement (start : Mark) : Lexer (Option Nat) := do
  match ← Lexer.peek with
  | some '0' => Lexer.fail .zeroIndentation (some (.blockScalar, start))
  | some c =>
    if c.isDigit then
      Lexer.skip
      return some (c.toNat - 0x30)
    else return none
  | none => return none

/-- Reads the two indicators, in either order. -/
def readHeader (start : Mark) : Lexer Header := do
  Lexer.need 1
  match chomping? (← Lexer.peek) with
  | some ch =>
    Lexer.skip
    Lexer.need 1
    return ⟨ch, ← readIncrement start⟩
  | none =>
    match ← readIncrement start with
    | none => return ⟨.clip, none⟩
    | some i =>
      Lexer.need 1
      match chomping? (← Lexer.peek) with
      | some ch =>
        Lexer.skip
        return ⟨ch, some i⟩
      | none => return ⟨.clip, some i⟩

/-- Skips indentation, up to column `indent` if that is known. -/
def skipIndentation (indent : Option Nat) : Nat → Lexer Unit
  | 0 => return
  | n + 1 => do
    Lexer.need 1
    if (← Lexer.peek) == some ' ' && indent.all ((← Lexer.mark).column < ·) then
      Lexer.skip
      skipIndentation indent n

/-- Reads empty lines and the indentation of the next one. Answers the line breaks, last one
first, and the greatest column that indentation reached. -/
def emptyLines (start : Mark) (indent : Option Nat) :
    Nat → List Char → Nat → Lexer (List Char × Nat)
  | 0, acc, widest => return (acc, widest)
  | n + 1, acc, widest => do
    skipIndentation indent (n + 1)
    let column := (← Lexer.mark).column
    let widest := max widest column
    let c ← Lexer.peek
    if c == some '\t' && indent.all (column < ·) then
      Lexer.fail .tabInIndentation (some (.blockScalar, start))
    if c.any isBreak then
      let kept ← Lexer.takeBreak
      emptyLines start indent n (kept ++ acc) widest
    else return (acc, widest)

/-- What was read of the content: the text, the line break after it and the empty lines after
that, each last character first, and whether its last line begins with a blank. -/
structure Content where
  text : List Char
  lineBreak : List Char
  empty : List Char
  beganBlank : Bool

/-- The text with the breaks after it, when another line follows. -/
def Content.joined (literal : Bool) (k : Content) (beginsBlank : Bool) : List Char :=
  let folds := !literal && k.lineBreak.head? == some '\n' && !k.beganBlank && !beginsBlank
  if folds then (if k.empty.isEmpty then [' '] else k.empty) ++ k.text
  else k.empty ++ k.lineBreak ++ k.text

/-- Reads the lines that are indented to `indent`. -/
def lines (literal : Bool) (start : Mark) (indent : Nat) : Nat → Content → Lexer Content
  | 0, k => return k
  | n + 1, k => do
    match ← Lexer.peek with
    | none => return k
    | some c =>
      if (← Lexer.mark).column != indent then return k
      let line ← Lexer.takeWhile (!isBreak ·)
      let lineBreak ← Lexer.takeBreak
      let (empty, _) ← emptyLines start (some indent) n [] 0
      lines literal start indent n
        ⟨line.reverse ++ k.joined literal (isSpace c), lineBreak, empty, isSpace c⟩

/-- The text without the breaks that its end does not keep. -/
def Content.chomped (k : Content) : Chomping → List Char
  | .strip => k.text
  | .clip => k.lineBreak ++ k.text
  | .keep => k.empty ++ k.lineBreak ++ k.text

/-- Reads a block scalar inside a collection that is indented to `outer`; the cursor is at its
indicator. `n` exceeds the number of characters left. -/
def read (n : Nat) (literal : Bool) (outer : Option Nat) : Lexer String := do
  let start ← Lexer.mark
  Lexer.skip
  let header ← readHeader start
  Lexer.need 1
  Lexer.skipWhile isSpace
  Lexer.skipComment
  if !endsLine (← Lexer.peek) then
    Lexer.fail .noLineEnd (some (.blockScalar, start))
  let _ ← Lexer.takeBreak
  let given := header.increment.map (outer.getD 0 + ·)
  let (empty, widest) ← emptyLines start given n [] 0
  let least := (outer.map (· + 1)).getD 0
  let indent := given.getD (max 1 (max widest least))
  let k ← lines literal start indent n ⟨[], [], empty, false⟩
  return String.ofList (k.chomped header.chomping).reverse

end TuringTable.Yaml.Block
