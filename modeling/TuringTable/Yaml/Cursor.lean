import TuringTable.Yaml.Fault

/-!
# Reading a text character by character

A `Cursor` is what is left of a text and the place reached in it. A text is looked at in blocks of
16384 bytes; if a block holds a character that no text may hold, reading stops before that block,
so what lies in earlier blocks is still read.
-/

namespace TuringTable.Yaml

structure Cursor where
  rest : List Char
  mark : Mark
  /-- The offset of a forbidden character in the block after `rest`. -/
  forbidden : Option Nat
deriving Repr

namespace Cursor

def blockSize : Nat := 16384

/-- The first forbidden character: where its block begins and where it lies itself. A block takes
whole characters only. -/
def findForbidden (block index : Nat) : List Char → Option (Nat × Nat)
  | [] => none
  | c :: cs =>
    let next := index + c.utf8Size
    let block := if next ≤ block + blockSize then block else index
    if isAllowed c then findForbidden block next cs else some (block, index)

def takeBytes (n : Nat) : List Char → List Char
  | [] => []
  | c :: cs => if c.utf8Size ≤ n then c :: takeBytes (n - c.utf8Size) cs else []

def ofText (s : String) : Cursor :=
  match findForbidden 0 0 s.toList with
  | none => ⟨s.toList, .origin, none⟩
  | some (block, offset) => ⟨takeBytes block s.toList, .origin, some offset⟩

def peek (c : Cursor) : Option Char := c.rest.head?

def peekAt (c : Cursor) (n : Nat) : Option Char := c.rest[n]?

/-- The cursor after one character that ends no line. -/
def skip (c : Cursor) : Cursor :=
  match c.rest with
  | [] => c
  | a :: cs => { c with rest := cs, mark := c.mark.next a }

/-- The line break ahead as it is kept, and the cursor after it: a carriage return, a line feed
and both together are one line feed, as is U+0085. -/
def takeBreak (c : Cursor) : List Char × Cursor :=
  match c.rest with
  | '\r' :: '\n' :: cs => (['\n'], { c with rest := cs, mark := ⟨c.mark.index + 2, c.mark.line + 1, 0⟩ })
  | a :: cs =>
    if isBreak a then
      let kept := if a == '\u2028' || a == '\u2029' then a else '\n'
      ([kept], { c with rest := cs, mark := ⟨c.mark.index + a.utf8Size, c.mark.line + 1, 0⟩ })
    else ([], c)
  | [] => ([], c)

/-- The longest run of characters with `p`, and the cursor after it. -/
def span (p : Char → Bool) (c : Cursor) : List Char × Cursor :=
  let run := c.rest.takeWhile p
  (run, { c with rest := c.rest.dropWhile p, mark := run.foldl Mark.next c.mark })

end Cursor

/-- Reading moves a cursor or ends with a fault. -/
abbrev Lexer := StateT Cursor (Except Fault)

namespace Lexer

def peek : Lexer (Option Char) := return (← get).peek

def peekAt (n : Nat) : Lexer (Option Char) := return (← get).peekAt n

def mark : Lexer Mark := return (← get).mark

def skip : Lexer Unit := modify Cursor.skip

def skipMany (n : Nat) : Lexer Unit := modify (Nat.repeat Cursor.skip n)

/-- The next `n` characters are to be looked at. -/
def need (n : Nat) : Lexer Unit := do
  match (← get).forbidden with
  | none => return
  | some offset => if ((← get).rest.drop (n - 1)).isEmpty then throw (.control offset)

def fail {α : Type} (p : Problem) (during : Option (Activity × Mark)) : Lexer α := do
  throw (.form p (← mark) during)

def takeBreak : Lexer (List Char) := do
  need 2
  let (kept, c) := (← get).takeBreak
  set c
  return kept

def takeWhile (p : Char → Bool) : Lexer (List Char) := do
  let (run, c) := (← get).span p
  set c
  need 1
  return run

def skipWhile (p : Char → Bool) : Lexer Unit := do
  let _ ← takeWhile p

/-- Skips a comment up to the end of its line, if one begins here. -/
def skipComment : Lexer Unit := do
  if (← peek) == some '#' then skipWhile (!isBreak ·)

/-- `marker` three times, at the beginning of a line, as a word of its own. -/
def atMarker (marker : Char) : Lexer Bool := do
  let c ← get
  return c.mark.column == 0 && c.peek == some marker && c.peekAt 1 == some marker &&
    c.peekAt 2 == some marker && endsWord (c.peekAt 3)

def atDocumentMarker : Lexer Bool := return (← atMarker '-') || (← atMarker '.')

end Lexer

/-- How line breaks between words are kept: one break becomes a space, more lose the first. A
first break other than a line feed stays. -/
def foldBreaks (first more : List Char) : List Char :=
  if first.head? == some '\n' then (if more.isEmpty then [' '] else more) else first ++ more

end TuringTable.Yaml
