import TuringTable.Yaml.Token.Block
import TuringTable.Yaml.Token.Directive
import TuringTable.Yaml.Token.Plain
import TuringTable.Yaml.Token.Quoted

/-!
# The tokens of a text

Indentation opens and closes block collections, and a colon may tell only afterwards that a key
began some tokens before it. `Layout` keeps what is needed for both: the columns of the open block
collections, the places where a key may have begun, and the tokens so far. A token is settled
when no colon can put another one before it.
-/

namespace TuringTable.Yaml

/-- A place where a key without `?` may have begun. -/
structure KeyStart where
  /-- How many tokens come before it. -/
  token : Nat
  mark : Mark
  /-- Nothing but a key can stand here. -/
  required : Bool
deriving Repr

namespace KeyStart

/-- A key ends in its line and is at most 1024 bytes long. -/
def reaches (k : KeyStart) (m : Mark) : Bool :=
  k.mark.line == m.line && m.index ≤ k.mark.index + 1024

end KeyStart

structure Layout where
  cursor : Cursor
  /-- The columns of the open block collections, innermost first. -/
  indents : List Nat
  /-- The key that may have begun outside of all brackets. -/
  blockKey : Option KeyStart
  /-- The keys that may have begun, one for each open bracket, innermost first. -/
  flowKeys : List (Option KeyStart)
  /-- A key without `?` may begin here. -/
  keyAllowed : Bool
  /-- Last token first. -/
  tokens : List Token
  count : Nat
deriving Repr

namespace Layout

def ofText (s : String) : Layout := ⟨.ofText s, [], none, [], true, [], 0⟩

def mark (l : Layout) : Mark := l.cursor.mark

def inFlow (l : Layout) : Bool := !l.flowKeys.isEmpty

/-- The column of the innermost block collection lies before `column`. -/
def indentBelow (l : Layout) (column : Nat) : Bool := l.indents.head?.all (· < column)

def push (l : Layout) (kind : Token.Kind) (m : Mark) : Layout :=
  { l with tokens := ⟨kind, m⟩ :: l.tokens, count := l.count + 1 }

/-- Puts a token where `at` tokens come before it. -/
def insertAt (l : Layout) (position : Nat) (t : Token) : Layout :=
  let later := l.count - position
  { l with tokens := l.tokens.take later ++ t :: l.tokens.drop later, count := l.count + 1 }

/-- The key that may have begun at the innermost level. -/
def key (l : Layout) : Option KeyStart := l.flowKeys.head?.getD l.blockKey

def setKey (l : Layout) (k : Option KeyStart) : Layout :=
  match l.flowKeys with
  | [] => { l with blockKey := k }
  | _ :: ks => { l with flowKeys := k :: ks }

/-- The key that may have begun at the innermost level and has not ended yet. -/
def openKey (l : Layout) : Option KeyStart := l.key.filter (·.reaches l.mark)

def settled (l : Layout) : Nat :=
  (l.blockKey :: l.flowKeys).foldl (fun n k =>
    match k with
    | some k => if k.reaches l.mark then min n k.token else n
    | none => n) l.count

/-- The token list of what is settled, first token first. -/
def settledTokens (l : Layout) : List Token := (l.tokens.drop (l.count - l.settled)).reverse

/-- Closes the block collections that are indented beyond `column`; all of them, if there is
none. Inside brackets indentation means nothing. -/
def closeBlocks (l : Layout) (column : Option Nat) : Layout :=
  if l.inFlow then l
  else
    let closed := l.indents.takeWhile fun i => column.all (· < i)
    let l := { l with indents := l.indents.drop closed.length }
    closed.foldl (fun l _ => l.push .blockEnd l.mark) l

/-- Opens a block collection at `column`, before the token with the number `position`, unless one
is open there. -/
def openBlock (l : Layout) (column position : Nat) (kind : Token.Kind) (m : Mark) : Layout :=
  if !l.inFlow && l.indentBelow column then
    { l.insertAt position ⟨kind, m⟩ with indents := column :: l.indents }
  else l

end Layout

/-- Reading tokens moves a layout or ends with a fault. -/
abbrev Scan := StateT Layout (Except Fault)

namespace Scan

def lex {α : Type} (x : Lexer α) : Scan α := do
  let (a, c) ← x.run (← get).cursor
  modify fun l => { l with cursor := c }
  return a

def fail {α : Type} (p : Problem) (during : Option (Activity × Mark)) : Scan α := do
  throw (.form p (← get).mark during)

/-- A key that had to begin, and whose colon did not come, is a fault. -/
def checkKey : Scan Unit := do
  if let some k := (← get).blockKey then
    if k.required && !k.reaches (← get).mark then
      fail .noColon (some (.simpleKey, k.mark))

/-- What follows does not belong to a key that may have begun. -/
def dropKey : Scan Unit := do
  if let some k := (← get).key then
    if k.required then fail .noColon (some (.simpleKey, k.mark))
  modify (·.setKey none)

/-- A key may begin here. -/
def startKey : Scan Unit := do
  let l ← get
  if l.keyAllowed then
    dropKey
    let required := !l.inFlow && l.indents.head? == some l.mark.column
    modify (·.setKey (some ⟨l.count, l.mark, required⟩))

def allowKey (b : Bool) : Scan Unit := modify ({ · with keyAllowed := b })

/-- Skips blanks, comments and empty lines. A line break outside brackets allows a key. -/
def skipGap : Nat → Scan Unit
  | 0 => return
  | n + 1 => do
    lex (Lexer.need 1)
    if (← get).mark.column == 0 && (← get).cursor.peek == some '\ufeff' then lex Lexer.skip
    lex (Lexer.need 1)
    let tabs := (← get).inFlow || !(← get).keyAllowed
    lex (Lexer.skipWhile fun c => c == ' ' || (tabs && c == '\t'))
    lex Lexer.skipComment
    if (← get).cursor.peek.any isBreak then
      let _ ← lex Lexer.takeBreak
      if !(← get).inFlow then allowKey true
      skipGap n

def indicator (kind : Token.Kind) (length : Nat) : Scan Unit := do
  let m := (← get).mark
  lex (Lexer.skipMany length)
  modify (·.push kind m)

/-- The end of the text, which begins a line of its own. -/
def streamEnd : Scan Unit := do
  let m := (← get).mark
  if m.column != 0 then
    modify fun l => { l with cursor := { l.cursor with mark := ⟨m.index, m.line + 1, 0⟩ } }
  modify (·.closeBlocks none)
  dropKey
  allowKey false
  indicator .streamEnd 0

def directive (n : Nat) : Scan Unit := do
  modify (·.closeBlocks none)
  dropKey
  allowKey false
  let m := (← get).mark
  let kind ← lex (Directive.read n)
  modify (·.push kind m)

def documentMarker (kind : Token.Kind) : Scan Unit := do
  modify (·.closeBlocks none)
  dropKey
  allowKey false
  indicator kind 3

def flowStart (kind : Token.Kind) : Scan Unit := do
  startKey
  modify fun l => { l with flowKeys := none :: l.flowKeys }
  allowKey true
  indicator kind 1

def flowEnd (kind : Token.Kind) : Scan Unit := do
  dropKey
  modify fun l => { l with flowKeys := l.flowKeys.tail }
  allowKey false
  indicator kind 1

def comma : Scan Unit := do
  dropKey
  allowKey true
  indicator .comma 1

def dash : Scan Unit := do
  let l ← get
  if !l.inFlow then
    if !l.keyAllowed then fail .entryNotAllowed none
    modify (·.openBlock l.mark.column l.count .blockSequenceStart l.mark)
  dropKey
  allowKey true
  indicator .dash 1

def key : Scan Unit := do
  let l ← get
  if !l.inFlow then
    if !l.keyAllowed then fail .keyNotAllowed none
    modify (·.openBlock l.mark.column l.count .blockMappingStart l.mark)
  dropKey
  allowKey (!l.inFlow)
  indicator .key 1

def value : Scan Unit := do
  let l ← get
  match l.openKey with
  | some k =>
    modify (·.insertAt k.token ⟨.key, k.mark⟩)
    modify (·.openBlock k.mark.column k.token .blockMappingStart k.mark)
    modify (·.setKey none)
    allowKey false
  | none =>
    if !l.inFlow then
      if !l.keyAllowed then fail .valueNotAllowed none
      modify (·.openBlock l.mark.column l.count .blockMappingStart l.mark)
    allowKey (!l.inFlow)
  indicator .value 1

/-- A token that can be a key by itself or begin one. -/
def keyPart (read : Lexer Token.Kind) : Scan Unit := do
  startKey
  allowKey false
  let m := (← get).mark
  let kind ← lex read
  modify (·.push kind m)

def blockScalar (n : Nat) (literal : Bool) : Scan Unit := do
  dropKey
  allowKey true
  let l ← get
  let text ← lex (Block.read n literal l.indents.head?)
  modify (·.push (.scalar text false) l.mark)

def plain (n : Nat) : Scan Unit := do
  startKey
  allowKey false
  let l ← get
  let indent := (l.indents.head?.map (· + 1)).getD 0
  let (text, brokeLine) ← lex (Plain.read n l.inFlow indent)
  modify (·.push (.scalar text true) l.mark)
  if brokeLine then allowKey true

/-- A plain scalar begins with no indicator, or with one that means nothing before `next`. -/
def startsPlain (flow : Bool) (c : Char) (next : Option Char) : Bool :=
  !(isSpaceOrBreak c || isIndicator c) || (c == '-' && !next.any isSpace) ||
    (!flow && (c == '?' || c == ':') && !endsWord next)

/-- Reads one token, and those that come with it. -/
def token (n : Nat) : Scan Unit := do
  skipGap n
  checkKey
  let column := (← get).mark.column
  modify (·.closeBlocks (some column))
  lex (Lexer.need 4)
  let l ← get
  let flow := l.inFlow
  let next := l.cursor.peekAt 1
  match l.cursor.peek with
  | none => streamEnd
  | some c =>
    if column == 0 && c == '%' then directive n
    else if ← lex (Lexer.atMarker '-') then documentMarker .documentStart
    else if ← lex (Lexer.atMarker '.') then documentMarker .documentEnd
    else if c == '[' then flowStart .flowSequenceStart
    else if c == '\x7b' then flowStart .flowMappingStart
    else if c == ']' then flowEnd .flowSequenceEnd
    else if c == '\x7d' then flowEnd .flowMappingEnd
    else if c == ',' then comma
    else if c == '-' && endsWord next then dash
    else if c == '?' && (flow || endsWord next) then key
    else if c == ':' && (flow || endsWord next) then value
    else if c == '*' then keyPart (.aliasName <$> readAnchor .aliasName)
    else if c == '&' then keyPart (.anchor <$> readAnchor .anchor)
    else if c == '!' then keyPart ((fun t => .tag t.handle t.name) <$> Tag.read n flow)
    else if c == '|' && !flow then blockScalar n true
    else if c == '>' && !flow then blockScalar n false
    else if c == '\x27' || c == '"' then keyPart ((.scalar · false) <$> Quoted.read n c)
    else if startsPlain flow c next then plain n
    else fail .strayCharacter (some (.token, l.mark))

end Scan

/-- The settled tokens of a text, and the fault that ends them, if there is one. -/
structure TokenStream where
  tokens : List Token
  fault : Option Fault
deriving Repr

namespace TokenStream

/-- Reads tokens up to the end of the text or the first fault; `n` exceeds the number of
characters left. -/
def scan : Nat → Layout → TokenStream
  | 0, l => ⟨l.settledTokens, none⟩
  | n + 1, l =>
    match (do Scan.token n; Scan.checkKey : Scan Unit).run l with
    | .error f => ⟨l.settledTokens, some f⟩
    | .ok (_, l') =>
      match l'.tokens with
      | ⟨.streamEnd, _⟩ :: _ => ⟨l'.tokens.reverse, none⟩
      | _ => scan n l'

def ofText (s : String) : TokenStream :=
  let l := Layout.ofText s
  scan (l.cursor.rest.length + 2) l

end TokenStream

end TuringTable.Yaml
