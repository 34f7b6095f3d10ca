import TuringTable.Text.Quoted
import TuringTable.Yaml.Cursor

/-!
# Tags and anchors

A tag is written in full between `<` and `>`, or as a handle and the rest of its name. An anchor,
and an alias to one, is a word after `&` or `*`.
-/

namespace TuringTable.Yaml.Tag

/-- Handle and name, as written; the handle is empty if the name stands for itself. -/
structure Written where
  handle : String
  name : String
deriving Repr

/-- Reads a handle: a word with a `!` before it and perhaps one after it. In a directive only the
handle `!` may do without the second. -/
def readHandle (inDirective : Bool) (start : Mark) : Lexer String := do
  let during := some (if inDirective then Activity.tagDirectiveHandle else Activity.tag, start)
  if (← Lexer.peek) != some '!' then Lexer.fail .noTagBang during
  Lexer.skip
  Lexer.need 1
  let word ← Lexer.takeWhile isWord
  if (← Lexer.peek) == some '!' then
    Lexer.skip
    return String.ofList ('!' :: word ++ ['!'])
  if inDirective && !word.isEmpty then
    Lexer.fail .noTagBang (some (.tagDirectiveWord, start))
  return String.ofList ('!' :: word)

/-- Reads one escaped byte, three characters long. -/
def readOctet (during : Activity × Mark) : Lexer UInt8 := do
  Lexer.need 3
  let c ← get
  match c.peek, (c.peekAt 1).bind Text.hexDigit?, (c.peekAt 2).bind Text.hexDigit? with
  | some '%', some a, some b =>
    return UInt8.ofNat (16 * a + b)
  | _, _, _ => Lexer.fail .noTagOctet (some during)

/-- The number of bytes of a character that begins with `b`. -/
def width? (b : UInt8) : Option Nat :=
  if b < 0x80 then some 1
  else if 0xc0 ≤ b && b < 0xe0 then some 2
  else if 0xe0 ≤ b && b < 0xf0 then some 3
  else if 0xf0 ≤ b && b < 0xf8 then some 4
  else none

/-- Reads the escaped bytes of a character that come after its first one. -/
def readOctets (during : Activity × Mark) : Nat → ByteArray → Lexer ByteArray
  | 0, bytes => return bytes
  | n + 1, bytes => do
    let b ← readOctet during
    if b &&& 0xc0 != 0x80 then Lexer.fail .badTrailingOctet (some during)
    Lexer.skipMany 3
    readOctets during n (bytes.push b)

/-- Reads a character whose bytes are escaped. Bytes that spell no character read as the
replacement character. -/
def readEscaped (during : Activity × Mark) : Lexer Char := do
  let b ← readOctet during
  match width? b with
  | none => Lexer.fail .badLeadingOctet (some during)
  | some w =>
    Lexer.skipMany 3
    let bytes ← readOctets during (w - 1) (ByteArray.empty.push b)
    return ((String.fromUTF8? bytes).bind (·.toList.head?)).getD '\ufffd'

/-- Reads the characters of a tag's name, `acc` before them, last one first; between `<` and `>`
commas and brackets belong to it. `n` exceeds the number of characters left. -/
def readName (full : Bool) (during : Activity × Mark) : Nat → List Char → Lexer (List Char)
  | 0, acc => return acc
  | n + 1, acc => do
    match ← Lexer.peek with
    | none => return acc
    | some '%' =>
      let c ← readEscaped during
      Lexer.need 1
      readName full during n (c :: acc)
    | some c =>
      if isTagChar c || (full && (c == ',' || c == '[' || c == ']')) then
        Lexer.skip
        Lexer.need 1
        readName full during n (c :: acc)
      else return acc

/-- Reads a name that may not be empty. -/
def readFullName (n : Nat) (full : Bool) (during : Activity × Mark) : Lexer String := do
  Lexer.need 1
  let acc ← readName full during n []
  if acc.isEmpty then Lexer.fail .noTagName (some during)
  return String.ofList acc.reverse

/-- Reads a tag; the cursor is at its `!`. -/
def read (n : Nat) (flow : Bool) : Lexer Written := do
  let start ← Lexer.mark
  let during := some (Activity.tag, start)
  let naming := (Activity.tagName, start)
  Lexer.need 2
  let tag ← if (← Lexer.peekAt 1) == some '<' then do
      Lexer.skipMany 2
      let name ← readFullName n true naming
      if (← Lexer.peek) != some '>' then Lexer.fail .noTagEnd during
      Lexer.skip
      pure (Written.mk "" name)
    else do
      let handle ← readHandle false start
      if handle.length > 1 && handle.endsWith "!" then
        pure (Written.mk handle (← readFullName n false naming))
      else do
        Lexer.need 1
        let acc ← readName false naming n (handle.toList.drop 1).reverse
        pure (if acc.isEmpty then ⟨"", "!"⟩ else ⟨"!", String.ofList acc.reverse⟩)
  Lexer.need 1
  let next ← Lexer.peek
  if !(endsWord next || (flow && next == some ',')) then Lexer.fail .noSpaceAfterTag during
  return tag

end Tag

/-- Reads the word after a `&` or a `*`. -/
def readAnchor (activity : Activity) : Lexer String := do
  let start ← Lexer.mark
  Lexer.skip
  Lexer.need 1
  let name ← Lexer.takeWhile isWord
  let next ← Lexer.peek
  let ends := endsWord next || next.any ("?:,]%@".toList.contains ·) || next == some '\x7d' ||
    next == some '\x60'
  if name.isEmpty || !ends then Lexer.fail .noAnchorName (some (activity, start))
  return String.ofList name

end TuringTable.Yaml
