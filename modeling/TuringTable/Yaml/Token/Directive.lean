import TuringTable.Yaml.Token
import TuringTable.Yaml.Token.Tag

/-!
# Directives

A line that begins with `%`: the version of the form, or what a tag handle stands for.
-/

namespace TuringTable.Yaml.Directive

/-- Reads a number of at most nine digits. -/
def readNumber (start : Mark) : Lexer Nat := do
  let during := some (Activity.versionDirective, start)
  if ((← get).rest.takeWhile Char.isDigit).length > 9 then
    Lexer.skipMany 9
    Lexer.fail .longVersion during
  let digits ← Lexer.takeWhile Char.isDigit
  if digits.isEmpty then Lexer.fail .noVersion during
  return digits.foldl (fun n c => 10 * n + (c.toNat - 0x30)) 0

/-- Reads the two numbers of a version. -/
def readVersion (start : Mark) : Lexer Token.Kind := do
  Lexer.need 1
  Lexer.skipWhile isSpace
  let major ← readNumber start
  if (← Lexer.peek) != some '.' then
    Lexer.fail .noVersionPoint (some (.versionDirective, start))
  Lexer.skip
  Lexer.need 1
  return .versionDirective major (← readNumber start)

/-- Reads a handle and what it stands for. -/
def readTag (n : Nat) (start : Mark) : Lexer Token.Kind := do
  let during := some (Activity.tagDirective, start)
  Lexer.need 1
  Lexer.skipWhile isSpace
  let handle ← Tag.readHandle true start
  Lexer.need 1
  if !(← Lexer.peek).any isSpace then Lexer.fail .noSpaceInDirective during
  Lexer.skipWhile isSpace
  let stem ← Tag.readFullName n true (.tagDirectiveName, start)
  Lexer.need 1
  if !endsWord (← Lexer.peek) then Lexer.fail .noSpaceAfterDirective during
  return .tagDirective handle stem

/-- Reads a directive and the end of its line; the cursor is at the `%`. -/
def read (n : Nat) : Lexer Token.Kind := do
  let start ← Lexer.mark
  let during := some (Activity.directive, start)
  Lexer.skip
  Lexer.need 1
  let name ← Lexer.takeWhile isWord
  if name.isEmpty then Lexer.fail .noDirectiveName during
  if !endsWord (← Lexer.peek) then Lexer.fail .badDirectiveName during
  let kind ← match String.ofList name with
    | "YAML" => readVersion start
    | "TAG" => readTag n start
    | _ => Lexer.fail .unknownDirective during
  Lexer.need 1
  Lexer.skipWhile isSpace
  Lexer.skipComment
  if !endsLine (← Lexer.peek) then Lexer.fail .noLineEnd during
  let _ ← Lexer.takeBreak
  return kind

end TuringTable.Yaml.Directive
