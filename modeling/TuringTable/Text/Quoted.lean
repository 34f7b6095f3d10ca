import TuringTable.Text.Combining
import TuringTable.Text.Hidden

/-!
# Quoted text

How messages show a text or a character whose exact characters matter: in quotes, with the quote
itself, the backslash and whatever cannot be seen escaped, by its hexadecimal numeral if need be.
-/

namespace TuringTable.Text

/-- The numeral of `n` in base sixteen: small letters, no zeros before it. -/
def hex (n : Nat) : String := String.ofList (Nat.toDigits 16 n)

/-- The value of a hexadecimal digit of either case. -/
def hexDigit? (c : Char) : Option Nat :=
  if '0' ≤ c ∧ c ≤ '9' then some (c.toNat - 0x30)
  else if 'a' ≤ c ∧ c ≤ 'f' then some (c.toNat - 0x61 + 10)
  else if 'A' ≤ c ∧ c ≤ 'F' then some (c.toNat - 0x41 + 10)
  else none

/-- The escape of a character between quotes of the kind `mark`. -/
def escape (mark c : Char) : String :=
  if c = mark ∨ c = '\\' then String.ofList ['\\', c]
  else if ' ' ≤ c ∧ c ≤ '~' then String.singleton c
  else if c = '\x00' then "\\0"
  else if c = '\t' then "\\t"
  else if c = '\r' then "\\r"
  else if c = '\n' then "\\n"
  else if isHidden c || isCombining c then "\\u\x7b" ++ hex c.toNat ++ "\x7d"
  else String.singleton c

/-- A text in double quotes. -/
def quote (s : String) : String :=
  "\"" ++ String.join (s.toList.map (escape '\x22')) ++ "\""

/-- A character in single quotes. -/
def quoteChar (c : Char) : String := "'" ++ escape '\x27' c ++ "'"

end TuringTable.Text
