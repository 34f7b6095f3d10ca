import Mathlib.Control.Monad.Basic
import TuringTable.Program

/-!
# The texts of the built-in programs

What a text describes is found from its characters alone (`parse_eq_ofCharacters`). The characters
of a text that is put together from lines are those of its lines, so what a long text describes can
be computed without taking it apart as a whole. What some of the programs read are binary numbers
(`Binary.value`).
-/

namespace TuringTable

namespace Yaml

def Cursor.ofCharacters (cs : List Char) : Cursor :=
  match findForbidden 0 0 cs with
  | none => ⟨cs, .origin, none⟩
  | some (block, offset) => ⟨takeBytes block cs, .origin, some offset⟩

/-- The value of the one document that the characters are the text of. -/
def Value.ofCharacters (cs : List Char) : Except Fault Value :=
  let cursor := Cursor.ofCharacters cs
  let layout : Layout := ⟨cursor, [], none, [], true, [], 0⟩
  (EventStream.ofTokens (TokenStream.scan (cursor.rest.length + 2) layout)).value

theorem Value.ofText_eq_ofCharacters (text : String) : ofText text = ofCharacters text.toList := rfl

end Yaml

/-- What `parse` gives for a text with these characters. -/
def Specification.ofCharacters (cs : List Char) : Logged Specification :=
  if cs.all Text.isBlank then .fail (.invalid (.of .emptyDocument))
  else match Yaml.Value.ofCharacters cs with
    | .error f => .fail (.malformed f)
    | .ok document =>
      let (result, warnings) := Document.check document
      (result.mapError .invalid, warnings)

theorem parse_eq_ofCharacters (text : String) :
    parse text = Specification.ofCharacters text.toList := by
  rewrite [parse, Specification.ofCharacters, Yaml.Value.ofText_eq_ofCharacters]
  rfl

/-! ### Binary numbers -/

namespace Binary

/-- A binary digit as it is written. -/
def digit (b : Bool) : Char := if b then '1' else '0'

/-- A number as it is written, the last digit last. -/
def digits (w : List Bool) : List Char := w.map digit

theorem length_digits (w : List Bool) : (digits w).length = w.length := List.length_map _

theorem digits_reverse (w : List Bool) : digits w.reverse = (digits w).reverse := List.map_reverse

/-- The number that is written. -/
def value (w : List Bool) : Nat := w.foldl (fun n b => 2 * n + b.toNat) 0

theorem value_concat (w : List Bool) (b : Bool) : value (w ++ [b]) = 2 * value w + b.toNat := by
  rw [value, List.foldl_append]
  rfl

end Binary

end TuringTable
