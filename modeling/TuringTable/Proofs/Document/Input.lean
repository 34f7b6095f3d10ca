import TuringTable.Program
import TuringTable.Proofs.Document.Edit
import TuringTable.Proofs.Document.Synonyms
import TuringTable.Proofs.Yaml.White

/-!
# The input of a document

The field `input` gives a specification its input and has no part in anything else that is read or
checked. So where a string is set for it (`setInput`), the specification has that string for its
input and is otherwise the same, and so are the warnings (`check_setInput`).
-/

namespace TuringTable

open Yaml (Value)

namespace Specification

theorem analyze_withInput (s : Specification) (cs : List Char) :
    (s.withInput cs).analyze = s.analyze := rfl

theorem unreachable_withInput (s : Specification) (cs : List Char) :
    (s.withInput cs).unreachable = s.unreachable := rfl

end Specification

namespace Document

/-- The document with a string for its input. One that has none gets it after `n` fields. -/
def setInput (n : Nat) (x : String) (document : Value) : Value :=
  document.onEntries (Value.setField "input" (.string x) n)

section SetInput
variable {document : Value} {es : List (Value × Value)} {s : Specification}
  (n : Nat) (x : String)

theorem readHead_setField {head : Char × String × List Char} (h : readHead es = .ok head) :
    readHead (Value.setField "input" (.string x) n es) = .ok (head.1, head.2.1, x.toList) := by
  rw [readHead] at h ⊢
  rw [Value.lookup_setField_self, Value.lookup_setField_of_ne (by decide),
    Value.lookup_setField_of_ne (by decide)]
  obtain ⟨blank, hblank, h⟩ := Except.bind_eq_ok_iff.1 h
  obtain ⟨start, hstart, h⟩ := Except.bind_eq_ok_iff.1 h
  obtain ⟨input, -, h⟩ := Except.bind_eq_ok_iff.1 h
  cases h
  rw [hblank, hstart]
  rfl

theorem readBody_setField (head : Char × String × List Char) (synonyms : Synonyms) :
    readBody (Value.setField "input" (.string x) n es) (head.1, head.2.1, x.toList) synonyms =
      (·.withInput x.toList) <$> readBody es head synonyms := by
  rw [readBody, readBody, Value.lookup_setField_of_ne (by decide), map_bind]
  rfl

theorem read_setInput (h : ((read document).run []).1 = .ok s) :
    (read (setInput n x document)).run [] =
      (.ok (s.withInput x.toList), ((read document).run []).2) := by
  obtain ⟨es, hes⟩ := exists_entries_of_read h
  have hes' : (setInput n x document).entries? =
      some (Value.setField "input" (.string x) n es) := by
    rw [setInput, Value.entries?_onEntries, hes, Option.map_some]
  rw [read_eq hes] at h ⊢
  rw [read_eq hes', Value.lookup_setField_of_ne (by decide)]
  cases hhead : readHead es with
  | error e =>
    rw [hhead] at h
    cases h
  | ok head =>
    rw [hhead, Checked.ofExcept_ok, pure_bind] at h
    rw [readHead_setField n x hhead, Checked.ofExcept_ok, Checked.ofExcept_ok, pure_bind, pure_bind,
      funext (readBody_setField n x head), ← map_bind]
    rw [Checked.run_map, h]
    rfl

/-- The field does not matter to the check. -/
theorem check_setInput (h : ((read document).run []).1 = .ok s) :
    check (setInput n x document) =
      ((check document).1.map (·.withInput x.toList), (check document).2) := by
  rw [check, check, read_setInput n x h]
  rcases hr : (read document).run [] with ⟨r, ws⟩
  rw [hr] at h
  cases h
  dsimp only
  rw [Specification.analyze_withInput]
  cases s.analyze with
  | error e => rfl
  | ok u => rfl

end SetInput

/-- A text that is read as a mapping is no white space. -/
theorem parse_eq_check {text : String} {document : Value} {s : Specification}
    (ht : Value.ofText text = .ok document) (h : ((read document).run []).1 = .ok s) :
    parse text = ((check document).1.mapError .invalid, (check document).2) := by
  obtain ⟨es, hes⟩ := exists_entries_of_read h
  have hblank : ¬text.toList.all Text.isBlank = true := by
    intro hblank
    rw [Value.entries?_of_blank hblank ht] at hes
    cases hes
  rw [parse, if_neg hblank, ht]

theorem parse_setInput {text text' x : String} {n : Nat} {document : Value} {s : Specification}
    (ht : Value.ofText text = .ok document) (ht' : Value.ofText text' = .ok (setInput n x document))
    (h : ((read document).run []).1 = .ok s) :
    parse text' = ((parse text).1.map (·.withInput x.toList), (parse text).2) := by
  have h' : ((read (setInput n x document)).run []).1 = .ok (s.withInput x.toList) := by
    rw [read_setInput n x h]
  rw [parse_eq_check ht h, parse_eq_check ht' h', check_setInput n x h]
  cases (check document).1 <;> rfl

end Document

end TuringTable
