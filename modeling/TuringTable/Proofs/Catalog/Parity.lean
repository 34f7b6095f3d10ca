import Mathlib.Data.Nat.Bits
import TuringTable.Catalog
import TuringTable.Proofs.Catalog.Text
import TuringTable.Proofs.Document.Synonyms
import TuringTable.Proofs.Machine.Compose
import TuringTable.Proofs.Machine.Pass

/-!
# Parity

The machine that the program `parity` describes writes whether it read an even number of ones, over
any alphabet (`Catalog.parity_marks`). It makes one pass over the input, erases what it reads, and its
state tells the parity of the ones so far (`Catalog.foldl_parity`). A symbol that no cell names is
erased by the wildcard's instruction, that of the program's synonym, and leaves the state as it is
(`Catalog.lookup_eraser`).
-/

namespace TuringTable

/-- The instruction that a document gives the name of a synonym. -/
def Document.synonym? (document : Yaml.Value) (name : String) : Option Instruction := do
  let es ← document.entries?
  let v ← definition? (synonymEntries es) name
  (readInstruction [] v).toOption

namespace Catalog

open Machine

/-- The state for the parity of the ones so far. -/
def parityState (odd : Bool) : String := if odd then "odd" else "even"

/-- The letter for the parity of the ones. -/
def parityMark (odd : Bool) : Char := if odd then 'O' else 'E'

/-- What the synonym stands for. -/
def erase : Instruction := ⟨some ' ', .right, none⟩

def parityRow (odd : Bool) : Row := .ofList [
  ('1', ⟨some ' ', .right, some (parityState !odd)⟩),
  (' ', ⟨some (parityMark odd), .right, some "done"⟩),
  ('_', erase)]

/-- What the text of the program describes. -/
def eraser : Specification where
  blank := ' '
  startState := "even"
  table := .ofList [
    ("even", some (parityRow false)),
    ("odd", some (parityRow true)),
    ("done", none)]
  input := ['1', '1', '0', '1']

theorem parse_parity : parse parity = (.ok eraser, []) := by
  rewrite [parse_eq_ofCharacters]
  unfold parity
  simp only [String.toList_append, String.reduceToList]
  decide +kernel

theorem exists_synonym_parity : ∃ document, Yaml.Value.ofText parity = .ok document ∧
    Document.synonym? document "erase" = some erase := by
  have herase : (Yaml.Value.ofText parity).toOption.bind (Document.synonym? · "erase") =
      some erase := by
    rewrite [Yaml.Value.ofText_eq_ofCharacters]
    unfold parity
    simp only [String.toList_append, String.reduceToList]
    decide +kernel
  cases hvalue : Yaml.Value.ofText parity with
  | error f =>
    rw [hvalue] at herase
    cases herase
  | ok document =>
    rw [hvalue] at herase
    exact ⟨document, rfl, herase⟩

theorem get?_parityState (odd : Bool) :
    eraser.table.get? (parityState odd) = some (some (parityRow odd)) := by
  cases odd <;> decide

theorem instruction?_parityRow (odd : Bool) (c : Char) :
    Specification.instruction? (parityRow odd) c =
      if c = '1' then some ⟨some ' ', .right, some (parityState !odd)⟩
      else if c = ' ' then some ⟨some (parityMark odd), .right, some "done"⟩
      else some erase := by
  rw [Specification.instruction?, parityRow, SortedMap.get?_ofList, SortedMap.get?_ofList]
  simp only [List.reverse_cons, List.reverse_nil, List.nil_append, List.cons_append,
    SortedMap.lookup_cons_eq_ite, wildcard, List.lookup_nil]
  grind

/-- A blank is marked, and every other symbol erased. Only a one changes the state. -/
theorem lookup_eraser (input : List Char) (odd : Bool) (c : Char) :
    (eraser.withInput input).lookup (parityState odd) c =
      .ok (some (if c = ' ' then ⟨parityMark odd, .right, "done"⟩
        else ⟨' ', .right, parityState (odd ^^ c == '1')⟩)) := by
  rw [Specification.lookup_withInput, Specification.lookup, get?_parityState]
  show Except.ok ((Specification.instruction? (parityRow odd) c).map _) = _
  rw [instruction?_parityRow]
  by_cases hone : c = '1'
  · subst hone
    cases odd <;> rfl
  · by_cases hblank : c = ' '
    · subst hblank
      rfl
    · rw [if_neg hone, if_neg hblank, if_neg hblank, beq_false_of_ne hone, Bool.xor_false]
      rfl

theorem foldl_parity (w : List Char) (odd : Bool) :
    w.foldl (fun odd c => odd ^^ c == '1') odd = (odd ^^ (w.count '1').bodd) := by
  induction w generalizing odd with
  | nil => rw [List.count_nil, Nat.bodd_zero, Bool.xor_false, List.foldl_nil]
  | cons c w ih =>
    rw [List.foldl_cons, ih, List.count_cons]
    by_cases hone : c = '1'
    · rw [hone, beq_self_eq_true, if_pos rfl, Nat.bodd_succ, Bool.xor_true, Bool.not_xor, Bool.xor_not]
    · rw [beq_false_of_ne hone, if_neg Bool.false_ne_true, Nat.add_zero, Bool.xor_false]

theorem advances_eraser {w : List Char} (hw : ' ' ∉ w) :
    let s := eraser.withInput w
    let mark := parityMark (w.count '1').bodd
    Advances (w.length + 1) (ofSpec s)
      (on s "done" (.facing ' ' .right (w.length + 1) (mark :: List.replicate w.length ' ') [])
        (w.length + 1)) := by
  intro s mark
  have hsymbols : ∀ odd, ∀ c ∈ w, s.lookup (parityState odd) c =
      .ok (some ⟨' ', .right, parityState (odd ^^ c == '1')⟩) := by
    intro odd c hc
    rw [lookup_eraser, if_neg (ne_of_mem_of_not_mem hc hw)]
  have hpass := advances_pass 0 [] [] 0 parityState _ (fun _ => ' ') hsymbols false
  have hblank : s.lookup (parityState (w.count '1').bodd) ' ' = .ok (some ⟨mark, .right, "done"⟩) :=
    lookup_eraser ..
  simp only [List.append_nil, Direction.offset, Int.mul_one, Int.zero_add, Nat.zero_add,
    List.map_const', List.reverse_replicate, foldl_parity, Bool.false_xor] at hpass
  rw [ofSpec_eq_on]
  exact hpass.trans (advances_one w.length (List.replicate w.length ' ') [] w.length hblank)

/-- Among the erased cells and the blank ones only the mark is to be seen. -/
theorem read_marked (k : Nat) (mark : Char) (z : Int) :
    (Tape.facing ' ' .right (k + 1) (mark :: List.replicate k ' ') []).read (z - (k + 1)) =
      if z = k then mark else ' ' := by
  match h : z - (k + 1) with
  | .ofNat n =>
    rw [if_neg (by rw [Int.ofNat_eq_natCast] at h; omega)]
    exact Tape.read_facing_right_natCast ..
  | .negSucc 0 =>
    rw [if_pos (by omega), Tape.read_facing_right_negSucc]
    rfl
  | .negSucc (n + 1) =>
    rw [if_neg (by omega), Tape.read_facing_right_negSucc, List.getElem?_cons_succ,
      List.getElem?_replicate]
    split <;> rfl

/-- The program marks the parity of the ones in every input without a space, whatever else is in it.
The wildcard's cells hold the instruction of the synonym `erase`, which leaves the state. -/
theorem parity_marks :
    ∃ s, (parse parity).1 = .ok s ∧
      (∃ document i, Yaml.Value.ofText parity = .ok document ∧
        Document.synonym? document "erase" = some i ∧
        ∀ q, q = "even" ∨ q = "odd" →
          i.target q = q ∧ ∃ row, s.table.get? q = some (some row) ∧ row.get? wildcard = some i) ∧
      ∀ w : List Char, ' ' ∉ w → ∃ m', (ofSpec (s.withInput w)).EndsAfter (w.length + 1) m' ∧
        m'.state = "done" ∧ m'.spec.isHaltingState m'.state = true ∧
        m'.tape.position = w.length + 1 ∧
        ∀ z : Int, m'.tape.read (z - m'.tape.position) =
          if z = w.length then (if w.count '1' % 2 = 0 then 'E' else 'O') else ' ' := by
  refine ⟨eraser, congrArg Prod.fst parse_parity, ?synonym, fun w hw => ?run⟩
  case synonym =>
    obtain ⟨document, hdocument, hsynonym⟩ := exists_synonym_parity
    refine ⟨document, erase, hdocument, hsynonym, ?_⟩
    rintro q (rfl | rfl)
    · exact ⟨rfl, _, get?_parityState false, by decide⟩
    · exact ⟨rfl, _, get?_parityState true, by decide⟩
  case run =>
    have hhalting : (eraser.withInput w).isHaltingState "done" = true := by
      rw [Specification.isHaltingState_withInput]
      decide
    have hmark : parityMark (w.count '1').bodd = if w.count '1' % 2 = 0 then 'E' else 'O' := by
      rw [Nat.mod_two_of_bodd]
      cases (w.count '1').bodd <;> rfl
    refine ⟨_, (advances_eraser hw).endsAfter rfl (.inl hhalting), rfl, hhalting, rfl, fun z => ?_⟩
    rw [← hmark]
    exact read_marked w.length _ z

/-- Three ones among symbols that the wildcard serves, one of them its own. -/
theorem parity_of_wildcards :
    ∃ s, (parse parity).1 = .ok s ∧
      let w := ['1', '_', '1', 'x', '1']
      let m := ofSpec (s.withInput w)
      let m' := (m.runFor 6).machine
      ("odd" = "even" ∨ "odd" = "odd") ∧ ' ' ∉ w ∧ (m.runFor 6).result = .ok .continued ∧
        (m.runFor 7).result = .ok .halted ∧ m'.state = "done" ∧ m'.tape.position = 6 ∧
        m'.tape.read (5 - m'.tape.position) = 'O' ∧ m'.tape.read (2 - m'.tape.position) = ' ' := by
  obtain ⟨s, hs, -, h⟩ := parity_marks
  have hw : ' ' ∉ ['1', '_', '1', 'x', '1'] := by decide
  obtain ⟨m, hends, hstate, -, hposition, hread⟩ := h _ hw
  obtain rfl := hends.machine
  exact ⟨s, hs, .inr rfl, hw, hends.continued 6 (Nat.le_refl _), (hends.halted 7 (by decide)).1, hstate,
    hposition, (hread 5).trans (by decide), (hread 2).trans (by decide)⟩

end Catalog

end TuringTable
