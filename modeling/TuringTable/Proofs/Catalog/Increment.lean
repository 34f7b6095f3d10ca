import Mathlib.Control.Monad.Basic
import Mathlib.Data.List.DropRight
import TuringTable.Catalog
import TuringTable.Proofs.Catalog.Text
import TuringTable.Proofs.Machine.Pass

/-!
# Binary increment

The machine that the program `binaryIncrement` describes adds one to every binary number, in a known
number of steps (`Catalog.binaryIncrement_adds_one`). It makes two passes, to the right over the
number and back over the ones at its end, and one step at each turn
(`Catalog.advances_incrementer`). What it leaves is `Binary.succ`, whose value is found by induction
on the digits from the last one.
-/

namespace TuringTable

/-! ### The next number -/

namespace Binary

/-- The number of ones at the end. -/
def trailingOnes (w : List Bool) : Nat := (w.reverse.takeWhile id).length

/-- The next number: the ones at the end become zeros, and the digit before them, or a new one if
there is none, becomes a one. -/
def succ (w : List Bool) : List Bool :=
  (w.reverse.dropWhile id).tail.reverse ++ true :: List.replicate (trailingOnes w) false

theorem reverse_eq_append (w : List Bool) :
    w.reverse = List.replicate (trailingOnes w) true ++ w.reverse.dropWhile id := by
  have hones : w.reverse.takeWhile id = List.replicate (trailingOnes w) true :=
    List.eq_replicate_iff.2 ⟨rfl, fun b hb => List.mem_takeWhile_imp hb⟩
  rw [← hones, List.takeWhile_append_dropWhile]

theorem digits_reverse_eq_append (w : List Bool) :
    digits w.reverse =
      List.replicate (trailingOnes w) '1' ++ digits (w.reverse.dropWhile id) := by
  calc digits w.reverse
    _ = digits (List.replicate (trailingOnes w) true ++ w.reverse.dropWhile id) := by
      rw [← reverse_eq_append]
    _ = _ := by
      rw [digits, List.map_append, List.map_replicate]
      rfl

/-- Before the ones at the end there is a zero or nothing. -/
theorem headD_digits_rest (w : List Bool) :
    (digits (w.reverse.dropWhile id)).headD ' ' = '0' ∨
      (digits (w.reverse.dropWhile id)).headD ' ' = ' ' := by
  have hhead := List.head?_dropWhile_not id w.reverse
  cases hrest : w.reverse.dropWhile id with
  | nil => exact .inr rfl
  | cons b rest =>
    rw [hrest] at hhead
    have hb : b = false := by simpa using hhead
    exact .inl (by rw [hb]; rfl)

theorem succ_concat_true (w : List Bool) : succ (w ++ [true]) = succ w ++ [false] := by
  simp [succ, trailingOnes, List.replicate_succ']

theorem succ_concat_false (w : List Bool) : succ (w ++ [false]) = w ++ [true] := by
  simp [succ, trailingOnes]

theorem value_succ (w : List Bool) : value (succ w) = value w + 1 := by
  induction w using List.reverseRecOn with
  | nil => rfl
  | append_singleton w b ih =>
    cases b with
    | false => rw [succ_concat_false, value_concat, value_concat, Bool.toNat_true, Bool.toNat_false]
    | true =>
      rw [succ_concat_true, value_concat, value_concat, ih, Bool.toNat_true, Bool.toNat_false]
      omega

theorem length_succ (w : List Bool) :
    (succ w).length = if w.all id then w.length + 1 else w.length := by
  induction w using List.reverseRecOn with
  | nil => rfl
  | append_singleton w b ih =>
    cases b with
    | false => simp [succ_concat_false]
    | true =>
      rw [succ_concat_true, List.length_append, ih, List.all_append, List.length_append]
      cases w.all id <;> rfl

theorem digits_succ (w : List Bool) :
    digits (succ w) = (digits (w.reverse.dropWhile id).tail).reverse ++
      '1' :: List.replicate (trailingOnes w) '0' := by
  rw [succ, digits, List.map_append, List.map_reverse, List.map_cons, List.map_replicate]
  rfl

/-! ### Digits among spaces -/

/-- The cells without the spaces around them. -/
def strip (cells : List Char) : List Char := (cells.dropWhile (· = ' ')).rdropWhile (· = ' ')

theorem dropWhile_spaces {spaces cs rest : List Char} (hs : ∀ c ∈ spaces, c = ' ')
    (hne : cs ≠ []) (hcs : ∀ c ∈ cs, c ≠ ' ') :
    (spaces ++ (cs ++ rest)).dropWhile (· = ' ') = cs ++ rest := by
  obtain ⟨c, cs, rfl⟩ := List.exists_cons_of_ne_nil hne
  rw [List.dropWhile_append_of_pos (by simpa using hs), List.cons_append,
    List.dropWhile_cons_of_neg (by simpa using hcs c List.mem_cons_self)]

theorem strip_eq {before cs after : List Char} (hb : ∀ c ∈ before, c = ' ')
    (ha : ∀ c ∈ after, c = ' ') (hne : cs ≠ []) (hcs : ∀ c ∈ cs, c ≠ ' ') :
    strip (before ++ (cs ++ after)) = cs := by
  have hrev : (after.reverse ++ (cs.reverse ++ [])).dropWhile (· = ' ') = cs.reverse ++ [] :=
    dropWhile_spaces (by simpa using ha) (by simpa using hne) (by simpa using hcs)
  rw [strip, dropWhile_spaces hb hne hcs, List.rdropWhile, List.reverse_append]
  rw [List.append_nil] at hrev
  rw [hrev, List.reverse_reverse]

theorem ne_space_of_mem_digits {w : List Bool} : ∀ c ∈ digits w, c ≠ ' ' :=
  List.forall_mem_map.2 fun b _ => by cases b <;> decide

end Binary

namespace Catalog

/-- What the text of the program describes. -/
def incrementer : Specification where
  blank := ' '
  startState := "right"
  table := .ofList [
    ("right", some (.ofList [('0', .move .right), ('1', .move .right),
      (' ', ⟨none, .left, some "carry"⟩)])),
    ("carry", some (.ofList [('1', ⟨some '0', .left, none⟩), ('0', ⟨some '1', .left, some "done"⟩),
      (' ', ⟨some '1', .left, some "done"⟩)])),
    ("done", none)]
  input := ['1', '0', '1', '1']

theorem parse_binaryIncrement : parse binaryIncrement = (.ok incrementer, []) := by
  rewrite [parse_eq_ofCharacters]
  unfold binaryIncrement
  simp only [String.toList_append, String.reduceToList]
  decide +kernel

open Binary Machine

theorem advances_to_end (w : List Bool) :
    let s := incrementer.withInput (digits w)
    Advances w.length (ofSpec s)
      (on s "right" (.facing ' ' .right w.length (digits w.reverse) []) w.length) := by
  intro s
  have hdigits : ∀ c ∈ digits w, s.lookup "right" c = .ok (some ⟨c, .right, "right"⟩) := by
    refine List.forall_mem_map.2 fun b _ => ?_
    rw [Specification.lookup_withInput]
    cases b <;> decide
  have h := advances_scan 0 [] [] 0 id hdigits
  simp only [List.append_nil, List.map_id, length_digits, ← digits_reverse, Direction.offset,
    Int.mul_one, Int.zero_add, Nat.zero_add] at h
  rw [ofSpec_eq_on]
  exact h

theorem advances_over_ones (w : List Bool) (p : Int) (n : Nat) :
    let s := incrementer.withInput (digits w)
    let k := trailingOnes w
    Advances k (on s "carry" (.facing ' ' .left p [' '] (digits w.reverse)) n)
      (on s "carry" (.facing ' ' .left (p - k) (List.replicate k '0' ++ [' '])
        (digits (w.reverse.dropWhile id))) (n + k)) := by
  intro s k
  have hone : s.lookup "carry" '1' = .ok (some ⟨'0', .left, "carry"⟩) := by
    rw [Specification.lookup_withInput]
    decide
  have h := advances_replicate p [' '] (digits (w.reverse.dropWhile id)) n hone k
  simp only [Direction.offset, Int.mul_neg_one, ← Int.sub_eq_add_neg] at h
  rw [digits_reverse_eq_append]
  exact h

/-- The incrementer goes to the right end of the number and comes back over the ones at the end,
which it turns to zeros, to the digit before them. -/
theorem advances_incrementer (w : List Bool) :
    let s := incrementer.withInput (digits w)
    let k := trailingOnes w
    Advances (w.length + k + 2) (ofSpec s)
      (on s "done" (.facing ' ' .left (w.length - k - 2)
        ('1' :: (List.replicate k '0' ++ [' '])) (digits (w.reverse.dropWhile id).tail))
        (w.length + k + 2)) := by
  intro s k
  let rest := w.reverse.dropWhile id
  have hturn : Advances 1
      (on s "right" (.facing ' ' .right w.length (digits w.reverse) []) w.length)
      (on s "carry" (.facing ' ' .left (w.length - 1) [' '] (digits w.reverse))
        (w.length + 1)) := by
    have hblank : s.lookup "right" ' ' = .ok (some ⟨' ', .left, "carry"⟩) := by
      rw [Specification.lookup_withInput]
      decide
    rw [show Direction.right = Direction.left.opposite from rfl, Tape.facing_opposite]
    exact advances_one _ [] (' ' :: digits w.reverse) _ hblank
  have hlast : Advances 1
      (on s "carry" (.facing ' ' .left (w.length - 1 - k) (List.replicate k '0' ++ [' '])
        (digits rest)) (w.length + 1 + k))
      (on s "done" (.facing ' ' .left (w.length - 1 - k - 1)
        ('1' :: (List.replicate k '0' ++ [' '])) (digits rest.tail)) (w.length + 1 + k + 1)) := by
    have hzero : s.lookup "carry" ((digits rest).headD ' ') = .ok (some ⟨'1', .left, "done"⟩) := by
      rw [Specification.lookup_withInput]
      rcases headD_digits_rest w with h | h <;> rw [h] <;> decide
    have h := advances_one (w.length - 1 - k) (List.replicate k '0' ++ [' ']) (digits rest)
      (w.length + 1 + k) hzero
    rw [digits, ← List.map_tail] at h
    exact h
  have hall := (((advances_to_end w).trans hturn).trans (advances_over_ones w _ _)).trans hlast
  have hlength : w.length + k + 2 = w.length + 1 + k + 1 := by omega
  have hposition : (w.length : Int) - k - 2 = w.length - 1 - k - 1 := by omega
  rw [hlength, hposition]
  exact hall

/-- The incrementer leaves the next number, with a space on the right where it turned around and one
on the left if it came to the first digit or beyond it. -/
theorem strip_cells_incrementer (w : List Bool) (p : Int) :
    strip (Tape.facing ' ' .left p ('1' :: (List.replicate (trailingOnes w) '0' ++ [' ']))
      (digits (w.reverse.dropWhile id).tail)).cells = digits (succ w) := by
  have hne : digits (succ w) ≠ [] := by simp [digits_succ]
  have hspace : ∀ c ∈ [' '], c = ' ' := by simp
  rw [Tape.cells_facing_left]
  cases hrest : digits (w.reverse.dropWhile id).tail with
  | nil =>
    have hcells : [].tail.reverse ++ [].headD ' ' ::
        ('1' :: (List.replicate (trailingOnes w) '0' ++ [' '])) =
        [' '] ++ (digits (succ w) ++ [' ']) := by
      rw [digits_succ, hrest]
      rfl
    rw [hcells, strip_eq hspace hspace hne ne_space_of_mem_digits]
  | cons c cs =>
    have hcells : (c :: cs).tail.reverse ++ (c :: cs).headD ' ' ::
        ('1' :: (List.replicate (trailingOnes w) '0' ++ [' '])) =
        [] ++ (digits (succ w) ++ [' ']) := by
      rw [digits_succ, hrest]
      simp
    rw [hcells, strip_eq (List.forall_mem_nil _) hspace hne ne_space_of_mem_digits]

/-- The program adds one to every binary number. With `k` ones at the end it takes as many steps as
there are digits and `k + 2` more, and halts on the second cell before these ones; between spaces
the number is then the next one, with a digit more if all were ones. -/
theorem binaryIncrement_adds_one :
    ∃ s, (parse binaryIncrement).1 = .ok s ∧ ∀ w : List Bool,
      let m := ofSpec (s.withInput (digits w))
      let k := trailingOnes w
      let n := w.length + k + 2
      let m' := (m.runFor n).machine
      (m.runFor n).result = .ok .continued ∧ m'.steps = n ∧ m'.state = "done" ∧
        m'.spec.isHaltingState m'.state = true ∧ m'.tape.position = w.length - k - 2 ∧
        (∃ v, strip m'.tape.cells = digits v ∧
          v.length = (if w.all id then w.length + 1 else w.length) ∧ value v = value w + 1) ∧
        ∀ j, n < j → (m.runFor j).result = .ok .halted ∧ (m.runFor j).machine = m' := by
  refine ⟨incrementer, congrArg Prod.fst parse_binaryIncrement, fun w => ?_⟩
  intro m k n m'
  have hrun := advances_incrementer w
  obtain ⟨hresult, hm'⟩ : (m.runFor n).result = .ok .continued ∧ m' = on _ _ _ _ := hrun.runFor rfl
  have hhalting : (incrementer.withInput (digits w)).isHaltingState "done" = true := by
    rw [Specification.isHaltingState_withInput]
    decide
  refine ⟨hresult, ?steps, ?state, ?halting, ?position, ⟨succ w, ?cells, length_succ w,
    value_succ w⟩, fun j hj => ?longer⟩
  case steps => rw [hm']; rfl
  case state => rw [hm']; rfl
  case halting => rw [hm']; exact hhalting
  case position => rw [hm']; exact Tape.position_facing ..
  case cells => rw [hm']; exact strip_cells_incrementer w _
  case longer =>
    rw [hm']
    exact hrun.runFor_of_halting rfl hj hhalting

/-- From 11, where two ones are carried over, to 12. -/
theorem binaryIncrement_from_eleven :
    ∃ s, (parse binaryIncrement).1 = .ok s ∧ 8 < 9 ∧
      let run := (ofSpec (s.withInput ['1', '0', '1', '1'])).runFor 9
      run.result = .ok .halted ∧ run.machine.steps = 8 ∧
        ∃ v, strip run.machine.tape.cells = digits v ∧ value v = 12 := by
  obtain ⟨s, hs, h⟩ := binaryIncrement_adds_one
  obtain ⟨-, hsteps, -, -, -, ⟨v, hcells, -, hvalue⟩, hlonger⟩ := h [true, false, true, true]
  obtain ⟨hresult, hmachine⟩ := hlonger 9 (by decide)
  refine ⟨s, hs, by decide, hresult, ?_, v, ?_, hvalue⟩
  · exact (congrArg Machine.steps hmachine).trans hsteps
  · exact (congrArg (strip ·.tape.cells) hmachine).trans hcells

end Catalog

end TuringTable
