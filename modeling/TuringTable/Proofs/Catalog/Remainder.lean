import TuringTable.Catalog
import TuringTable.Proofs.Catalog.Text
import TuringTable.Proofs.Machine.Compose
import TuringTable.Proofs.Machine.Pass

/-!
# Divisibility by three

The machine that the program `divisibleByThree` describes decides whether a binary number is
divisible by three (`Catalog.divisibleByThree_decides`). It makes one pass over the number, and its
state tells the remainder of the digits that it has read (`Catalog.foldl_nextRemainder`). At the end it
steps into its halting state if there is none, and otherwise halts where it is.
-/

namespace TuringTable.Catalog

open Binary Machine

/-- What the text of the program describes. -/
def divider : Specification where
  blank := ' '
  startState := "q0"
  table := .ofList [
    ("q0", some (.ofList [('0', .move .right), ('1', ⟨none, .right, some "q1"⟩),
      (' ', ⟨none, .right, some "accept"⟩)])),
    ("q1", some (.ofList [('0', ⟨none, .right, some "q2"⟩), ('1', ⟨none, .right, some "q0"⟩)])),
    ("q2", some (.ofList [('0', ⟨none, .right, some "q1"⟩), ('1', .move .right)])),
    ("accept", none)]
  input := ['1', '0', '0', '1']

theorem parse_divisibleByThree : parse divisibleByThree = (.ok divider, []) := by
  rewrite [parse_eq_ofCharacters]
  unfold divisibleByThree
  simp only [String.toList_append, String.reduceToList]
  decide +kernel

/-- The remainder with one more digit. -/
def nextRemainder (r : Fin 3) (c : Char) : Fin 3 := if c = '1' then 2 * r + 1 else 2 * r

/-- The state for a remainder. -/
def remainderState : Fin 3 → String
  | 0 => "q0"
  | 1 => "q1"
  | 2 => "q2"

theorem foldl_nextRemainder (w : List Bool) :
    (digits w).foldl nextRemainder 0 = Fin.ofNat 3 (value w) := by
  have hdigit (n : Nat) (b : Bool) :
      nextRemainder (Fin.ofNat 3 n) (digit b) = Fin.ofNat 3 (2 * n + b.toNat) := by
    apply Fin.ext
    cases b <;> simp [nextRemainder, digit, Fin.val_add, Fin.val_mul]
  rw [digits, List.foldl_map, value]
  exact List.foldl_hom (Fin.ofNat 3) hdigit

theorem lookup_digit (w : List Bool) (r : Fin 3) (b : Bool) :
    (divider.withInput (digits w)).lookup (remainderState r) (digit b) =
      .ok (some ⟨digit b, .right, remainderState (nextRemainder r (digit b))⟩) := by
  rw [Specification.lookup_withInput]
  revert r b
  decide

theorem advances_over_digits (w : List Bool) :
    let s := divider.withInput (digits w)
    Advances w.length (ofSpec s)
      (on s (remainderState (Fin.ofNat 3 (value w)))
        (.facing ' ' .right w.length (digits w).reverse []) w.length) := by
  intro s
  have hdigits : ∀ r, ∀ c ∈ digits w, s.lookup (remainderState r) c =
      .ok (some ⟨c, .right, remainderState (nextRemainder r c)⟩) :=
    fun r => List.forall_mem_map.2 fun b _ => lookup_digit w r b
  have hpass := advances_pass 0 [] [] 0 remainderState nextRemainder id hdigits 0
  simp only [List.append_nil, List.map_id, length_digits, Direction.offset, Int.mul_one,
    Int.zero_add, Nat.zero_add, foldl_nextRemainder] at hpass
  rw [ofSpec_eq_on]
  exact hpass

/-- The digits are still there, whatever the head has passed after them. -/
theorem readRange_digits (w : List Bool) (passed : List Char) {p : Int}
    (hp : p = w.length + passed.length) :
    (Tape.facing ' ' .right p (passed ++ (digits w).reverse) []).readRange (-p) (w.length - p) =
      digits w := by
  have hlength : p = ((passed ++ (digits w).reverse).length : Nat) := by
    rw [List.length_append, List.length_reverse, length_digits, hp]
    omega
  have hread := Tape.readRange_facing_right ' ' p (passed ++ (digits w).reverse) []
    (k := w.length) (by simp [length_digits])
  rw [← hlength] at hread
  rw [hread, List.reverse_append, List.reverse_reverse, List.take_left' (length_digits w)]

/-- With no remainder one more step leads over the blank after the number. -/
theorem endsAfter_of_divisible {w : List Bool} (hr : value w % 3 = 0) :
    let s := divider.withInput (digits w)
    s.isHaltingState "accept" = true ∧
      (ofSpec s).EndsAfter (w.length + 1) (on s "accept"
        (.facing ' ' .right (w.length + 1) ([' '] ++ (digits w).reverse) []) (w.length + 1)) := by
  intro s
  have hstate : Fin.ofNat 3 (value w) = 0 := Fin.ext hr
  have hblank : s.lookup (remainderState 0) ' ' = .ok (some ⟨' ', .right, "accept"⟩) := by
    rw [Specification.lookup_withInput]
    decide
  have haccept : s.isHaltingState "accept" = true := by
    rw [Specification.isHaltingState_withInput]
    decide
  have hpass := advances_over_digits w
  rw [hstate] at hpass
  have hall := hpass.trans (advances_one w.length (digits w).reverse [] w.length hblank)
  exact ⟨haccept, hall.endsAfter rfl (.inl haccept)⟩

/-- With a remainder there is nothing to do at that blank. -/
theorem endsAfter_of_remainder {w : List Bool} {r : Fin 3} (hr : value w % 3 = r) (hne : r ≠ 0) :
    let s := divider.withInput (digits w)
    let m' := on s (remainderState r) (.facing ' ' .right w.length (digits w).reverse []) w.length
    s.isHaltingState (remainderState r) = false ∧ m'.step.result = .ok .halted ∧
      (ofSpec s).EndsAfter w.length m' := by
  intro s m'
  have hstate : Fin.ofNat 3 (value w) = r := Fin.ext hr
  have hrows : ∀ r, divider.isHaltingState (remainderState r) = false := by decide
  have hblank : ∀ r, r ≠ 0 → divider.lookup (remainderState r) ' ' = .ok none := by decide
  have hnone : m'.nextTransition = .ok none :=
    (Specification.lookup_withInput ..).trans (hblank r hne)
  have hpass := advances_over_digits w
  rw [hstate] at hpass
  refine ⟨(Specification.isHaltingState_withInput ..).trans (hrows r), ?_,
    hpass.endsAfter rfl (.inr hnone)⟩
  rw [step_of_none rfl hnone]

/-- The program decides divisibility by three for every binary number. If it is divisible, the
machine steps over it and the blank after it into the halting state; if not, it halts on that blank
in the state that tells the remainder. The number is left as it was. -/
theorem divisibleByThree_decides :
    ∃ s, (parse divisibleByThree).1 = .ok s ∧ ∀ w : List Bool,
      let m := ofSpec (s.withInput (digits w))
      let held (t : Tape) := t.readRange (-t.position) (w.length - t.position)
      (value w % 3 = 0 → ∃ m', m.EndsAfter (w.length + 1) m' ∧ m'.state = "accept" ∧
        m'.spec.isHaltingState m'.state = true ∧ held m'.tape = digits w) ∧
      ∀ r q, (r = 1 ∧ q = "q1") ∨ (r = 2 ∧ q = "q2") → value w % 3 = r →
        ∃ m', m.EndsAfter w.length m' ∧ m'.state = q ∧ m'.spec.isHaltingState m'.state = false ∧
          m'.step.result = .ok .halted ∧ held m'.tape = digits w := by
  refine ⟨divider, congrArg Prod.fst parse_divisibleByThree, fun w => ⟨fun hr => ?_, ?_⟩⟩
  · obtain ⟨haccept, hends⟩ := endsAfter_of_divisible hr
    exact ⟨_, hends, rfl, haccept, readRange_digits w [' '] rfl⟩
  · have hheld := readRange_digits w [] (Int.add_zero _).symm
    rintro r q (⟨rfl, rfl⟩ | ⟨rfl, rfl⟩) hr
    · obtain ⟨hrow, hstep, hends⟩ := endsAfter_of_remainder (r := 1) hr (by decide)
      exact ⟨_, hends, rfl, hrow, hstep, hheld⟩
    · obtain ⟨hrow, hstep, hends⟩ := endsAfter_of_remainder (r := 2) hr (by decide)
      exact ⟨_, hends, rfl, hrow, hstep, hheld⟩

/-- Nine is divisible by three, and four leaves one. -/
theorem divisibleByThree_of_nine :
    ∃ s, (parse divisibleByThree).1 = .ok s ∧
      let nine := ofSpec (s.withInput ['1', '0', '0', '1'])
      let four := ofSpec (s.withInput ['1', '0', '0'])
      value [true, false, false, true] % 3 = 0 ∧ (nine.runFor 5).result = .ok .continued ∧
        (nine.runFor 5).machine.state = "accept" ∧ (nine.runFor 6).result = .ok .halted ∧
        (1 = 1 ∧ "q1" = "q1") ∧ value [true, false, false] % 3 = 1 ∧
        (four.runFor 3).result = .ok .continued ∧
        (four.runFor 3).machine.state = "q1" ∧ (four.runFor 4).result = .ok .halted ∧
        (four.runFor 4).machine.haltReported = true := by
  obtain ⟨s, hs, h⟩ := divisibleByThree_decides
  obtain ⟨m, hends, haccept, -⟩ := (h [true, false, false, true]).1 rfl
  obtain ⟨m', hends', hone, hrow, -⟩ := (h [true, false, false]).2 1 "q1" (.inl ⟨rfl, rfl⟩) rfl
  obtain ⟨hhalted, hlatched⟩ := hends'.halted 4 (by decide)
  obtain rfl := hends.machine
  obtain rfl := hends'.machine
  refine ⟨s, hs, rfl, hends.continued 5 (Nat.le_refl _), haccept, (hends.halted 6 (by decide)).1,
    ⟨rfl, rfl⟩, rfl, hends'.continued 3 (Nat.le_refl _), hone, hhalted, ?_⟩
  exact (congrArg Machine.haltReported hlatched).trans (by rw [hrow]; rfl)

end TuringTable.Catalog
