import TuringTable.Catalog
import TuringTable.Proofs.Catalog.Text
import TuringTable.Proofs.Machine.Compose
import TuringTable.Proofs.Machine.Pass

/-!
# Copying ones

The machine that the program `copyOnes` describes copies every unary number, in a known number of
steps (`Catalog.copyOnes_copies`). It copies one after another, each in a round of the same length:
out over the other ones and the copies to a new copy at the end (`Catalog.advances_out`), and back to
the one that it marked (`Catalog.advances_back`). Between two rounds the ones to copy are ahead of the
head, and the copies behind them after a zero (`Catalog.copies`).
-/

namespace TuringTable.Catalog

open Machine

/-- What the text of the program describes. -/
def copier : Specification where
  blank := '0'
  startState := "each"
  table := .ofList [
    ("each", some (.ofList [('0', ⟨none, .right, some "done"⟩),
      ('1', ⟨some '0', .right, some "sep"⟩)])),
    ("sep", some (.ofList [('0', ⟨none, .right, some "add"⟩), ('1', .move .right)])),
    ("add", some (.ofList [('0', ⟨some '1', .left, some "sepL"⟩), ('1', .move .right)])),
    ("sepL", some (.ofList [('0', ⟨none, .left, some "next"⟩), ('1', .move .left)])),
    ("next", some (.ofList [('0', ⟨some '1', .right, some "each"⟩), ('1', .move .left)])),
    ("done", none)]
  input := ['1', '1', '1']

theorem parse_copyOnes : parse copyOnes = (.ok copier, []) := by
  rewrite [parse_eq_ofCharacters]
  unfold copyOnes
  simp only [String.toList_append, String.reduceToList]
  decide +kernel

/-- What comes after the ones when `i` of them are copied: at first nothing, later a zero and the
copies. -/
def copies : Nat → List Char
  | 0 => []
  | i + 1 => '0' :: List.replicate (i + 1) '1'

theorem headD_copies (i : Nat) : (copies i).headD '0' = '0' := by cases i <;> rfl

theorem tail_copies (i : Nat) : (copies i).tail = List.replicate i '1' := by cases i <;> rfl

variable (input : List Char) (p : Int) (behind : List Char) (i j n : Nat)

/-- What the copier does at a symbol does not depend on its input. -/
theorem lookup_copier {q : String} {c : Char} {t : Transition}
    (h : copier.lookup q c = .ok (some t)) :
    (copier.withInput input).lookup q c = .ok (some t) :=
  (Specification.lookup_withInput ..).trans h

/-- At the end of the ones there is a zero, written or not. -/
theorem lookup_headD_copies {q : String} {t : Transition}
    (h : copier.lookup q '0' = .ok (some t)) :
    (copier.withInput input).lookup q ((copies i).headD '0') = .ok (some t) := by
  rw [headD_copies, lookup_copier input h]

/-- From a one, which is marked with a zero, over the other ones and the copies to a new copy. -/
theorem advances_out :
    let s := copier.withInput input
    Advances (i + j + 3)
      (on s "each" (.facing '0' .right p behind ('1' :: (List.replicate j '1' ++ copies i))) n)
      (on s "sepL" (.facing '0' .left (p + i + j + 1) ['1']
        (List.replicate i '1' ++ '0' :: (List.replicate j '1' ++ '0' :: behind)))
        (n + (i + j + 3))) := by
  intro s
  have hmark := advances_one p behind ('1' :: (List.replicate j '1' ++ copies i)) n
    (lookup_copier input (q := "each") (c := '1') (t := ⟨'0', .right, "sep"⟩) (by decide))
  have hones := advances_replicate (p + 1) ('0' :: behind) (copies i) (n + 1)
    (lookup_copier input (q := "sep") (c := '1') (t := ⟨'1', .right, "sep"⟩) (by decide)) j
  have hzero := advances_one (p + 1 + j) (List.replicate j '1' ++ '0' :: behind) (copies i)
    (n + 1 + j)
    (lookup_headD_copies input i (q := "sep") (t := ⟨'0', .right, "add"⟩) (by decide))
  have hcopies := advances_replicate (p + 1 + j + 1) ('0' :: (List.replicate j '1' ++ '0' :: behind))
    [] (n + 1 + j + 1)
    (lookup_copier input (q := "add") (c := '1') (t := ⟨'1', .right, "add"⟩) (by decide)) i
  -- past the last copy the head turns around
  have hadd := advances_one (p + 1 + j + 1 + i) []
    ('0' :: (List.replicate i '1' ++ '0' :: (List.replicate j '1' ++ '0' :: behind)))
    (n + 1 + j + 1 + i)
    (lookup_copier input (q := "add") (c := '0') (t := ⟨'1', .left, "sepL"⟩) (by decide))
  simp only [Direction.offset, Int.mul_one, List.append_nil] at hones hcopies
  rw [tail_copies] at hzero
  have hposition : p + i + j + 1 = p + 1 + j + 1 + i + Direction.left.offset := by
    rw [Direction.offset]
    omega
  have hsteps : n + (i + j + 3) = n + 1 + j + 1 + i + 1 := by omega
  have hcount : i + j + 3 = 1 + j + 1 + i + 1 := by omega
  rw [hposition, hsteps, hcount]
  exact (((hmark.trans hones).trans hzero).trans hcopies).trans hadd

/-- From the new copy over the others and the ones to the mark, which is a one again. -/
theorem advances_back :
    let s := copier.withInput input
    Advances (i + j + 2)
      (on s "sepL" (.facing '0' .left p ['1']
        (List.replicate i '1' ++ '0' :: (List.replicate j '1' ++ '0' :: behind))) n)
      (on s "each" (.facing '0' .right (p - i - j) ('1' :: behind)
        (List.replicate j '1' ++ copies (i + 1))) (n + (i + j + 2))) := by
  intro s
  have hcopies := advances_replicate p ['1'] ('0' :: (List.replicate j '1' ++ '0' :: behind)) n
    (lookup_copier input (q := "sepL") (c := '1') (t := ⟨'1', .left, "sepL"⟩) (by decide)) i
  have hzero := advances_one (p - i) (List.replicate i '1' ++ ['1'])
    ('0' :: (List.replicate j '1' ++ '0' :: behind)) (n + i)
    (lookup_copier input (q := "sepL") (c := '0') (t := ⟨'0', .left, "next"⟩) (by decide))
  have hones := advances_replicate (p - i - 1) ('0' :: (List.replicate i '1' ++ ['1']))
    ('0' :: behind) (n + i + 1)
    (lookup_copier input (q := "next") (c := '1') (t := ⟨'1', .left, "next"⟩) (by decide)) j
  -- at the mark the head turns around
  have hmark := advances_one (p - i - 1 - j) behind
    ('0' :: (List.replicate j '1' ++ '0' :: (List.replicate i '1' ++ ['1']))) (n + i + 1 + j)
    (lookup_copier input (q := "next") (c := '0') (t := ⟨'1', .right, "each"⟩) (by decide))
  simp only [Direction.offset, Int.mul_neg_one, ← Int.sub_eq_add_neg] at hcopies hones
  have hcopied : copies (i + 1) = '0' :: (List.replicate i '1' ++ ['1']) := by
    rw [copies, List.replicate_succ']
  have hposition : p - i - j = p - i - 1 - j + Direction.right.offset := by
    rw [Direction.offset]
    omega
  have hsteps : n + (i + j + 2) = n + i + 1 + j + 1 := by omega
  have hcount : i + j + 2 = i + 1 + j + 1 := by omega
  rw [hcopied, hposition, hsteps, hcount]
  exact ((hcopies.trans hzero).trans hones).trans hmark

/-- One round copies one of the ones, in twice as many steps as there are ones and three more. -/
theorem advances_round :
    let s := copier.withInput input
    let k := 2 * (i + (j + 1)) + 3
    Advances k
      (on s "each" (.facing '0' .right p behind (List.replicate (j + 1) '1' ++ copies i)) n)
      (on s "each" (.facing '0' .right (p + 1) ('1' :: behind)
        (List.replicate j '1' ++ copies (i + 1))) (n + k)) := by
  intro s k
  have hround := (advances_out input p behind i j n).trans
    (advances_back input (p + i + j + 1) behind i j (n + (i + j + 3)))
  have hposition : p + 1 = p + i + j + 1 - i - j := by omega
  have hsteps : n + k = n + (i + j + 3) + (i + j + 2) := by omega
  have hcount : k = i + j + 3 + (i + j + 2) := by omega
  rw [hposition, hsteps, hcount]
  exact hround

/-- The rounds after the first `i` ones are copied. -/
theorem advances_rounds :
    let s := copier.withInput input
    let k := j * (2 * (i + j) + 3)
    Advances k (on s "each" (.facing '0' .right p behind (List.replicate j '1' ++ copies i)) n)
      (on s "each" (.facing '0' .right (p + j) (List.replicate j '1' ++ behind) (copies (i + j)))
        (n + k)) := by
  induction j generalizing p behind i n with
  | zero => simpa using Advances.refl _
  | succ j ih =>
    intro s k
    have hround := advances_round input p behind i j n
    have hrest := ih (p + 1) ('1' :: behind) (i + 1) (n + (2 * (i + (j + 1)) + 3))
    have hones : List.replicate (j + 1) '1' ++ behind = List.replicate j '1' ++ '1' :: behind := by
      rw [List.replicate_succ', List.append_assoc, List.singleton_append]
    have hposition : p + ((j + 1 : Nat) : Int) = p + 1 + j := by omega
    have htotal : i + (j + 1) = i + 1 + j := by omega
    have hcopies : copies (i + (j + 1)) = copies (i + 1 + j) := by rw [htotal]
    have hcount : k = 2 * (i + (j + 1)) + 3 + j * (2 * (i + 1 + j) + 3) := by
      rw [← htotal]
      exact (Nat.succ_mul ..).trans (Nat.add_comm ..)
    have hsteps : n + k = n + (2 * (i + (j + 1)) + 3) + j * (2 * (i + 1 + j) + 3) := by omega
    rw [hones, hposition, hcopies, hsteps, hcount]
    exact hround.trans hrest

/-- The copier makes as many rounds as there are ones, and steps over the zero that is then ahead. -/
theorem advances_copier :
    let s := copier.withInput (List.replicate n '1')
    let k := n * (2 * n + 3) + 1
    Advances k (ofSpec s)
      (on s "done" (.facing '0' .right (n + 1) ('0' :: List.replicate n '1') (List.replicate n '1'))
        k) := by
  intro s k
  have hrounds := advances_rounds (List.replicate n '1') 0 [] 0 n 0
  have hzero := advances_one n (List.replicate n '1') (copies n) (n * (2 * n + 3))
    (lookup_headD_copies (List.replicate n '1') n (q := "each") (t := ⟨'0', .right, "done"⟩)
      (by decide))
  simp only [Nat.zero_add, Int.zero_add, copies, List.append_nil] at hrounds
  rw [tail_copies] at hzero
  rw [ofSpec_eq_on]
  exact hrounds.trans hzero

/-- The program copies every unary number, with a zero between the ones and their copies. It takes
`n * (2 * n + 3) + 1` steps and halts on the first copy; with nothing to copy it steps once over a
blank. -/
theorem copyOnes_copies :
    ∃ s, (parse copyOnes).1 = .ok s ∧ ∀ n : Nat, ∃ m',
      (ofSpec (s.withInput (List.replicate n '1'))).EndsAfter (n * (2 * n + 3) + 1) m' ∧
        m'.state = "done" ∧ m'.spec.isHaltingState m'.state = true ∧
        (0 < n → m'.tape.cells = List.replicate n '1' ++ '0' :: List.replicate n '1' ∧
          m'.tape.headIndex = n + 1) ∧
        (n = 0 → ∀ c ∈ m'.tape.cells, c = s.blank) := by
  refine ⟨copier, congrArg Prod.fst parse_copyOnes, fun n => ?_⟩
  have hhalting : (copier.withInput (List.replicate n '1')).isHaltingState "done" = true := by
    rw [Specification.isHaltingState_withInput]
    decide
  refine ⟨_, (advances_copier n).endsAfter rfl (.inl hhalting), rfl, hhalting,
    fun hn => ⟨?cells, ?headIndex⟩, fun hn => ?blank⟩
  case cells =>
    obtain ⟨k, rfl⟩ := Nat.exists_eq_succ_of_ne_zero (Nat.ne_of_gt hn)
    refine (Tape.cells_facing_right ..).trans ?_
    rw [List.reverse_cons, List.reverse_replicate, List.append_assoc]
    rfl
  case headIndex =>
    refine (Tape.headIndex_facing_right ..).trans ?_
    rw [List.length_cons, List.length_replicate]
  case blank =>
    subst hn
    intro c hc
    have hcells : (Tape.facing '0' .right (0 + 1) ['0'] []).cells = ['0', '0'] :=
      Tape.cells_facing_right ..
    have hmem : c ∈ ['0', '0'] := hcells ▸ hc
    have hzero : c = '0' := by simpa using hmem
    exact hzero

/-- Three ones, and none. -/
theorem copyOnes_of_three :
    ∃ s, (parse copyOnes).1 = .ok s ∧
      let three := ofSpec (s.withInput ['1', '1', '1'])
      let nothing := (ofSpec (s.withInput [])).runFor 1
      0 < 3 ∧ 28 ≤ 28 ∧ 28 < 29 ∧ (three.runFor 28).result = .ok .continued ∧
        (three.runFor 29).result = .ok .halted ∧
        (three.runFor 28).machine.tape.cells = ['1', '1', '1', '0', '1', '1', '1'] ∧
        (three.runFor 28).machine.tape.headIndex = 4 ∧
        0 = 0 ∧ nothing.machine.state = "done" ∧ ∀ c ∈ nothing.machine.tape.cells, c = s.blank := by
  obtain ⟨s, hs, h⟩ := copyOnes_copies
  obtain ⟨m, hends, -, -, hcopied, -⟩ := h 3
  obtain ⟨m', hends', hstate', -, -, hblank⟩ := h 0
  obtain ⟨hcells, hhead⟩ := hcopied (by decide)
  obtain rfl := hends.machine
  obtain rfl := hends'.machine
  exact ⟨s, hs, by decide, Nat.le_refl _, by decide, hends.continued 28 (Nat.le_refl _),
    (hends.halted 29 (by decide)).1, hcells, hhead, rfl, hstate', hblank rfl⟩

end TuringTable.Catalog
