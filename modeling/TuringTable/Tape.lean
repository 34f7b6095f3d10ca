import TuringTable.Instruction

/-!
# The tape

A tape without ends, of which only finitely many cells were given or visited. The head splits
them: `before` holds the cells to its left from left to right, `after` the cell under the head and
those to its right, the head's cell last. So a move takes a cell from the end of one and puts it on
the end of the other. A move past either side adds a blank cell, so a walk leaves its mark on
`cells` though not on what is read.

What is read is a function of the offset from the head: `read_write` says what a write does to it,
and `read_moveLeft` and `read_moveRight` that a move shifts it. The head always has a cell: no
operation leaves `after` empty.
-/

namespace TuringTable

structure Tape where
  blank : Char
  before : Array Char
  after : Array Char
  /-- The head's distance from the first cell of the input, negative to its left. -/
  position : Int
deriving Repr, DecidableEq

/-- The cell `n` places before the end of `cells`, counted from one; none before the first. -/
def fromEnd? (cells : Array Char) (n : Nat) : Option Char :=
  if n ≤ cells.size then cells[cells.size - n]? else none

theorem fromEnd?_one (cells : Array Char) : fromEnd? cells 1 = cells.back? := by
  rw [fromEnd?, Array.back?_eq_getElem?]
  split
  · rfl
  · rw [Array.getElem?_eq_none (by omega)]

theorem fromEnd?_push (cells : Array Char) (c : Char) (n : Nat) :
    fromEnd? (cells.push c) (n + 1) = if n = 0 then some c else fromEnd? cells n := by
  rw [fromEnd?, fromEnd?, Array.size_push, Nat.add_sub_add_right, Array.getElem?_push]
  grind

theorem fromEnd?_pop (cells : Array Char) (n : Nat) :
    fromEnd? cells.pop (n + 1) = fromEnd? cells (n + 2) := by
  rw [fromEnd?, fromEnd?, Array.size_pop, Array.getElem?_pop]
  grind

theorem fromEnd?_reverse_toArray (cs : List Char) (n : Nat) :
    fromEnd? cs.reverse.toArray (n + 1) = cs[n]? := by
  rw [fromEnd?]
  split
  · rename_i h
    simp only [List.size_toArray, List.length_reverse] at h
    rw [List.getElem?_toArray, List.size_toArray, List.length_reverse,
      List.getElem?_reverse (by omega)]
    congr 1
    omega
  · rename_i h
    simp only [List.size_toArray, List.length_reverse] at h
    rw [List.getElem?_eq_none (by omega)]

namespace Tape

/-- The input with the head on its first symbol; one blank cell if there is none. -/
def ofInput (blank : Char) (input : List Char) : Tape :=
  let after := input.reverse.toArray
  ⟨blank, #[], if after.isEmpty then after.push blank else after, 0⟩

/-- The symbol under the head. -/
def head (t : Tape) : Char := t.after.back?.getD t.blank

def write (t : Tape) (c : Char) : Tape :=
  { t with
    after := match t.after.back? with
      | some _ => t.after.pop.push c
      | none => t.after.push c }

def moveLeft (t : Tape) : Tape :=
  { t with
    before := t.before.pop
    after := t.after.push (t.before.back?.getD t.blank)
    position := t.position - 1 }

def moveRight (t : Tape) : Tape :=
  let after := t.after.pop
  { t with
    before := match t.after.back? with
      | some c => t.before.push c
      | none => t.before
    after := if after.isEmpty then after.push t.blank else after
    position := t.position + 1 }

def move (t : Tape) : Direction → Tape
  | .left => t.moveLeft
  | .right => t.moveRight

/-- The symbol `i` cells from the head; a cell never visited reads as blank. -/
def read (t : Tape) (i : Int) : Char :=
  let cell? := if 0 ≤ i then fromEnd? t.after (i.natAbs + 1) else fromEnd? t.before i.natAbs
  cell?.getD t.blank

/-- The symbols at the offsets `a`, `a + 1`, … before `b`. -/
def readRange (t : Tape) (a b : Int) : List Char :=
  (List.range (b - a).toNat).map fun n : Nat => t.read (a + n)

/-- Every cell given or visited, from left to right. -/
def cells (t : Tape) : List Char := t.before.toList ++ t.after.toList.reverse

/-- The head's index among `cells`. -/
def headIndex (t : Tape) : Nat := t.before.size

/-- The cells in a row, the one under the head in brackets. -/
def text (t : Tape) : String :=
  String.ofList (t.before.toList ++ '[' :: t.head :: ']' :: t.after.toList.reverse.tail)

theorem read_zero (t : Tape) : t.read 0 = t.head := by
  show (fromEnd? t.after 1).getD t.blank = t.head
  rw [fromEnd?_one, head]

theorem read_natCast (t : Tape) (n : Nat) :
    t.read n = (fromEnd? t.after (n + 1)).getD t.blank := by
  rw [read, if_pos (Int.natCast_nonneg n), Int.natAbs_natCast]

theorem read_ofInput (b : Char) (cs : List Char) (n : Nat) :
    (ofInput b cs).read n = cs[n]?.getD b := by
  rw [read_natCast]
  cases cs with
  | nil =>
    show (fromEnd? (#[].push b) (n + 1)).getD b = b
    rw [fromEnd?_push]
    cases n <;> rfl
  | cons c cs =>
    rw [← fromEnd?_reverse_toArray]
    simp [ofInput]

theorem read_ofInput_negSucc (b : Char) (cs : List Char) (n : Nat) :
    (ofInput b cs).read (.negSucc n) = b := rfl

/-- With or without a cell under the head, a write leaves the symbol on the end. -/
theorem after_write (t : Tape) (c : Char) : (t.write c).after = t.after.pop.push c := by
  rw [write]
  split
  · rfl
  · rename_i h
    rw [Array.back?_eq_none_iff.1 h]
    rfl

theorem read_write (t : Tape) (c : Char) (i : Int) :
    (t.write c).read i = if i = 0 then c else t.read i := by
  match i with
  | .ofNat 0 =>
    show (fromEnd? (t.write c).after 1).getD t.blank = c
    rw [after_write, fromEnd?_push]
    rfl
  | .ofNat (n + 1) =>
    show (fromEnd? (t.write c).after (n + 2)).getD t.blank = (fromEnd? t.after (n + 2)).getD t.blank
    rw [after_write, fromEnd?_push, if_neg n.succ_ne_zero, fromEnd?_pop]
  | .negSucc n => rfl

/-- A move to the left shifts what is read by one. -/
theorem read_moveLeft (t : Tape) (i : Int) : t.moveLeft.read i = t.read (i - 1) := by
  match i with
  | .ofNat 0 =>
    show (fromEnd? (t.after.push _) 1).getD t.blank = (fromEnd? t.before 1).getD t.blank
    rw [fromEnd?_push, fromEnd?_one]
    rfl
  | .ofNat (n + 1) =>
    rw [show Int.ofNat (n + 1) - 1 = (n : Int) by simp, read_natCast]
    show (fromEnd? (t.after.push _) (n + 2)).getD t.blank = _
    rw [fromEnd?_push, if_neg n.succ_ne_zero]
  | .negSucc n =>
    show (fromEnd? t.before.pop (n + 1)).getD t.blank = (fromEnd? t.before (n + 2)).getD t.blank
    rw [fromEnd?_pop]

/-- A move to the right from a cell shifts what is read by one. -/
theorem read_moveRight {t : Tape} (h : t.after ≠ #[]) (i : Int) :
    t.moveRight.read i = t.read (i + 1) := by
  match i with
  | .ofNat n =>
    show (fromEnd? t.moveRight.after (n + 1)).getD t.blank = (fromEnd? t.after (n + 2)).getD t.blank
    rw [moveRight, ← fromEnd?_pop]
    dsimp only
    split
    · rename_i hp
      rw [Array.isEmpty_iff.1 hp, fromEnd?_push]
      cases n <;> rfl
    · rfl
  | .negSucc 0 =>
    show (fromEnd? t.moveRight.before 1).getD t.blank = t.read 0
    rw [read_zero, head, moveRight]
    dsimp only
    split
    · rename_i c hc
      rw [fromEnd?_push, hc]
      rfl
    · rename_i hc
      exact absurd (Array.back?_eq_none_iff.1 hc) h
  | .negSucc (n + 1) =>
    show (fromEnd? t.moveRight.before (n + 2)).getD t.blank =
      (fromEnd? t.before (n + 1)).getD t.blank
    rw [moveRight]
    dsimp only
    split
    · rw [fromEnd?_push, if_neg n.succ_ne_zero]
    · rename_i hc
      exact absurd (Array.back?_eq_none_iff.1 hc) h

theorem after_ofInput_ne (b : Char) (cs : List Char) : (ofInput b cs).after ≠ #[] := by
  cases cs <;> simp [ofInput]

theorem after_write_ne (t : Tape) (c : Char) : (t.write c).after ≠ #[] := by
  simp [after_write]

theorem after_moveLeft_ne (t : Tape) : t.moveLeft.after ≠ #[] := by simp [moveLeft]

theorem after_moveRight_ne (t : Tape) : t.moveRight.after ≠ #[] := by
  rw [moveRight]
  dsimp only
  split
  · simp
  · rename_i h
    simpa using h

theorem headIndex_lt_length_cells {t : Tape} (h : t.after ≠ #[]) :
    t.headIndex < t.cells.length := by
  have := Array.size_pos_iff.2 h
  simp [headIndex, cells]
  omega

theorem getElem?_cells_headIndex {t : Tape} (h : t.after ≠ #[]) :
    t.cells[t.headIndex]? = some t.head := by
  obtain ⟨c, hc⟩ := Option.ne_none_iff_exists'.1 (mt Array.back?_eq_none_iff.1 h)
  have hl : t.after.toList.reverse[0]? = some c := by
    rw [← List.head?_eq_getElem?, List.head?_reverse, Array.getLast?_toList, hc]
  rw [headIndex, cells, head, hc, List.getElem?_append_right (by simp)]
  simpa using hl

end Tape

end TuringTable
