import Mathlib.Order.Bounds.Basic
import TuringTable.Proofs.Tape.Line

/-!
# What a tape has cells for

A tape has a cell at every position from its `first` to its `last`, and what they hold is what the
line has there (`Shows.cells`). An operation moves an end only if the head goes beyond it
(`first_perform`, `last_perform`), so the ends are the least and the greatest position that the head
ever had or the input reached to (`Shows.first_performAll`, `Shows.last_performAll`). A `History` is
a new tape with what was done at it; what its tape still tells of it is in `cells_of_history`.
-/

namespace TuringTable

namespace Line

/-- Every position of the head, that at the start and those after each operation. -/
def passed (l : Line) (ops : List TapeOp) : Set Int :=
  {p | ∃ done, done <+: ops ∧ (l.performAll done).head = p}

/-- The least position of the head. -/
def leftmost (l : Line) : List TapeOp → Int
  | [] => l.head
  | op :: ops => min l.head ((l.perform op).leftmost ops)

/-- The greatest position of the head. -/
def rightmost (l : Line) : List TapeOp → Int
  | [] => l.head
  | op :: ops => max l.head ((l.perform op).rightmost ops)

variable (l : Line) (op : TapeOp) (ops : List TapeOp)

theorem passed_nil : l.passed [] = {l.head} := by
  ext p
  simp [passed, performAll, eq_comm]

theorem passed_cons : l.passed (op :: ops) = insert l.head ((l.perform op).passed ops) := by
  ext p
  simp only [passed, List.prefix_cons_iff, Set.mem_insert_iff, Set.mem_ofPred_eq]
  constructor
  · rintro ⟨_, rfl | ⟨done, rfl, h⟩, rfl⟩
    · exact .inl rfl
    · exact .inr ⟨done, h, rfl⟩
  · rintro (rfl | ⟨done, h, rfl⟩)
    · exact ⟨[], .inl rfl, rfl⟩
    · exact ⟨op :: done, .inr ⟨done, rfl, h⟩, rfl⟩

theorem isLeast_leftmost : IsLeast (l.passed ops) (l.leftmost ops) := by
  induction ops generalizing l with
  | nil =>
    rw [passed_nil]
    exact isLeast_singleton
  | cons op ops ih =>
    rw [passed_cons]
    exact (ih _).insert l.head

theorem isGreatest_rightmost : IsGreatest (l.passed ops) (l.rightmost ops) := by
  induction ops generalizing l with
  | nil =>
    rw [passed_nil]
    exact isGreatest_singleton
  | cons op ops ih =>
    rw [passed_cons]
    exact (ih _).insert l.head

theorem cells_performAll_of_moves {l : Line} {ops : List TapeOp} (h : ∀ c, .write c ∉ ops) :
    (l.performAll ops).cells = l.cells := by
  induction ops generalizing l with
  | nil => rfl
  | cons op ops ih =>
    have hop : (l.perform op).cells = l.cells := by
      cases op with
      | write c => exact absurd List.mem_cons_self (h c)
      | _ => rfl
    exact (ih fun c hc => h c (List.mem_cons_of_mem _ hc)).trans hop

theorem leftmost_le_head : l.leftmost ops ≤ l.head :=
  (l.isLeast_leftmost ops).2 ⟨[], List.nil_prefix, rfl⟩

theorem head_le_rightmost : l.head ≤ l.rightmost ops :=
  (l.isGreatest_rightmost ops).2 ⟨[], List.nil_prefix, rfl⟩

end Line

namespace Tape
variable {t : Tape}

/-! ### The ends of the cells -/

/-- The position of the first cell. -/
def first (t : Tape) : Int := t.position - t.headIndex

/-- The position of the last cell. -/
def last (t : Tape) : Int := t.position + t.after.size - 1

theorem first_le_position (t : Tape) : t.first ≤ t.position := by
  rw [first]
  omega

theorem position_le_last (h : t.after ≠ #[]) : t.position ≤ t.last := by
  have := Array.size_pos_iff.2 h
  rw [last]
  omega

theorem size_before_moveRight (h : t.after ≠ #[]) :
    t.moveRight.before.size = t.before.size + 1 := by
  rw [moveRight]
  dsimp only
  split
  · rw [Array.size_push]
  · exact absurd (Array.back?_eq_none_iff.1 ‹_›) h

theorem size_after_moveRight (t : Tape) : t.moveRight.after.size = max 1 (t.after.size - 1) := by
  rw [moveRight]
  dsimp only
  split
  · rename_i hp
    rw [Array.size_push, Array.isEmpty_iff.1 hp, ← Array.size_pop, Array.isEmpty_iff.1 hp]
    rfl
  · rename_i hp
    have := Array.size_pos_iff.2 (mt Array.isEmpty_iff.2 hp)
    rw [Array.size_pop] at this ⊢
    omega

/-- Only a move to the left from the first cell adds one before it. -/
theorem first_perform (h : t.after ≠ #[]) (op : TapeOp) :
    (t.perform op).first = min t.first (t.perform op).position := by
  cases op with
  | left =>
    show t.position - 1 - (t.before.pop.size : Int) =
      min (t.position - t.before.size) (t.position - 1)
    rw [Array.size_pop]
    omega
  | right =>
    show t.position + 1 - (t.moveRight.before.size : Int) =
      min (t.position - t.before.size) (t.position + 1)
    rw [size_before_moveRight h]
    omega
  | write c => exact (min_eq_left (first_le_position t)).symm

/-- Only a move to the right from the last cell adds one behind it. -/
theorem last_perform (h : t.after ≠ #[]) (op : TapeOp) :
    (t.perform op).last = max t.last (t.perform op).position := by
  have hsize := Array.size_pos_iff.2 h
  cases op with
  | left =>
    show t.position - 1 + ((t.after.push _).size : Int) - 1 =
      max (t.position + t.after.size - 1) (t.position - 1)
    rw [Array.size_push]
    omega
  | right =>
    show t.position + 1 + (t.moveRight.after.size : Int) - 1 =
      max (t.position + t.after.size - 1) (t.position + 1)
    rw [size_after_moveRight]
    omega
  | write c =>
    show t.position + ((t.write c).after.size : Int) - 1 =
      max (t.position + t.after.size - 1) t.position
    rw [after_write, Array.size_push, Array.size_pop]
    omega

/-! ### The cells themselves -/

theorem length_cells (t : Tape) : t.cells.length = t.before.size + t.after.size := by simp [cells]

theorem fromEnd?_size_sub (cells : Array Char) {i : Nat} (h : i < cells.size) :
    fromEnd? cells (cells.size - i) = some cells[i] := by
  rw [fromEnd?, if_pos (by omega), show cells.size - (cells.size - i) = i by omega,
    Array.getElem?_eq_getElem h]

/-- The cells are what is read from the first one to the last. -/
theorem cells_eq_readRange (t : Tape) : t.cells = t.readRange (-t.before.size) t.after.size := by
  refine List.ext_getElem ?_ fun i hi _ => ?_
  · rw [length_cells, readRange, List.length_map, List.length_range]
    omega
  · rw [length_cells] at hi
    simp only [cells, readRange, List.getElem_map, List.getElem_range]
    by_cases hb : i < t.before.size
    · rw [List.getElem_append_left (by simpa using hb), Array.getElem_toList, read,
        if_neg (by omega), show (-(t.before.size : Int) + i).natAbs = t.before.size - i by omega,
        fromEnd?_size_sub _ hb]
      rfl
    · obtain ⟨j, rfl⟩ := Nat.exists_eq_add_of_le (Nat.le_of_not_lt hb)
      have hj : t.after.size - 1 - j < t.after.size := by omega
      have hread : -(t.before.size : Int) + ((t.before.size + j : Nat) : Int) = j := by omega
      rw [hread, read_natCast, show j + 1 = t.after.size - (t.after.size - 1 - j) by omega,
        fromEnd?_size_sub _ hj]
      simp [List.getElem_append_right]

theorem exists_cells_eq (h : t.after ≠ #[]) :
    ∃ before after, t.cells = before ++ t.head :: after ∧ before.length = t.headIndex ∧
      t.text = String.ofList (before ++ '[' :: t.head :: ']' :: after) := by
  have hi := headIndex_lt_length_cells h
  have hhead : t.cells[t.headIndex] = t.head :=
    Option.some.inj ((List.getElem?_eq_getElem hi).symm.trans (getElem?_cells_headIndex h))
  have hbefore : t.cells.take t.headIndex = t.before.toList := by simp [cells, headIndex]
  have hafter : t.cells.drop (t.headIndex + 1) = t.after.toList.reverse.tail := by
    simp [cells, headIndex, List.drop_append]
  refine ⟨t.cells.take t.headIndex, t.cells.drop (t.headIndex + 1), ?_, ?_, ?_⟩
  · rw [← hhead, List.cons_getElem_drop_succ, List.take_append_drop]
  · rw [List.length_take]
    omega
  · rw [hbefore, hafter, text]

theorem ext_cells {t u : Tape} (hblank : t.blank = u.blank) (hposition : t.position = u.position)
    (hindex : t.headIndex = u.headIndex) (hcells : t.cells = u.cells) : t = u := by
  obtain ⟨hbefore, hafter⟩ := List.append_inj hcells hindex
  obtain ⟨b, before, after, p⟩ := t
  obtain ⟨b', before', after', p'⟩ := u
  cases hblank
  cases hposition
  cases Array.toList_inj.1 hbefore
  cases Array.toList_inj.1 (List.reverse_inj.1 hafter)
  rfl

/-! ### Tapes and how they came about -/

theorem blank_performAll (t : Tape) (ops : List TapeOp) : (t.performAll ops).blank = t.blank := by
  induction ops generalizing t with
  | nil => rfl
  | cons op ops ih => exact (ih _).trans (by cases op <;> rfl)

namespace Shows
variable {l : Line}

/-- There is a first cell from the start, and a new one wherever the head goes beyond. -/
theorem first_performAll (h : t.Shows l) (ops : List TapeOp) :
    (t.performAll ops).first = min t.first (l.leftmost ops) := by
  induction ops generalizing t l with
  | nil =>
    have := t.first_le_position
    rw [h.position] at this
    exact (min_eq_left this).symm
  | cons op ops ih =>
    have hop := h.perform op
    have hhead := t.first_le_position
    rw [h.position] at hhead
    have hleft := (l.perform op).leftmost_le_head ops
    show ((t.perform op).performAll ops).first = min t.first (min l.head _)
    rw [ih hop, first_perform h.headed, hop.position]
    omega

theorem last_performAll (h : t.Shows l) (ops : List TapeOp) :
    (t.performAll ops).last = max t.last (l.rightmost ops) := by
  induction ops generalizing t l with
  | nil =>
    have := position_le_last h.headed
    rw [h.position] at this
    exact (max_eq_left this).symm
  | cons op ops ih =>
    have hop := h.perform op
    have hhead := position_le_last h.headed
    rw [h.position] at hhead
    have hright := (l.perform op).head_le_rightmost ops
    show ((t.perform op).performAll ops).last = max t.last (max l.head _)
    rw [ih hop, last_perform h.headed, hop.position]
    omega

/-- The cells are those of the line between the two ends. -/
theorem cells (h : t.Shows l) : t.cells = (Int.range t.first (t.last + 1)).map l.cells := by
  have hlength : (t.last + 1 - t.first).toNat = ((t.after.size : Int) - -t.before.size).toNat := by
    rw [last, first, headIndex]
    omega
  rw [cells_eq_readRange, h.readRange, Int.range, Int.range, hlength, List.map_map, List.map_map]
  refine List.map_congr_left fun n _ => congrArg l.cells ?_
  dsimp only
  rw [← h.position, first, headIndex]
  omega

end Shows

/-- A tape that was new once, and what was done at it since. -/
structure History where
  blank : Char
  input : List Char
  ops : List TapeOp
deriving Repr, DecidableEq

namespace History

def tape (h : History) : Tape := (ofInput h.blank h.input).performAll h.ops

def line (h : History) : Line := (Line.ofInput h.blank h.input).performAll h.ops

/-- The least position that the head ever had. -/
def lo (h : History) : Int := (Line.ofInput h.blank h.input).leftmost h.ops

/-- The greatest position of the head or of a symbol of the input; an empty input has a blank. -/
def hi (h : History) : Int :=
  max (((max h.input.length 1 : Nat) : Int) - 1) ((Line.ofInput h.blank h.input).rightmost h.ops)

variable (h : History)

theorem shows_tape : h.tape.Shows h.line := (shows_ofInput h.blank h.input).performAll h.ops

theorem blank_tape : h.tape.blank = h.blank := blank_performAll _ h.ops

theorem first_tape : h.tape.first = h.lo := by
  have hnew : (ofInput h.blank h.input).first = (Line.ofInput h.blank h.input).head := rfl
  rw [tape, (shows_ofInput h.blank h.input).first_performAll, hnew]
  exact min_eq_right (Line.leftmost_le_head ..)

theorem last_tape : h.tape.last = h.hi := by
  have hnew : (ofInput h.blank h.input).last = ((max h.input.length 1 : Nat) : Int) - 1 := by
    cases hc : h.input <;> simp [last, ofInput]
  rw [tape, (shows_ofInput h.blank h.input).last_performAll, hnew, hi]

theorem cells_tape : h.tape.cells = (Int.range h.lo (h.hi + 1)).map h.line.cells := by
  rw [← first_tape, ← last_tape]
  exact h.shows_tape.cells

theorem headIndex_tape : (h.tape.headIndex : Int) = h.tape.position - h.lo := by
  rw [← first_tape, first]
  omega

/-- What is on the line where the tape has a cell can be read off the tape. -/
theorem tape_eq_tape_iff {h k : History} :
    h.tape = k.tape ↔ h.blank = k.blank ∧ h.tape.position = k.tape.position ∧ h.lo = k.lo ∧
      h.hi = k.hi ∧ ∀ z, h.lo ≤ z → z ≤ h.hi → h.line.cells z = k.line.cells z := by
  constructor
  · intro heq
    refine ⟨?_, congrArg position heq, ?_, ?_, fun z _ _ => ?_⟩
    · rw [← blank_tape, heq, blank_tape]
    · rw [← first_tape, heq, first_tape]
    · rw [← last_tape, heq, last_tape]
    · have hread (k : History) : k.line.cells z = k.tape.read (z - k.tape.position) := by
        rw [k.shows_tape.read, ← k.shows_tape.position, add_sub_cancel]
      rw [hread, hread, heq]
  · rintro ⟨hblank, hposition, hlo, hhi, hcells⟩
    refine ext_cells ?_ hposition ?_ ?_
    · rw [blank_tape, blank_tape, hblank]
    · have hh := h.headIndex_tape
      have hk := k.headIndex_tape
      omega
    · rw [cells_tape, cells_tape, ← hlo, ← hhi]
      refine List.map_congr_left fun z hz => ?_
      obtain ⟨hz, hz'⟩ := Int.mem_range_iff.1 hz
      exact hcells z hz (by omega)

end History

/-- A walk beyond an end and back leaves a tape that is read as before and is not the same. -/
theorem performAll_walk {l : Line} (h : t.Shows l) {walk : List TapeOp}
    (hmoves : ∀ c, .write c ∉ walk) (hback : walk.count .right = walk.count .left)
    (hout : ∃ p ∈ l.passed walk, p < t.first ∨ t.last < p) :
    t.performAll walk ≠ t ∧ ∀ i, (t.performAll walk).read i = t.read i := by
  constructor
  · intro heq
    obtain ⟨p, hp, hp' | hp'⟩ := hout
    · have hfirst := h.first_performAll walk
      have := (l.isLeast_leftmost walk).2 hp
      rw [heq] at hfirst
      omega
    · have hlast := h.last_performAll walk
      have := (l.isGreatest_rightmost walk).2 hp
      rw [heq] at hlast
      omega
  · intro i
    rw [(h.performAll walk).read, h.read, Line.cells_performAll_of_moves hmoves,
      Line.head_performAll, hback, sub_self, add_zero]

/-- What a tape has cells for and how far these tell its past. They are the positions from the
least to the greatest that the head ever had, those of the input counted in, with the head where it
is; so two tapes are the same if and only if they agree in these, the blank and the position, and a
walk beyond the ends can be seen afterwards though not read. -/
theorem cells_of_history (h : History) :
    let t := h.tape
    let passed := (Line.ofInput h.blank h.input).passed h.ops
    IsLeast passed h.lo ∧
      IsGreatest (insert (((max h.input.length 1 : Nat) : Int) - 1) passed) h.hi ∧
      (t.headIndex : Int) = t.position - h.lo ∧ t.headIndex < t.cells.length ∧
      t.cells = (Int.range h.lo (h.hi + 1)).map h.line.cells ∧
      (∃ before after, t.cells = before ++ t.head :: after ∧ before.length = t.headIndex ∧
        t.text = String.ofList (before ++ '[' :: t.head :: ']' :: after)) ∧
      (∀ k : History, t = k.tape ↔ h.blank = k.blank ∧ t.position = k.tape.position ∧
        h.lo = k.lo ∧ h.hi = k.hi ∧ ∀ z, h.lo ≤ z → z ≤ h.hi → h.line.cells z = k.line.cells z) ∧
      ∀ walk, (∀ c, .write c ∉ walk) → walk.count .right = walk.count .left →
        (∃ p ∈ h.line.passed walk, p < h.lo ∨ h.hi < p) →
          t.performAll walk ≠ t ∧ ∀ i, (t.performAll walk).read i = t.read i := by
  intro t passed
  refine ⟨Line.isLeast_leftmost .., (Line.isGreatest_rightmost ..).insert _, h.headIndex_tape,
    headIndex_lt_length_cells h.shows_tape.headed, h.cells_tape,
    exists_cells_eq h.shows_tape.headed, fun k => History.tape_eq_tape_iff,
    fun walk hm hb hout => ?_⟩
  rw [← h.first_tape, ← h.last_tape] at hout
  exact performAll_walk h.shows_tape hm hb hout

/-- Past the input by one cell, one back, and then a walk to the cell before the input. -/
theorem cells_of_history_of_walk :
    let h : History := ⟨'_', ['a', 'b'], [.right, .right, .write 'c', .left]⟩
    let walk : List TapeOp := [.left, .left, .right, .right]
    h.lo = 0 ∧ h.hi = 2 ∧ h.tape.headIndex = 1 ∧ h.tape.text = "a[b]c" ∧
      -1 ∈ h.line.passed walk ∧ (h.tape.performAll walk).text = "_a[b]c" ∧
      h.tape.performAll walk ≠ h.tape ∧ ∀ i, (h.tape.performAll walk).read i = h.tape.read i := by
  intro h walk
  obtain ⟨-, -, -, -, -, -, -, hwalk⟩ := cells_of_history h
  have hpassed : -1 ∈ h.line.passed walk := ⟨[.left, .left], by decide, by decide⟩
  have hlo : h.lo = 0 := by decide
  obtain ⟨hne, hread⟩ := hwalk walk (by simp [walk]) (by decide) ⟨-1, hpassed, .inl (by decide)⟩
  exact ⟨hlo, by decide, by decide, by decide, hpassed, by decide, hne, hread⟩

end Tape

end TuringTable
