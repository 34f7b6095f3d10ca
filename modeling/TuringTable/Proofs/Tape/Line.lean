import Mathlib.Data.Int.Range
import Mathlib.Data.List.Infix
import Mathlib.Logic.Function.Basic
import TuringTable.Tape

/-!
# The tape as a line

A `Line` has a symbol at every whole number and a head at one of them. `Shows t l` says that the
tape `t` is what a head on the line `l` has around it. It holds of a new tape (`shows_ofInput`) and
every move and every write keeps it (`Shows.perform`), so after any run of operations the tape is
read as the line is (`read_performAll`).
-/

namespace TuringTable

/-- A symbol at every whole number, and a head at one of them. -/
structure Line where
  head : Int
  cells : Int → Char

/-- What can be done at a tape. -/
inductive TapeOp where
  | left
  | right
  | write (c : Char)
deriving Repr, DecidableEq

namespace Line

/-- The input from 0 on, and the head there. -/
def ofInput (blank : Char) (input : List Char) : Line :=
  ⟨0, fun z => if h : 0 ≤ z ∧ z < input.length then input.get ⟨z.toNat, by omega⟩ else blank⟩

def write (l : Line) (c : Char) : Line := { l with cells := Function.update l.cells l.head c }

def move (l : Line) (d : Direction) : Line := { l with head := l.head + d.offset }

def perform (l : Line) : TapeOp → Line
  | .left => l.move .left
  | .right => l.move .right
  | .write c => l.write c

def performAll (l : Line) (ops : List TapeOp) : Line := ops.foldl perform l

theorem cells_ofInput_natCast (b : Char) (cs : List Char) (n : Nat) :
    (ofInput b cs).cells n = cs[n]?.getD b := by
  by_cases h : n < cs.length
  · simp [ofInput, h]
  · simp [ofInput, h]

theorem cells_ofInput_negSucc (b : Char) (cs : List Char) (n : Nat) :
    (ofInput b cs).cells (.negSucc n) = b := by
  dsimp only [ofInput]
  rw [dif_neg]
  omega

theorem cells_write (l : Line) (c : Char) (z : Int) :
    (l.write c).cells z = if z = l.head then c else l.cells z :=
  Function.update_apply l.cells l.head c z

theorem head_perform (l : Line) (op : TapeOp) :
    (l.perform op).head = l.head + (([op].count .right : Int) - [op].count .left) := by
  cases op <;> simp [perform, move, write, Direction.offset]

/-- The head is as many cells to the right as there were more moves to the right. -/
theorem head_performAll (l : Line) (ops : List TapeOp) :
    (l.performAll ops).head = l.head + ((ops.count .right : Int) - ops.count .left) := by
  induction ops generalizing l with
  | nil => simp [performAll]
  | cons op ops ih =>
    have hc (o : TapeOp) : (op :: ops).count o = [op].count o + ops.count o := by
      rw [← List.count_append, List.singleton_append]
    rw [performAll, List.foldl_cons, ← performAll, ih, head_perform, hc, hc]
    omega

end Line

namespace Tape

def perform (t : Tape) : TapeOp → Tape
  | .left => t.moveLeft
  | .right => t.moveRight
  | .write c => t.write c

def performAll (t : Tape) (ops : List TapeOp) : Tape := ops.foldl perform t

/-- The tape is what the head has around it on the line, and the head has a cell. -/
structure Shows (t : Tape) (l : Line) : Prop where
  position : t.position = l.head
  read : ∀ i, t.read i = l.cells (l.head + i)
  headed : t.after ≠ #[]

theorem shows_ofInput (b : Char) (cs : List Char) : (ofInput b cs).Shows (.ofInput b cs) := by
  refine ⟨rfl, fun i => ?_, after_ofInput_ne b cs⟩
  rw [show (Line.ofInput b cs).head + i = i from Int.zero_add i]
  match i with
  | .ofNat n => exact (read_ofInput b cs n).trans (Line.cells_ofInput_natCast b cs n).symm
  | .negSucc n =>
    exact (read_ofInput_negSucc b cs n).trans (Line.cells_ofInput_negSucc b cs n).symm

namespace Shows
variable {t : Tape} {l : Line}

theorem head (h : t.Shows l) : t.head = l.cells l.head := by
  rw [← read_zero, h.read, Int.add_zero]

theorem write (h : t.Shows l) (c : Char) : (t.write c).Shows (l.write c) := by
  refine ⟨h.position, fun i => ?_, t.after_write_ne c⟩
  rw [read_write, Line.cells_write, h.read]
  show _ = if l.head + i = l.head then c else l.cells (l.head + i)
  by_cases hi : i = 0
  · simp [hi]
  · rw [if_neg hi, if_neg (by omega)]

theorem move (h : t.Shows l) (d : Direction) : (t.move d).Shows (l.move d) := by
  cases d with
  | left =>
    refine ⟨congrArg (· - 1) h.position, fun i => ?_, t.after_moveLeft_ne⟩
    show t.moveLeft.read i = l.cells (l.head + -1 + i)
    rw [read_moveLeft, h.read, show l.head + (i - 1) = l.head + -1 + i by omega]
  | right =>
    refine ⟨congrArg (· + 1) h.position, fun i => ?_, t.after_moveRight_ne⟩
    show t.moveRight.read i = l.cells (l.head + 1 + i)
    rw [read_moveRight h.headed, h.read, show l.head + (i + 1) = l.head + 1 + i by omega]

theorem perform (h : t.Shows l) : ∀ op : TapeOp, (t.perform op).Shows (l.perform op)
  | .left => h.move .left
  | .right => h.move .right
  | .write c => h.write c

theorem performAll (h : t.Shows l) (ops : List TapeOp) :
    (t.performAll ops).Shows (l.performAll ops) := by
  induction ops generalizing t l with
  | nil => exact h
  | cons op ops ih => exact ih (h.perform op)

theorem readRange (h : t.Shows l) (a b : Int) :
    t.readRange a b = (Int.range a b).map fun i => l.cells (l.head + i) := by
  rw [Tape.readRange, Int.range, List.map_map]
  exact List.map_congr_left fun n _ => h.read (a + n)

end Shows

theorem readRange_eq_nil (t : Tape) {a b : Int} (h : b ≤ a) : t.readRange a b = [] := by
  rw [Tape.readRange, Int.toNat_of_nonpos (by omega)]
  rfl

/-- After any operations the tape is read as a line on which the same was done, at every offset
however far, and the head had a cell all the time. The distance from the start is never more than
the number of operations. -/
theorem read_performAll (blank : Char) (input : List Char) (ops : List TapeOp) :
    let t := (ofInput blank input).performAll ops
    let f := ((Line.ofInput blank input).performAll ops).cells
    let p : Int := ops.count .right - ops.count .left
    ((Line.ofInput blank input).performAll ops).head = p ∧ t.position = p ∧
      p.natAbs ≤ ops.length ∧ t.head = f p ∧ (∀ i : Int, t.read i = f (p + i)) ∧
      (∀ a b : Int, t.readRange a b = (Int.range a b).map fun i => f (p + i)) ∧
      (∀ a b : Int, b ≤ a → t.readRange a b = []) ∧
      ∀ done, done <+: ops → ((ofInput blank input).performAll done).after ≠ #[] := by
  intro t f p
  have h : t.Shows ((Line.ofInput blank input).performAll ops) :=
    (shows_ofInput blank input).performAll ops
  have hp : ((Line.ofInput blank input).performAll ops).head = p :=
    (Line.head_performAll _ ops).trans (Int.zero_add p)
  have hr := ops.count_le_length (a := TapeOp.right)
  have hl := ops.count_le_length (a := TapeOp.left)
  refine ⟨hp, h.position.trans hp, by omega, hp ▸ h.head, fun i => hp ▸ h.read i,
    fun a b => hp ▸ h.readRange a b, fun a b => t.readRange_eq_nil, fun done _ => ?_⟩
  exact ((shows_ofInput blank input).performAll done).headed

end Tape

end TuringTable
