import TuringTable.Proofs.Machine.Advance

/-!
# Passes over the tape

A head that moves in one direction leaves cells behind it and has others ahead; `Tape.facing` is the
tape as it sees it, so that a move to the left and one to the right are one equation
(`Tape.move_write_facing`), also at the ends of the tape. A pass is a run over cells whose
instructions all go in one direction (`Machine.advances_pass`).
-/

namespace TuringTable

def Direction.opposite : Direction → Direction
  | .left => .right
  | .right => .left

namespace Tape

/-- A tape by what is behind the head and what is ahead of it, the nearest cell first. The head's
cell is the first one ahead, a blank one if there is none. -/
def facing (blank : Char) (d : Direction) (position : Int) (behind ahead : List Char) : Tape :=
  match d with
  | .right =>
    ⟨blank, behind.reverse.toArray, (ahead.headD blank :: ahead.tail).reverse.toArray, position⟩
  | .left =>
    ⟨blank, ahead.tail.reverse.toArray, (ahead.headD blank :: behind).reverse.toArray, position⟩

variable (b : Char) (d : Direction) (p : Int) (behind ahead : List Char)

theorem ofInput_eq_facing (input : List Char) : ofInput b input = facing b .right 0 [] input := by
  cases input with
  | nil => rfl
  | cons c cs => simp [ofInput, facing]

@[simp] theorem position_facing : (facing b d p behind ahead).position = p := by cases d <;> rfl

theorem head_facing : (facing b d p behind ahead).head = ahead.headD b := by
  cases d <;> simp [facing, head]

/-- The head turns around on its cell. -/
theorem facing_opposite :
    facing b d.opposite p behind ahead = facing b d p ahead.tail (ahead.headD b :: behind) := by
  cases d <;> rfl

theorem headIndex_facing_right : (facing b .right p behind ahead).headIndex = behind.length := by
  simp [headIndex, facing]

/-- Before the head is what is behind it, and from the head on what is ahead. -/
theorem read_facing_right_natCast (n : Nat) :
    (facing b .right p behind ahead).read n = ahead[n]?.getD b := by
  rw [read_natCast, facing, fromEnd?_reverse_toArray]
  cases ahead <;> cases n <;> rfl

theorem read_facing_right_negSucc (n : Nat) :
    (facing b .right p behind ahead).read (.negSucc n) = behind[n]?.getD b := by
  show (fromEnd? behind.reverse.toArray (n + 1)).getD b = _
  rw [fromEnd?_reverse_toArray]

/-- The first `k` of the cells that the head has passed since it was at the first one. -/
theorem readRange_facing_right {k : Nat} (hk : k ≤ behind.length) :
    (facing b .right p behind ahead).readRange (-behind.length) (k - behind.length) =
      behind.reverse.take k := by
  have hlength : ((k : Int) - behind.length - -behind.length).toNat = k := by omega
  rw [readRange, hlength]
  refine List.ext_getElem (by simp [hk]) fun n hn hn' => ?_
  rw [List.length_map, List.length_range] at hn
  have hoffset : -(behind.length : Int) + n = .negSucc (behind.length - 1 - n) := by omega
  rw [List.getElem_map, List.getElem_range, hoffset, read_facing_right_negSucc,
    List.getElem?_eq_getElem (by omega), Option.getD_some, List.getElem_take,
    List.getElem_reverse]

theorem cells_facing_right :
    (facing b .right p behind ahead).cells = behind.reverse ++ ahead.headD b :: ahead.tail := by
  simp [cells, facing]

theorem cells_facing_left :
    (facing b .left p behind ahead).cells = ahead.tail.reverse ++ ahead.headD b :: behind := by
  simp [cells, facing]

/-- What is written is behind the head after the move. -/
theorem move_write_facing (c : Char) :
    ((facing b d p behind ahead).write c).move d =
      facing b d (p + d.offset) (c :: behind) ahead.tail := by
  -- the head's cell is the last one of its array
  have hpush (x : Char) (xs : List Char) :
      (x :: xs).reverse.toArray = xs.reverse.toArray.push x := by simp
  cases d with
  | left =>
    rw [facing, facing, hpush]
    cases ahead.tail <;> simp [write, move, moveLeft, Direction.offset, Int.sub_eq_add_neg]
  | right =>
    rw [facing, facing, hpush]
    cases ahead.tail <;> simp [write, move, moveRight, Direction.offset]

end Tape

namespace Machine

/-- The machine in the middle of a run that it began as new. -/
def on (s : Specification) (q : String) (t : Tape) (n : Nat) : Machine := ⟨s, q, t, n, false, []⟩

theorem ofSpec_eq_on (s : Specification) :
    ofSpec s = on s s.startState (.facing s.blank .right 0 [] s.input) 0 := by
  rw [← Tape.ofInput_eq_facing]
  rfl

variable {s : Specification} {d : Direction} (p : Int) (behind ahead : List Char) (n : Nat)

/-- One step, which leaves what it wrote behind. -/
theorem advances_one {q q' : String} {c : Char}
    (h : s.lookup q (ahead.headD s.blank) = .ok (some ⟨c, d, q'⟩)) :
    Advances 1 (on s q (.facing s.blank d p behind ahead) n)
      (on s q' (.facing s.blank d (p + d.offset) (c :: behind) ahead.tail) (n + 1)) := by
  have hnext : (on s q (.facing s.blank d p behind ahead) n).nextTransition =
      .ok (some ⟨c, d, q'⟩) := by
    rw [nextTransition]
    show s.lookup q (Tape.facing s.blank d p behind ahead).head = _
    rw [Tape.head_facing, h]
  have happly : (on s q (.facing s.blank d p behind ahead) n).apply ⟨c, d, q'⟩ =
      on s q' (.facing s.blank d (p + d.offset) (c :: behind) ahead.tail) (n + 1) := by
    rw [← Tape.move_write_facing]
    rfl
  exact .step hnext (happly ▸ .refl _)

/-- A pass over cells. The state changes with what is read, and each symbol is replaced, but the
direction stays. -/
theorem advances_pass {σ : Type} (name : σ → String) (next : σ → Char → σ) (f : Char → Char)
    {cs : List Char}
    (h : ∀ x, ∀ c ∈ cs, s.lookup (name x) c = .ok (some ⟨f c, d, name (next x c)⟩)) (x : σ) :
    Advances cs.length (on s (name x) (.facing s.blank d p behind (cs ++ ahead)) n)
      (on s (name (cs.foldl next x))
        (.facing s.blank d (p + cs.length * d.offset) ((cs.map f).reverse ++ behind) ahead)
        (n + cs.length)) := by
  induction cs generalizing x p behind n with
  | nil => simpa using Advances.refl _
  | cons c cs ih =>
    have hone := advances_one p behind (c :: (cs ++ ahead)) n (h x c List.mem_cons_self)
    have hrest := ih (p + d.offset) (f c :: behind) (n + 1)
      (fun x c hc => h x c (List.mem_cons_of_mem _ hc)) (next x c)
    have hposition : p + ((c :: cs).length : Int) * d.offset =
        p + d.offset + cs.length * d.offset := by
      cases d <;> simp [Direction.offset] <;> omega
    rw [hposition, List.length_cons, Nat.add_comm cs.length 1, ← Nat.add_assoc, List.map_cons,
      List.reverse_cons, List.append_assoc]
    exact hone.trans hrest

/-- A pass in one state. -/
theorem advances_scan {q : String} (f : Char → Char) {cs : List Char}
    (h : ∀ c ∈ cs, s.lookup q c = .ok (some ⟨f c, d, q⟩)) :
    Advances cs.length (on s q (.facing s.blank d p behind (cs ++ ahead)) n)
      (on s q (.facing s.blank d (p + cs.length * d.offset) ((cs.map f).reverse ++ behind) ahead)
        (n + cs.length)) :=
  advances_pass p behind ahead n (fun _ : Unit => q) (fun _ _ => ()) f (fun _ => h) ()

/-- A pass over cells that all hold the same. -/
theorem advances_replicate {q : String} {c c' : Char} (h : s.lookup q c = .ok (some ⟨c', d, q⟩))
    (k : Nat) :
    Advances k (on s q (.facing s.blank d p behind (List.replicate k c ++ ahead)) n)
      (on s q (.facing s.blank d (p + k * d.offset) (List.replicate k c' ++ behind) ahead)
        (n + k)) := by
  have hall : ∀ x ∈ List.replicate k c, s.lookup q x = .ok (some ⟨c', d, q⟩) := by
    intro x hx
    rw [(List.mem_replicate.1 hx).2, h]
  have hscan := advances_scan p behind ahead n (fun _ => c') hall
  rwa [List.length_replicate, List.map_replicate, List.reverse_replicate] at hscan

end Machine

end TuringTable
