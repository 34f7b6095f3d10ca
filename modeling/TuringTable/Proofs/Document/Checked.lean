import Mathlib.Data.List.Forall2
import TuringTable.Document

/-!
# What a checked reading gives

`Gives x P` says that `x` succeeds with exactly the results that satisfy `P`, whatever was warned of
before. There is a rule for each way in which readings are put together, so what a reader gives
follows from what its parts give; for a loop over the entries of a mapping this is `Gives.foldlM`.
`Warns x p` says that `x` warns of the same whatever came before, and of nothing but what satisfies
`p`; there are the same rules for it.
-/

namespace TuringTable

variable {α β γ ε : Type}

theorem Except.bind_eq_ok_iff {x : Except ε α} {f : α → Except ε β} {b : β} :
    x.bind f = .ok b ↔ ∃ a, x = .ok a ∧ f a = .ok b := by
  cases x <;> simp [Except.bind]

theorem Except.map_eq_ok_iff {x : Except ε α} {f : α → β} {b : β} :
    x.map f = .ok b ↔ ∃ a, x = .ok a ∧ f a = b := by
  cases x <;> simp [Except.map]

/-- A list is read if each of its items is. -/
theorem Except.mapM_eq_ok_iff {f : α → Except ε β} {xs : List α} {ys : List β} :
    xs.mapM f = .ok ys ↔ List.Forall₂ (fun x y => f x = .ok y) xs ys := by
  induction xs generalizing ys with
  | nil =>
    rw [List.mapM_nil, List.forall₂_nil_left_iff]
    exact ⟨fun h => (Except.ok.inj h).symm, fun h => h ▸ rfl⟩
  | cons x xs ih =>
    rw [List.mapM_cons, List.forall₂_cons_left_iff]
    show Except.bind (f x) (fun y => Except.bind (xs.mapM f) fun ys => .ok (y :: ys)) = _ ↔ _
    simp only [Except.bind_eq_ok_iff, ih, Except.ok.injEq]
    grind

namespace Document

@[simp] theorem orFail_eq_ok_iff {x : Option α} {d : Defect} {a : α} :
    orFail x d = .ok a ↔ x = some a := by
  cases x <;> simp [orFail, fail]

@[simp] theorem fail_ne_ok {d : Defect} {a : α} : fail d ≠ .ok a := nofun

end Document

namespace Checked

theorem run_bind (x : Checked α) (f : α → Checked β) (ws : List Warning) :
    (x >>= f).run ws = match x.run ws with
      | (.ok a, ws) => (f a).run ws
      | (.error e, ws) => (.error e, ws) := by
  show ExceptT.bindCont f (x.run ws).1 (x.run ws).2 = _
  rcases x.run ws with ⟨_ | a, ws'⟩ <;> rfl

theorem run_map (f : α → β) (x : Checked α) (ws : List Warning) :
    (f <$> x).run ws = ((x.run ws).1.map f, (x.run ws).2) := by
  rw [map_eq_pure_bind, run_bind]
  rcases x.run ws with ⟨e | a, ws'⟩ <;> rfl

theorem run_locate_of_ok {x : Checked α} (f : SpecError → SpecError) {ws ws' : List Warning} {a : α}
    (h : x.run ws = (.ok a, ws')) : (x.locate f).run ws = (.ok a, ws') := by
  show (match x.run ws with | (r, ws) => (r.mapError f, ws)) = _
  rw [h]
  rfl

theorem ofExcept_ok (a : α) : Checked.ofExcept (.ok a) = pure a := rfl

theorem ofExcept_bind (x : Except SpecError α) (f : α → Except SpecError β) :
    Checked.ofExcept (x >>= f) = Checked.ofExcept x >>= fun a => Checked.ofExcept (f a) := by
  cases x <;> rfl

theorem ofExcept_orFail_bind (a? : Option α) (d : Defect) (f : α → Checked β) :
    Checked.ofExcept (Document.orFail a? d) >>= f =
      a?.elim (Checked.ofExcept (Document.fail d)) f := by
  cases a? <;> rfl

theorem exists_ok_of_bind {x : Checked α} {f : α → Checked β} {ws : List Warning} {b : β}
    (h : ((x >>= f).run ws).1 = .ok b) : ∃ a, (x.run ws).1 = .ok a := by
  rw [run_bind] at h
  rcases hx : x.run ws with ⟨e | a, ws'⟩
  · rw [hx] at h
    cases h
  · exact ⟨a, rfl⟩

/-- `x` succeeds with exactly the results that satisfy `P`, whatever was warned of before. -/
def Gives (x : Checked α) (P : α → Prop) : Prop := ∀ ws a, (x.run ws).1 = .ok a ↔ P a

namespace Gives
variable {P : α → Prop} {Q : β → Prop}

theorem congr {P' : α → Prop} {x : Checked α} (h : x.Gives P) (hP : ∀ a, P a ↔ P' a) :
    x.Gives P' := fun ws a => (h ws a).trans (hP a)

theorem pure (a : α) : Gives (Pure.pure a : Checked α) (· = a) := fun _ _ => by
  show Except.ok a = .ok _ ↔ _
  rw [Except.ok.injEq, eq_comm]

theorem ofExcept (x : Except SpecError α) : (Checked.ofExcept x).Gives (x = .ok ·) :=
  fun _ _ => Iff.rfl

theorem warn (w : Warning) : (Checked.warn w).Gives fun _ => True := fun _ _ => by
  show Except.ok _ = .ok _ ↔ True
  simp

theorem locate {x : Checked α} (f : SpecError → SpecError) (h : x.Gives P) :
    (x.locate f).Gives P := fun ws a => by
  rw [← h ws a]
  show (match x.run ws with | (r, ws) => (r.mapError f, ws)).1 = _ ↔ _
  rcases x.run ws with ⟨e | a', ws'⟩ <;> simp [Except.mapError]

theorem bind {x : Checked α} {f : α → Checked β} {R : α → β → Prop} (hx : x.Gives P)
    (hf : ∀ a, (f a).Gives (R a)) : (x >>= f).Gives fun b => ∃ a, P a ∧ R a b := fun ws b => by
  have hxw := hx ws
  rw [run_bind]
  rcases hr : x.run ws with ⟨e | a, ws'⟩
  · simp only [hr, reduceCtorEq, false_iff] at hxw ⊢
    rintro ⟨a, ha, -⟩
    exact hxw a ha
  · simp only [hr, Except.ok.injEq] at hxw
    rw [hf a ws' b]
    constructor
    · intro hb
      exact ⟨a, (hxw a).1 rfl, hb⟩
    · rintro ⟨a', ha, hb⟩
      exact (hxw a').2 ha ▸ hb

/-- A warning on the way, given or not, changes nothing. -/
theorem warnIf {c : Prop} [Decidable c] {w : Warning} {f : Unit → Checked α}
    (h : (f ()).Gives P) : (if c then Checked.warn w >>= f else f ()).Gives P := by
  split
  · exact ((warn w).bind fun _ => h).congr fun a => by simp
  · exact h

theorem map {x : Checked α} (f : α → β) (h : x.Gives P) :
    (f <$> x).Gives fun b => ∃ a, P a ∧ b = f a := by
  rw [map_eq_pure_bind]
  exact h.bind fun a => pure (f a)

/-- Where each turn of a loop reads `R e k` and goes on with `g acc k`, the loop reads all
entries one by one. -/
theorem foldlM {R : α → γ → Prop} {g : β → γ → β} {turn : β → α → Checked β}
    (h : ∀ acc e, (turn acc e).Gives fun r => ∃ k, R e k ∧ r = g acc k) (es : List α) (acc : β) :
    (es.foldlM turn acc).Gives fun r => ∃ ks, List.Forall₂ R es ks ∧ r = ks.foldl g acc := by
  induction es generalizing acc with
  | nil => exact (pure acc).congr fun r => by simp
  | cons e es ih =>
    rw [List.foldlM_cons]
    refine ((h acc e).bind ih).congr fun r => ?_
    simp only [List.forall₂_cons_left_iff]
    constructor
    · rintro ⟨_, ⟨k, hk, rfl⟩, ks, hks, rfl⟩
      exact ⟨k :: ks, ⟨k, ks, hk, hks, rfl⟩, rfl⟩
    · rintro ⟨_, ⟨k, ks, hk, hks, rfl⟩, rfl⟩
      exact ⟨_, ⟨k, hk, rfl⟩, ks, hks, rfl⟩

end Gives

/-! ### What it warns of -/

/-- `x` has one result and warns of the same, whatever was warned of before; and that satisfies
`p`. -/
def Warns (x : Checked α) (p : Warning → Prop) : Prop :=
  ∃ r us, (∀ w ∈ us, p w) ∧ ∀ ws, x.run ws = (r, us ++ ws)

namespace Warns
variable {p : Warning → Prop}

theorem mono {q : Warning → Prop} {x : Checked α} (h : x.Warns p) (hpq : ∀ w, p w → q w) :
    x.Warns q := by
  obtain ⟨r, us, hus, hx⟩ := h
  exact ⟨r, us, fun w hw => hpq w (hus w hw), hx⟩

theorem pure (a : α) : Warns (Pure.pure a : Checked α) p := ⟨.ok a, [], nofun, fun _ => rfl⟩

theorem ofExcept (x : Except SpecError α) : (Checked.ofExcept x).Warns p :=
  ⟨x, [], nofun, fun _ => rfl⟩

theorem warn {w : Warning} (h : p w) : (Checked.warn w).Warns p :=
  ⟨.ok (), [w], fun _ hw => List.mem_singleton.1 hw ▸ h, fun _ => rfl⟩

theorem locate {x : Checked α} (f : SpecError → SpecError) (h : x.Warns p) :
    (x.locate f).Warns p := by
  obtain ⟨r, us, hus, hx⟩ := h
  refine ⟨r.mapError f, us, hus, fun ws => ?_⟩
  show (match x.run ws with | (r, ws) => (r.mapError f, ws)) = _
  rw [hx]

theorem bind {x : Checked α} {f : α → Checked β} (hx : x.Warns p) (hf : ∀ a, (f a).Warns p) :
    (x >>= f).Warns p := by
  obtain ⟨r, us, hus, hx⟩ := hx
  cases r with
  | error e => exact ⟨.error e, us, hus, fun ws => by rw [run_bind, hx]⟩
  | ok a =>
    obtain ⟨r', us', hus', hfa⟩ := hf a
    refine ⟨r', us' ++ us, ?_, fun ws => ?_⟩
    · intro w hw
      rcases List.mem_append.1 hw with hw | hw
      · exact hus' w hw
      · exact hus w hw
    · rw [run_bind, hx, List.append_assoc, ← hfa]

theorem warnIf {c : Prop} [Decidable c] {w : Warning} {f : Unit → Checked α} (hw : p w)
    (h : (f ()).Warns p) : (if c then Checked.warn w >>= f else f ()).Warns p := by
  split
  · exact (warn hw).bind fun _ => h
  · exact h

theorem map {x : Checked α} (f : α → β) (h : x.Warns p) : (f <$> x).Warns p := by
  rw [map_eq_pure_bind]
  exact h.bind fun a => pure (f a)

theorem foldlM {turn : β → α → Checked β} (h : ∀ acc e, (turn acc e).Warns p) (es : List α)
    (acc : β) : (es.foldlM turn acc).Warns p := by
  induction es generalizing acc with
  | nil => exact pure acc
  | cons e es ih =>
    rw [List.foldlM_cons]
    exact (h acc e).bind ih

theorem mapM {f : α → Checked β} (h : ∀ e, (f e).Warns p) (es : List α) : (es.mapM f).Warns p := by
  induction es with
  | nil => exact pure []
  | cons e es ih =>
    rw [List.mapM_cons]
    exact (h e).bind fun _ => ih.bind fun _ => pure _

end Warns

/-- Without the first part, of which only the result is taken, the warnings of the second are left. -/
theorem run_second_of_bind {x : Checked α} {f : α → Checked β} {a : α} {p : Warning → Bool}
    (hx : x.Warns (p · = true)) (hf : ∀ a, (f a).Warns (p · = false))
    (ha : (x.run []).1 = .ok a) :
    (f a).run [] = (((x >>= f).run []).1, ((x >>= f).run []).2.filter fun w => !p w) := by
  obtain ⟨r, us, hus, hx⟩ := hx
  obtain ⟨r', vs, hvs, hfa⟩ := hf a
  have hr : r = .ok a := by rwa [hx] at ha
  have hrun : (x >>= f).run [] = (r', vs ++ us) := by
    rw [run_bind, hx, hr, List.append_nil]
    exact hfa us
  have hwarnings : (vs ++ us).filter (fun w => !p w) = vs := by
    rw [List.filter_append, List.filter_eq_self.2 (by simpa using hvs),
      List.filter_eq_nil_iff.2 (by simpa using hus), List.append_nil]
  rw [hrun, hfa, List.append_nil, hwarnings]

/-- `x` does what `y` does and also warns of `w`, unless it fails before. -/
def WarnsMore (w : Warning) (x y : Checked α) : Prop := ∀ ws,
  (∃ e us, x.run ws = (.error e, us) ∧ y.run ws = (.error e, us)) ∨
    ∃ r us vs, x.run ws = (r, us ++ w :: vs) ∧ y.run ws = (r, us ++ vs)

theorem WarnsMore.warn {w : Warning} {x : Checked α} {p : Warning → Prop} (hx : x.Warns p) :
    WarnsMore w (Checked.warn w >>= fun _ => x) x := by
  intro ws
  obtain ⟨r, us, -, hx⟩ := hx
  exact .inr ⟨r, us, ws, hx (w :: ws), hx ws⟩

theorem WarnsMore.bind {w : Warning} {x : Checked α} {f g : α → Checked β}
    (h : ∀ a, WarnsMore w (f a) (g a)) : WarnsMore w (x >>= f) (x >>= g) := by
  intro ws
  rw [run_bind, run_bind]
  rcases x.run ws with ⟨e | a, ws'⟩
  · exact .inl ⟨e, ws', rfl, rfl⟩
  · exact h a ws'

end Checked

end TuringTable
