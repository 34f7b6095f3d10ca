import TuringTable.Text.Hidden
import TuringTable.Yaml.Reading

/-!
# Texts of white space

A text of white space has no entries (`Value.entries?_of_blank`). Some of its characters end a
line or indent one, and the others make up a plain scalar; so the tokens of the text are plain
scalars and its end (`TokenStream.isBare_of_mem_ofText`), its events are scalars without a tag
(`EventStream.bare_of_mem_ofTokens`), and its value is no collection.
-/

namespace TuringTable.Yaml

open Text (isBlank)

/-! ### What a computation keeps -/

section Keeps
variable {σ ε α β : Type} {P : σ → Prop} {Q : α → Prop} {R : β → Prop}

/-- A state with `P` stays one as long as `x` does not fail, and the result has `Q`. -/
def Keeps (P : σ → Prop) (Q : α → Prop) (x : StateT σ (Except ε) α) : Prop :=
  ∀ s a s', P s → x.run s = .ok (a, s') → P s' ∧ Q a

namespace Keeps

theorem pure {a : α} (ha : Q a) : Keeps P Q (Pure.pure a : StateT σ (Except ε) α) := by
  intro s a' s' hs hx
  cases hx
  exact ⟨hs, ha⟩

theorem throw (e : ε) : Keeps P Q (MonadExcept.throw e : StateT σ (Except ε) α) := by
  intro s a s' _ hx
  cases hx

theorem bind {x : StateT σ (Except ε) α} {f : α → StateT σ (Except ε) β} (hx : Keeps P Q x)
    (hf : ∀ a, Q a → Keeps P R (f a)) : Keeps P R (x >>= f) := by
  intro s b s' hs h
  rw [StateT.run_bind] at h
  cases hr : x.run s with
  | error e =>
    rw [hr] at h
    cases h
  | ok r =>
    rw [hr] at h
    obtain ⟨hs', ha⟩ := hx s r.1 r.2 hs hr
    exact hf r.1 ha r.2 b s' hs' h

/-- A first part that may be left out. -/
theorem maybe {c : Prop} [Decidable c] {x : StateT σ (Except ε) Unit}
    {f : Unit → StateT σ (Except ε) β} (hx : Keeps P (fun _ => True) x)
    (hf : Keeps P R (f ())) : Keeps P R (if c then x >>= f else f ()) := by
  split
  · exact hx.bind fun _ _ => hf
  · exact hf

/-- What is read has `P`, too. -/
theorem get_bind {f : σ → StateT σ (Except ε) β} (hf : ∀ s, P s → Keeps P R (f s)) :
    Keeps P R (MonadState.get >>= f) :=
  fun s b s' hs h => hf s hs s b s' hs h

theorem modify {f : σ → σ} (hf : ∀ s, P s → P (f s)) :
    Keeps P (fun _ => True) (modify f : StateT σ (Except ε) PUnit) := by
  intro s a s' hs hx
  cases hx
  exact ⟨hf s hs, trivial⟩

theorem set {s : σ} (hs : P s) :
    Keeps P (fun _ => True) (MonadStateOf.set s : StateT σ (Except ε) PUnit) := by
  intro s₀ a s' _ hx
  cases hx
  exact ⟨hs, trivial⟩

end Keeps

end Keeps

/-! ### Characters -/

/-- Only white space is left. -/
def Cursor.White (c : Cursor) : Prop := ∀ a ∈ c.rest, isBlank a = true

namespace Cursor.White
variable {c c' : Cursor}

/-- What is left later is part of what was left before. -/
theorem of_suffix (h : c.White) (hs : c'.rest <:+ c.rest) : c'.White :=
  fun a ha => h a (hs.subset ha)

theorem peek {a : Char} (h : c.White) (ha : c.peek = some a) : isBlank a = true :=
  h a (List.mem_of_mem_head? ha)

theorem skip (h : c.White) : c.skip.White := by
  rw [Cursor.skip]
  split
  · exact h
  · rename_i a cs hr
    exact h.of_suffix (hr ▸ List.suffix_cons a cs)

theorem span (h : c.White) (p : Char → Bool) : (c.span p).2.White :=
  h.of_suffix (List.dropWhile_suffix p)

theorem takeBreak (h : c.White) : c.takeBreak.2.White := by
  rw [Cursor.takeBreak]
  split
  · rename_i cs hr
    exact h.of_suffix (hr ▸ (List.suffix_cons _ cs).trans (List.suffix_cons _ _))
  · rename_i a cs _ hr
    split
    · exact h.of_suffix (hr ▸ List.suffix_cons a cs)
    · exact h
  · exact h

end Cursor.White

theorem Cursor.mem_of_mem_takeBytes {n : Nat} {cs : List Char} {a : Char} (h : a ∈ takeBytes n cs) :
    a ∈ cs := by
  induction cs generalizing n with
  | nil => exact h
  | cons c cs ih =>
    rw [takeBytes] at h
    split at h
    · rcases List.mem_cons.1 h with rfl | h
      · exact List.mem_cons_self
      · exact List.mem_cons_of_mem c (ih h)
    · cases h

theorem Cursor.white_ofText {text : String} (h : text.toList.all isBlank = true) :
    (ofText text).White := by
  intro a ha
  refine List.all_eq_true.1 h a ?_
  rw [ofText] at ha
  split at ha
  · exact ha
  · exact mem_of_mem_takeBytes ha

namespace Lexer

theorem keeps_need (n : Nat) : Keeps Cursor.White (fun _ => True) (need n) := by
  refine .get_bind fun c _ => ?_
  split
  · exact .pure trivial
  · refine .get_bind fun c _ => ?_
    split
    · exact .throw _
    · exact .pure trivial

theorem keeps_skip : Keeps Cursor.White (fun _ => True) skip := .modify fun _ h => h.skip

theorem keeps_takeWhile (p : Char → Bool) : Keeps Cursor.White (fun _ => True) (takeWhile p) := by
  refine .get_bind fun c hc => ?_
  refine (Keeps.set (hc.span p)).bind fun _ _ => ?_
  exact (keeps_need 1).bind fun _ _ => .pure trivial

theorem keeps_skipWhile (p : Char → Bool) : Keeps Cursor.White (fun _ => True) (skipWhile p) :=
  (keeps_takeWhile p).bind fun _ _ => .pure trivial

theorem keeps_takeBreak : Keeps Cursor.White (fun _ => True) takeBreak := by
  refine (keeps_need 2).bind fun _ _ => .get_bind fun c hc => ?_
  exact (Keeps.set hc.takeBreak).bind fun _ _ => .pure trivial

theorem keeps_peek : Keeps Cursor.White (∀ a, · = some a → isBlank a = true) peek :=
  .get_bind fun _ hc => .pure fun _ ha => hc.peek ha

theorem keeps_peekAt (n : Nat) : Keeps Cursor.White (fun _ => True) (peekAt n) :=
  .get_bind fun _ _ => .pure trivial

theorem keeps_mark : Keeps Cursor.White (fun _ => True) mark := .get_bind fun _ _ => .pure trivial

theorem keeps_fail {α : Type} {Q : α → Prop} (p : Problem) (during : Option (Activity × Mark)) :
    Keeps Cursor.White Q (fail p during) :=
  keeps_mark.bind fun _ _ => .throw _

/-- A comment begins with no white space. -/
theorem keeps_skipComment : Keeps Cursor.White (fun _ => True) skipComment := by
  refine keeps_peek.bind fun _ _ => ?_
  split
  · exact keeps_skipWhile _
  · exact .pure trivial

theorem keeps_atMarker {marker : Char} (h : isBlank marker = false) :
    Keeps Cursor.White (· = false) (atMarker marker) := by
  refine .get_bind fun c hc => .pure ?_
  have hpeek : (c.peek == some marker) = false := by
    rw [beq_eq_false_iff_ne]
    intro hp
    rw [hc.peek hp] at h
    cases h
  rw [hpeek, Bool.and_false, Bool.false_and, Bool.false_and, Bool.false_and]

theorem keeps_atDocumentMarker : Keeps Cursor.White (fun _ => True) atDocumentMarker :=
  (keeps_atMarker (by decide)).bind fun _ _ =>
    (keeps_atMarker (by decide)).bind fun _ _ => .pure trivial

end Lexer

namespace Plain
variable {flow : Bool} {start : Mark}

theorem keeps_word (n : Nat) (acc : List Char) :
    Keeps Cursor.White (fun _ => True) (word flow start n acc) := by
  induction n generalizing acc with
  | zero => exact .pure trivial
  | succ n ih =>
    refine Lexer.keeps_peek.bind fun c? _ => ?_
    split
    · exact .pure trivial
    · split
      · exact .pure trivial
      · refine (Lexer.keeps_peekAt 1).bind fun next _ => ?_
        refine .maybe (Lexer.keeps_fail _ _) ?_
        split
        · exact .pure trivial
        · exact Lexer.keeps_skip.bind fun _ _ => (Lexer.keeps_need 2).bind fun _ _ => ih _

theorem keeps_gap {indent : Nat} (n : Nat) (g : Gap) :
    Keeps Cursor.White (fun _ => True) (gap indent start n g) := by
  induction n generalizing g with
  | zero => exact .pure trivial
  | succ n ih =>
    refine Lexer.keeps_peek.bind fun c? _ => ?_
    split
    · exact .pure trivial
    · split
      · refine Lexer.keeps_mark.bind fun _ _ => ?_
        refine .maybe (Lexer.keeps_fail _ _) ?_
        exact Lexer.keeps_skip.bind fun _ _ => (Lexer.keeps_need 1).bind fun _ _ => ih _
      · split
        · exact Lexer.keeps_takeBreak.bind fun _ _ => (Lexer.keeps_need 1).bind fun _ _ => ih _
        · exact .pure trivial

theorem keeps_words {indent : Nat} (n : Nat) (acc : List Char) (before : Gap) :
    Keeps Cursor.White (fun _ => True) (words flow indent start n acc before) := by
  induction n generalizing acc before with
  | zero => exact .pure trivial
  | succ n ih =>
    refine (Lexer.keeps_need 4).bind fun _ _ => ?_
    refine Lexer.keeps_atDocumentMarker.bind fun _ _ => Lexer.keeps_peek.bind fun _ _ => ?_
    split
    · exact .pure trivial
    · refine (keeps_word n []).bind fun w _ => ?_
      split
      · exact .pure trivial
      · refine (keeps_gap n .none).bind fun after _ => Lexer.keeps_mark.bind fun _ _ => ?_
        split
        · exact .pure trivial
        · exact ih _ after

theorem keeps_read {indent : Nat} (n : Nat) :
    Keeps Cursor.White (fun _ => True) (read n flow indent) :=
  Lexer.keeps_mark.bind fun _ _ => (keeps_words n [] .none).bind fun _ _ => .pure trivial

end Plain

/-! ### Tokens -/

/-- A plain scalar or the end of the text. -/
def Token.Kind.isBare : Token.Kind → Bool
  | .scalar _ plain => plain
  | .streamEnd => true
  | _ => false

/-- Only white space is left, and there was nothing else before. -/
structure Layout.Bare (l : Layout) : Prop where
  white : l.cursor.White
  indents : l.indents = []
  flowKeys : l.flowKeys = []
  tokens : ∀ t ∈ l.tokens, t.kind.isBare = true

namespace Layout.Bare
variable {l : Layout}

theorem push (h : l.Bare) {kind : Token.Kind} (hk : kind.isBare = true) (m : Mark) :
    (l.push kind m).Bare := by
  refine ⟨h.white, h.indents, h.flowKeys, fun t ht => ?_⟩
  rcases List.mem_cons.1 ht with rfl | ht
  · exact hk
  · exact h.tokens t ht

theorem setKey (h : l.Bare) (k : Option KeyStart) : (l.setKey k).Bare := by
  rw [Layout.setKey, h.flowKeys]
  exact ⟨h.white, h.indents, rfl, h.tokens⟩

/-- No block is open. -/
theorem closeBlocks (h : l.Bare) (column : Option Nat) : (l.closeBlocks column).Bare := by
  rw [Layout.closeBlocks, Layout.inFlow, h.flowKeys, h.indents]
  exact ⟨h.white, rfl, rfl, h.tokens⟩

end Layout.Bare

theorem Layout.bare_ofText {text : String} (h : text.toList.all isBlank = true) :
    (ofText text).Bare :=
  ⟨Cursor.white_ofText h, rfl, rfl, nofun⟩

namespace Scan

theorem run_lex {α : Type} (x : Lexer α) (l : Layout) :
    (lex x).run l = (fun r => (r.1, { l with cursor := r.2 })) <$> x.run l.cursor := by
  simp [lex]

theorem keeps_lex {α : Type} {Q : α → Prop} {x : Lexer α} (hx : Keeps Cursor.White Q x) :
    Keeps Layout.Bare Q (lex x) := by
  intro l a l' hl h
  rw [run_lex] at h
  cases hr : x.run l.cursor with
  | error e =>
    rw [hr] at h
    cases h
  | ok r =>
    rw [hr] at h
    cases h
    obtain ⟨hwhite, ha⟩ := hx l.cursor r.1 r.2 hl.white hr
    exact ⟨⟨hwhite, hl.indents, hl.flowKeys, hl.tokens⟩, ha⟩

theorem keeps_fail {α : Type} {Q : α → Prop} (p : Problem) (during : Option (Activity × Mark)) :
    Keeps Layout.Bare Q (fail p during) :=
  .get_bind fun _ _ => .throw _

theorem keeps_checkKey : Keeps Layout.Bare (fun _ => True) checkKey := by
  refine .get_bind fun l _ => ?_
  split
  · refine .get_bind fun l _ => ?_
    split
    · exact keeps_fail _ _
    · exact .pure trivial
  · exact .pure trivial

theorem keeps_dropKey : Keeps Layout.Bare (fun _ => True) dropKey := by
  have hset : Keeps (ε := Fault) Layout.Bare (fun _ => True) (modify (·.setKey none)) :=
    .modify fun _ h => h.setKey none
  refine .get_bind fun l _ => ?_
  split
  · exact .maybe (keeps_fail _ _) hset
  · exact hset

theorem keeps_allowKey (b : Bool) : Keeps Layout.Bare (fun _ => True) (allowKey b) :=
  .modify fun _ h => ⟨h.white, h.indents, h.flowKeys, h.tokens⟩

theorem keeps_startKey : Keeps Layout.Bare (fun _ => True) startKey := by
  refine .get_bind fun l _ => ?_
  split
  · exact keeps_dropKey.bind fun _ _ => .modify fun _ h => h.setKey _
  · exact .pure trivial

theorem keeps_skipGap (n : Nat) : Keeps Layout.Bare (fun _ => True) (skipGap n) := by
  induction n with
  | zero => exact .pure trivial
  | succ n ih =>
    refine (keeps_lex (Lexer.keeps_need 1)).bind fun _ _ => .get_bind fun _ _ => ?_
    refine .get_bind fun _ _ => .maybe (keeps_lex Lexer.keeps_skip) ?_
    refine (keeps_lex (Lexer.keeps_need 1)).bind fun _ _ => .get_bind fun _ _ => ?_
    refine .get_bind fun _ _ => (keeps_lex (Lexer.keeps_skipWhile _)).bind fun _ _ => ?_
    refine (keeps_lex Lexer.keeps_skipComment).bind fun _ _ => .get_bind fun _ _ => ?_
    split
    · refine (keeps_lex Lexer.keeps_takeBreak).bind fun _ _ => .get_bind fun _ _ => ?_
      exact .maybe (keeps_allowKey true) ih
    · exact .pure trivial

theorem keeps_streamEnd : Keeps Layout.Bare (fun _ => True) streamEnd := by
  refine .get_bind fun l _ => .maybe (.modify fun l hl => ?_) ?_
  · exact ⟨hl.white, hl.indents, hl.flowKeys, hl.tokens⟩
  · refine (Keeps.modify fun l hl => hl.closeBlocks none).bind fun _ _ => ?_
    refine keeps_dropKey.bind fun _ _ => (keeps_allowKey false).bind fun _ _ => ?_
    refine .get_bind fun l _ => (keeps_lex (.modify fun _ h => h)).bind fun _ _ => ?_
    exact .modify fun l hl => hl.push rfl _

theorem keeps_plain (n : Nat) : Keeps Layout.Bare (fun _ => True) (plain n) := by
  refine keeps_startKey.bind fun _ _ => (keeps_allowKey false).bind fun _ _ => ?_
  refine .get_bind fun l _ => (keeps_lex (Plain.keeps_read n)).bind fun r _ => ?_
  refine (Keeps.modify fun l hl => hl.push rfl _).bind fun _ _ => ?_
  split
  · exact keeps_allowKey true
  · exact .pure trivial

theorem keeps_token (n : Nat) : Keeps Layout.Bare (fun _ => True) (token n) := by
  refine (keeps_skipGap n).bind fun _ _ => keeps_checkKey.bind fun _ _ => .get_bind fun l _ => ?_
  refine (Keeps.modify fun l hl => hl.closeBlocks _).bind fun _ _ => ?_
  refine (keeps_lex (Lexer.keeps_need 4)).bind fun _ _ => .get_bind fun l hl => ?_
  split
  · exact keeps_streamEnd
  · rename_i c hc
    -- no indicator is white space
    have hblank := hl.white.peek hc
    have hne {d : Char} (hd : isBlank d = false) : (c == d) = false := by
      rw [beq_eq_false_iff_ne]
      rintro rfl
      rw [hblank] at hd
      cases hd
    have hmarker {α : Type} {f : Bool → Scan α} {Q : α → Prop} {marker : Char}
        (hm : isBlank marker = false) (hf : Keeps Layout.Bare Q (f false)) :
        Keeps Layout.Bare Q (lex (Lexer.atMarker marker) >>= f) :=
      (keeps_lex (Lexer.keeps_atMarker hm)).bind fun b hb => hb ▸ hf
    rw [hne (d := '%') (by decide), Bool.and_false, if_neg Bool.false_ne_true]
    refine hmarker (by decide) (hmarker (by decide) ?_)
    simp (disch := decide) only [hne, Bool.false_and, Bool.or_false, Bool.false_eq_true, if_false]
    split
    · exact keeps_plain n
    · exact keeps_fail _ _

end Scan

namespace TokenStream

theorem isBare_of_mem_settledTokens {l : Layout} (hl : l.Bare) :
    ∀ t ∈ l.settledTokens, t.kind.isBare = true := by
  intro t ht
  rw [Layout.settledTokens, List.mem_reverse] at ht
  exact hl.tokens t (List.mem_of_mem_drop ht)

theorem isBare_of_mem_scan (n : Nat) {l : Layout} (hl : l.Bare) :
    ∀ t ∈ (scan n l).tokens, t.kind.isBare = true := by
  induction n generalizing l with
  | zero => exact isBare_of_mem_settledTokens hl
  | succ n ih =>
    have hturn : Keeps Layout.Bare (fun _ => True)
        (do Scan.token n; Scan.checkKey : Scan Unit) :=
      (Scan.keeps_token n).bind fun _ _ => Scan.keeps_checkKey
    rw [scan]
    split
    · exact isBare_of_mem_settledTokens hl
    · rename_i u l' hrun
      obtain ⟨hl', -⟩ := hturn l u l' hl hrun
      split
      · intro t ht
        exact hl'.tokens t (List.mem_reverse.1 ht)
      · exact ih hl'

/-- All tokens of a text of white space are plain scalars, its end apart. -/
theorem isBare_of_mem_ofText {text : String} (h : text.toList.all isBlank = true) :
    ∀ t ∈ (ofText text).tokens, t.kind.isBare = true :=
  isBare_of_mem_scan _ (Layout.bare_ofText h)

end TokenStream

/-! ### Events -/

/-- A scalar without a tag. -/
def Event.Bare (e : Event) : Prop := ∃ text plain, e.kind = .scalar none text plain

/-- The walk goes over bare tokens and came upon bare events. -/
structure Walk.Bare (w : Walk) : Prop where
  tokens : ∀ t ∈ w.tokens, t.kind.isBare = true
  events : ∀ e ∈ w.events, e.Bare

namespace Walker

theorem keeps_peek : Keeps Walk.Bare (·.kind.isBare = true) peek := by
  refine .get_bind fun w hw => .get_bind fun w' _ => ?_
  split
  · rename_i t ts ht
    refine .pure (hw.tokens t ?_)
    rw [ht]
    exact List.mem_cons_self
  · exact .throw _
  · exact .pure rfl

theorem keeps_skip : Keeps Walk.Bare (fun _ => True) skip :=
  .modify fun _ hw => ⟨fun t ht => hw.tokens t (List.mem_of_mem_tail ht), hw.events⟩

theorem keeps_fail {α : Type} {Q : α → Prop} (p : Problem) (m : Mark)
    (during : Option (Activity × Mark)) : Keeps Walk.Bare Q (fail p m during) := .throw _

theorem keeps_emit {text : String} {plain : Bool} (m : Mark) :
    Keeps Walk.Bare (fun _ => True) (emit (.scalar none text plain) m) := by
  refine .modify fun w hw => ⟨hw.tokens, fun e he => ?_⟩
  rcases List.mem_cons.1 he with rfl | he
  · exact ⟨text, plain, rfl⟩
  · exact hw.events e he

theorem keeps_emitAbsent : Keeps Walk.Bare (fun _ => True) emitAbsent :=
  keeps_peek.bind fun t _ => keeps_emit t.mark

theorem keeps_readAnchor? : Keeps Walk.Bare (· = none) readAnchor? := by
  refine keeps_peek.bind fun t ht => ?_
  split
  · rename_i name hk
    rw [hk] at ht
    cases ht
  · exact .pure rfl

theorem keeps_readTag? : Keeps Walk.Bare (· = none) readTag? := by
  refine keeps_peek.bind fun t ht => ?_
  split
  · rename_i handle name hk
    rw [hk] at ht
    cases ht
  · exact .pure rfl

theorem keeps_readProperties : Keeps Walk.Bare (· = (none, none)) readProperties := by
  refine keeps_peek.bind fun start _ => keeps_readAnchor?.bind fun before hb => ?_
  refine keeps_readTag?.bind fun tag ht => ?_
  rw [hb, ht]
  exact (Keeps.pure rfl).bind fun anchor ha => keeps_peek.bind fun _ _ => .pure (by rw [ha])

theorem keeps_node : Keeps Walk.Bare (· = []) (node true false) := by
  refine keeps_peek.bind fun start _ => keeps_peek.bind fun t ht => ?_
  dsimp only
  split
  · rename_i name hk
    rw [hk] at ht
    cases ht
  · refine keeps_readProperties.bind fun properties hp => ?_
    rw [hp]
    refine keeps_peek.bind fun t ht => ?_
    obtain ⟨kind, m⟩ := t
    cases kind with
    | scalar text plain =>
      exact keeps_skip.bind fun _ _ => (keeps_emit start.mark).bind fun _ _ => .pure rfl
    | streamEnd => exact keeps_fail _ _ _
    | _ => cases ht

theorem keeps_atDocumentEnd : Keeps Walk.Bare (fun _ => True) atDocumentEnd := by
  refine keeps_peek.bind fun t _ => ?_
  split <;> exact .pure trivial

/-- No directive comes before the document. -/
theorem keeps_readDirectives (n : Nat) (versioned : Bool) (handles : List (String × String)) :
    Keeps Walk.Bare (fun _ => True) (readDirectives n versioned handles) := by
  cases n with
  | zero => exact .pure trivial
  | succ n =>
    refine keeps_peek.bind fun t ht => ?_
    obtain ⟨kind, m⟩ := t
    cases kind with
    | scalar text plain => exact .pure trivial
    | streamEnd => exact .pure trivial
    | _ => cases ht

theorem keeps_documentStart : Keeps Walk.Bare (fun _ => True) (documentStart true) := by
  refine keeps_peek.bind fun t _ => ?_
  split
  · exact .pure trivial
  · refine .get_bind fun w _ => (keeps_readDirectives _ _ _).bind fun handles _ => ?_
    refine (Keeps.modify fun w hw => ⟨hw.tokens, hw.events⟩).bind fun _ _ => ?_
    refine keeps_peek.bind fun d _ => ?_
    split
    · exact keeps_skip.bind fun _ _ => .pure trivial
    · split
      · exact .pure trivial
      · exact keeps_fail _ _ _

end Walker

namespace EventStream

theorem keeps_opening : Keeps Walk.Bare
    (fun es? => ∀ es, es? = some es → es = [] ∨ es = [.blockNode]) opening := by
  refine Walker.keeps_documentStart.bind fun explicit? _ => ?_
  cases explicit? with
  | none => exact .pure nofun
  | some explicit =>
    refine Walker.keeps_atDocumentEnd.bind fun empty _ => ?_
    split
    · refine Walker.keeps_emitAbsent.bind fun _ _ => .pure ?_
      rintro es ⟨⟩
      exact .inl rfl
    · refine .pure ?_
      rintro es ⟨⟩
      exact .inr rfl

theorem bare_of_mem_walk (n : Nat) {es : List Expectation} (hes : es = [] ∨ es = [.blockNode])
    {w : Walk} (hw : w.Bare) : ∀ e ∈ (walk n es w).events, e.Bare := by
  have hevents : ∀ e ∈ w.events.reverse.toArray, e.Bare := by
    intro e he
    rw [List.mem_toArray, List.mem_reverse] at he
    exact hw.events e he
  induction n generalizing es w with
  | zero => exact hevents
  | succ n ih =>
    rcases hes with rfl | rfl
    · exact hevents
    · rw [walk]
      split
      · exact hevents
      · rename_i next w' hrun
        obtain ⟨hw', rfl⟩ := Walker.keeps_node w next w' hw hrun
        refine ih (.inl rfl) hw' fun e he => ?_
        rw [List.mem_toArray, List.mem_reverse] at he
        exact hw'.events e he

theorem bare_of_mem_ofTokens {s : TokenStream} (h : ∀ t ∈ s.tokens, t.kind.isBare = true) :
    ∀ e ∈ (ofTokens s).events, e.Bare := by
  have hw : (⟨s.tokens, s.fault, [], .none, [], 0⟩ : Walk).Bare := ⟨h, nofun⟩
  rw [ofTokens]
  split
  · exact nofun
  · rename_i w hrun
    obtain ⟨hw', -⟩ := keeps_opening _ _ _ hw hrun
    intro e he
    rw [List.mem_toArray] at he
    exact hw'.events e he
  · rename_i es w hrun
    obtain ⟨hw', hes⟩ := keeps_opening _ _ _ hw hrun
    exact bare_of_mem_walk _ (hes es rfl) hw'

end EventStream

/-! ### Values -/

namespace Scalar
variable {text : String} {v : Value}

/-- A plain scalar is no mapping, whatever it looks like. -/
theorem entries?_of_plainValue (h : plainValue text = .ok v) : v.entries? = none := by
  rw [plainValue] at h
  split at h
  · cases h
    rfl
  · split at h
    · cases h
      rfl
    · cases h
      rfl
    · cases h
    · split at h
      · cases h
        rfl
      · cases hf : float? text with
        | none =>
          rw [hf] at h
          cases h
          rfl
        | some x =>
          rw [hf] at h
          cases h
          rfl

theorem entries?_of_value {plain : Bool} (h : value none text plain = .ok v) :
    v.entries? = none := by
  cases plain with
  | false =>
    cases h
    rfl
  | true => exact entries?_of_plainValue h

end Scalar

namespace EventStream
variable {s : EventStream}

theorem keeps_peek (hs : ∀ e ∈ s.events, e.Bare) :
    Keeps (fun _ => True) Event.Bare s.peek := by
  refine .get_bind fun p _ => ?_
  split
  · rename_i e he
    exact .pure (hs e (Array.mem_of_getElem? he))
  · split
    · exact .throw _
    · exact .throw _

theorem keeps_node (hs : ∀ e ∈ s.events, e.Bare) (n depth : Nat) (path : Path) :
    Keeps (fun _ => True) (·.entries? = none) (node s n depth path false) := by
  cases n with
  | zero =>
    rw [node]
    exact .throw _
  | succ n =>
    rw [node]
    refine (keeps_peek hs).bind fun e he => ?_
    obtain ⟨kind, m⟩ := e
    obtain ⟨text, plain, rfl⟩ := he
    refine Keeps.bind (Q := fun _ => True) (.modify fun _ _ => trivial) fun _ _ => ?_
    split
    · rename_i v hv
      exact .pure (Scalar.entries?_of_value hv)
    · exact .throw _

/-- The root of a document of bare events is no mapping. -/
theorem entries?_of_value (hs : ∀ e ∈ s.events, e.Bare) {d : Value} (h : s.value = .ok d) :
    d.entries? = none := by
  rw [value] at h
  split at h
  · cases he : s.ending with
    | alone =>
      rw [he] at h
      cases h
      rfl
    | _ =>
      rw [he] at h
      cases h
  · cases hr : (node s (140 * (s.events.size + 8)) maxDepth .root false).run ⟨0, 0⟩ with
    | error f =>
      rw [hr] at h
      cases h
    | ok r =>
      have hread := (keeps_node hs _ _ _ _ _ _ trivial hr).2
      cases he : s.ending with
      | alone =>
        rw [hr, he] at h
        cases h
        exact hread
      | _ =>
        rw [hr, he] at h
        cases h

end EventStream

/-- The value of a text of white space is no mapping. -/
theorem Value.entries?_of_blank {text : String} {d : Value}
    (h : text.toList.all isBlank = true) (hd : ofText text = .ok d) : d.entries? = none :=
  EventStream.entries?_of_value
    (EventStream.bare_of_mem_ofTokens (TokenStream.isBare_of_mem_ofText h)) hd

end TuringTable.Yaml
