import TuringTable.Proofs.Closed
import TuringTable.Proofs.CommandLine.Arguments
import TuringTable.Proofs.CommandLine.Trace

/-!
# What the command line reports

A machine on the standard input is refused for its bytes alone: if they are no text, too many, or
describe no machine (`Program.Refused`). What loads is closed, so its run never gets lost
(`Home.of_advances`): it halts before the limit or takes as many transitions as the limit allows,
and the report says which (`report_of_ends`, `report_of_continued`, `commandLine_tells_the_truth`).
In either case the log gets the warnings of the text first.
-/

namespace TuringTable

namespace Machine
variable {s : Specification} {m m' : Machine} {k : Nat}

/-- Transitions lead from declared states to declared states. -/
theorem Home.of_advances (hc : s.Closed) (h : Home s m) (hr : m.haltReported = false)
    (ha : Advances k m m') : Home s m' := by
  induction ha with
  | refl => exact h
  | step ht _ ih =>
    have hs := h.step hc
    rw [step_of_some hr ht] at hs
    exact ih hs hr

/-- In a declared state a machine is halted only by where it has come to. -/
theorem Home.ends (h : Home s m) (hh : m.isHalted = true) : m.Ends := by
  rcases m.nextTransition_cases with ⟨t, ht⟩ | he | hl
  · rw [isHalted, ht] at hh
    cases hh
  · exact he
  · exact absurd hl (h.nextTransition_ne_unknownState m.state)

/-- A machine of a closed specification takes `n` transitions, or fewer lead it to where it ends. -/
theorem Home.advances_cases (hc : s.Closed) (h : Home s m) (hr : m.haltReported = false) (n : Nat) :
    (∃ m', Advances n m m') ∨ ∃ k < n, ∃ m', Advances k m m' ∧ m'.Ends := by
  rcases Machine.advances_cases n m with hn | ⟨k, hk, m', ha, he | hl⟩
  · exact .inl hn
  · exact .inr ⟨k, hk, m', ha, he⟩
  · exact absurd hl ((h.of_advances hc hr ha).nextTransition_ne_unknownState m'.state)

theorem Ends.isHalted (h : m.Ends) : m.isHalted = true := by
  rcases h with hh | hn
  · rw [Machine.isHalted, nextTransition_of_halting hh]
  · rw [Machine.isHalted, hn]

end Machine

namespace CommandLine
variable {start m : Machine} {k n : Nat} {warnings : List Warning}

/-! ### The report of a run -/

theorem report_of_ends (h : start.Advances k m) (hs : start.steps = 0)
    (hr : start.haltReported = false) (hk : k < n) (he : m.Ends) (debug : Bool) :
    report warnings (execute start n debug) =
      ⟨0, writeLines (trace debug start k ++
        [s!"Halted in state {m.state} after {k} steps.", m.tape.text]), warnings, ""⟩ := by
  obtain ⟨told, hx⟩ := execute_of_ends h hr hk he debug
  have hsteps : m.steps = k := by rw [h.steps, hs, Nat.zero_add]
  rw [hs, Nat.zero_add] at hx
  rw [hx, report_eq, writeLines_append, ← hsteps]
  rfl

theorem report_of_continued (h : start.Advances n m) (hs : start.steps = 0)
    (hr : start.haltReported = false) (debug : Bool) :
    report warnings (execute start n debug) =
      ⟨2, writeLines (trace debug start n ++ [m.tape.text]), warnings,
        writeLines [s!"Gave up after {n} steps in state {m.state}."]⟩ := by
  obtain ⟨told, hx⟩ := execute_of_continued h hr debug
  have hsteps : m.steps = n := by rw [h.steps, hs, Nat.zero_add]
  rw [hs, Nat.zero_add] at hx
  rw [hx, report_eq, writeLines_append, ← hsteps]
  rfl

/-- The report tells how the run of a new machine with a limit ended, and the log gets the warnings.
The trace is empty without `--debug`. -/
structure Tells (debug : Bool) (start : Machine) (limit : Nat) (warnings : List Warning)
    (r : Report) : Prop where
  /-- Fewer transitions than the limit lead to where none applies. Nothing but the log is on the
  standard error. -/
  halted : ∀ {k m}, k < limit → start.Advances k m → m.isHalted = true →
    r = ⟨0, writeLines (trace debug start k ++
      [s!"Halted in state {m.state} after {k} steps.", m.tape.text]), warnings, ""⟩
  /-- Otherwise it is where as many transitions as the limit lead. -/
  gaveUp : (∀ k m, k < limit → start.Advances k m → m.isHalted = false) →
    ∃ m, start.Advances limit m ∧
      r = ⟨2, writeLines (trace debug start limit ++ [m.tape.text]), warnings,
        writeLines [s!"Gave up after {limit} steps in state {m.state}."]⟩

theorem tells_report {spec : Specification} (hc : spec.Closed) (debug : Bool) (limit : Nat)
    (warnings : List Warning) :
    Tells debug (.ofSpec spec) limit warnings
      (report warnings (execute (.ofSpec spec) limit debug)) := by
  have hhome : Machine.Home spec (.ofSpec spec) := ⟨rfl, hc.start⟩
  constructor
  · intro k m hk hm hh
    exact report_of_ends hm rfl rfl hk ((hhome.of_advances hc rfl hm).ends hh) debug
  · intro hno
    rcases hhome.advances_cases hc rfl limit with ⟨m, hm⟩ | ⟨k, hk, m, hm, he⟩
    · exact ⟨m, hm, report_of_continued hm rfl rfl debug⟩
    · exact absurd (he.isHalted.symm.trans (hno k m hk hm)) Bool.noConfusion

namespace Tells
variable {debug : Bool} {start : Machine} {limit limit' : Nat} {r r' : Report}

theorem exitCode_cases (h : Tells debug start limit warnings r) :
    (r.exitCode = 0 ∧ ∃ k < limit, ∃ m, start.Advances k m ∧ m.isHalted = true) ∨
      r.exitCode = 2 := by
  by_cases hh : ∃ k < limit, ∃ m, start.Advances k m ∧ m.isHalted = true
  · obtain ⟨k, hk, m, hm, hhalt⟩ := hh
    rw [h.halted hk hm hhalt]
    exact .inl ⟨rfl, k, hk, m, hm, hhalt⟩
  · obtain ⟨m, -, hr⟩ := h.gaveUp fun k m hk hm => by
      rw [← Bool.not_eq_true]
      exact fun hhalt => hh ⟨k, hk, m, hm, hhalt⟩
    rw [hr]
    exact .inr rfl

/-- Where it halted it halts with a greater limit. -/
theorem eq_of_le (h : Tells debug start limit warnings r) (h0 : r.exitCode = 0)
    (hle : limit ≤ limit') (h' : Tells debug start limit' warnings r') : r' = r := by
  rcases h.exitCode_cases with ⟨-, k, hk, m, hm, hhalt⟩ | h2
  · rw [h.halted hk hm hhalt, h'.halted (Nat.lt_of_lt_of_le hk hle) hm hhalt]
  · rw [h0] at h2
    cases h2

end Tells

/-! ### The whole of it -/

variable {args : List String} {o : Options} {s : Surroundings} {bytes : ByteArray}

open Program (Refused)

theorem warnings_report (warnings : List Warning) (x : Execution) :
    (report warnings x).warnings = warnings := by
  rw [report]
  cases x.result with
  | error e => rfl
  | ok step => cases step <;> rfl

/-- Whatever comes of a call, the log gets what there was to warn of when the program was loaded. -/
theorem warnings_perform (hl : o.list = false) :
    (perform o s).warnings = (loadProgram o s).2 := by
  rw [perform, hl]
  rcases loadProgram o s with ⟨e | p, warnings⟩
  · rfl
  · cases o.dump with
    | true => rfl
    | false => exact warnings_report warnings _

theorem tells_perform (he : o.sample = none) (hf : o.program = none) (hl : o.list = false)
    (hd : o.dump = false) {text : String} {spec : Specification} (hs : s.input = some text.toUTF8)
    (hsize : text.utf8ByteSize ≤ maxProgramSize) (hspec : (parse text).1 = .ok spec) :
    Tells o.debug (.ofSpec (o.input.elim spec fun x => spec.withInput x.toList)) o.limit
      (parse text).2 (perform o s) := by
  have hload : loadProgram o s = (parse text).map (⟨"stdin", text, ·⟩) :=
    (loadProgram_input he hf hs).trans (Program.ofBytes_toUTF8 hsize)
  have hp : (loadProgram o s).1 = .ok ⟨"stdin", text, spec⟩ := by
    rw [hload, Logged.map, hspec]
    rfl
  have hclosed : (o.input.elim spec fun x => spec.withInput x.toList).Closed := by
    cases o.input with
    | none => exact closed_of_parse hspec
    | some x => exact (closed_of_parse hspec).withInput x.toList
  have hw : (loadProgram o s).2 = (parse text).2 := by rw [hload]; rfl
  rw [perform_of_ok hl hd hp, hw]
  exact tells_report hclosed o.debug o.limit _

/-- What a call reports of bytes on the standard input, if its arguments give no program, list
nothing and dump nothing. The exit code is 1, with an error and no output, exactly if the bytes are
refused. Otherwise the report tells how the run of the machine ended, on the input given if there is
one; and once it halts a greater limit makes no difference. In either case the log gets the warnings
of the text, and those alone; it gets none if there is no text or too much of it. -/
theorem commandLine_tells_the_truth (ho : Options.ofArguments args = .ok o)
    (he : o.sample = none) (hf : o.program = none) (hl : o.list = false) (hd : o.dump = false)
    (hs : s.input = some bytes) :
    let r := commandLine args s
    (r.exitCode = 1 ↔ Refused bytes) ∧
      (r.exitCode = 1 →
        r.output = "" ∧ ∃ e : Error, r.errors = writeLines ["Error: " ++ e.message]) ∧
      (∀ text spec, bytes = text.toUTF8 → bytes.size ≤ 65536 → (parse text).1 = .ok spec →
        Tells o.debug (.ofSpec (o.input.elim spec fun x => spec.withInput x.toList)) o.limit
          (parse text).2 r) ∧
      (∀ text, bytes = text.toUTF8 → bytes.size ≤ 65536 → r.warnings = (parse text).2) ∧
      ((∀ text : String, bytes = text.toUTF8 → 65536 < bytes.size) → r.warnings = []) ∧
      (r.exitCode = 0 → ∀ args' limit, limit ≥ o.limit →
        Options.ofArguments args' = .ok { o with maxSteps := some limit } →
          commandLine args' s = r) := by
  intro r
  have hr : r = perform o s := commandLine_eq_perform ho s
  have hload := loadProgram_input he hf hs
  have hwarnings : r.warnings = (Program.ofBytes "stdin" .unreadableInput bytes).2 := by
    rw [hr, warnings_perform hl, hload]
  have hparsed (text : String) (htext : bytes = text.toUTF8) (hsize : bytes.size ≤ 65536) :
      r.warnings = (parse text).2 := by
    subst htext
    rw [hwarnings, Program.ofBytes_toUTF8 hsize]
    rfl
  have hunparsed (h : ∀ text : String, bytes = text.toUTF8 → 65536 < bytes.size) :
      r.warnings = [] := by
    rw [hwarnings]
    refine Program.warnings_ofBytes_of_lt ?_
    rintro text rfl
    exact h text rfl
  have htells (text : String) (spec : Specification) (htext : bytes = text.toUTF8)
      (hsize : bytes.size ≤ 65536) (hspec : (parse text).1 = .ok spec) :
      Tells o.debug (.ofSpec (o.input.elim spec fun x => spec.withInput x.toList)) o.limit
        (parse text).2 r := by
    subst htext
    rw [hr]
    exact tells_perform he hf hl hd hs hsize hspec
  rcases Program.refused_or_parse bytes with hbad | ⟨text, spec, htext, hsize, hspec⟩
  · obtain ⟨e, hp⟩ : ∃ e, (loadProgram o s).1 = .error e :=
      hload ▸ Program.exists_error_of_refused hbad
    have hfailure : r = failure (loadProgram o s).2 e := hr.trans (perform_of_error hl hp)
    refine ⟨iff_of_true (hfailure ▸ rfl) hbad, fun _ => ⟨hfailure ▸ rfl, e, hfailure ▸ rfl⟩, htells,
      hparsed, hunparsed, ?_⟩
    rw [hfailure]
    exact nofun
  · have hr := htells text spec htext hsize hspec
    have hne : r.exitCode ≠ 1 := by
      rcases hr.exitCode_cases with ⟨h0, -⟩ | h2
      · simp [h0]
      · simp [h2]
    refine ⟨iff_of_false hne (Program.not_refused htext hsize hspec), fun h1 => absurd h1 hne,
      htells, hparsed, hunparsed, fun h0 args' limit hle ho' => hr.eq_of_le h0 hle ?_⟩
    subst htext
    rw [commandLine_eq_perform ho' s]
    exact tells_perform (o := { o with maxSteps := some limit }) he hf hl hd hs hsize hspec

/-- A machine with an unreachable state, which the log tells of. With a limit of three steps nobody
has seen a halt; on the input `1` the machine halts at once, and with a greater limit too. A byte
that begins no character is refused, and then there is nothing to log. -/
theorem gave_up_with_a_warning :
    let text := "blank: 0\nstart state: A\ntable:\n  A:\n    0: R\n  B:\n"
    let s : Surroundings := ⟨fun _ => .error .notFound, some text.toUTF8⟩
    let logger (warnings : List Warning) := writeLines (warnings.map (·.text))
    let r := commandLine ["-n3"] s
    r.exitCode = 2 ∧ r.output = "000[0]\n" ∧
      r.standardError logger =
        "State 'B' is unreachable from 'A'\nGave up after 3 steps in state A.\n" ∧
      commandLine ["--input=1", "-n3"] s =
        ⟨0, "Halted in state A after 0 steps.\n[1]\n", [.unreachableState "B" "A"], ""⟩ ∧
      commandLine ["--input=1", "-n10"] s = commandLine ["--input=1", "-n3"] s ∧
      let r' := commandLine ["-n3"] { s with input := some ⟨#[0x80]⟩ }
      r'.exitCode = 1 ∧ r'.warnings = [] := by
  intro text s logger r
  let spec : Specification :=
    ⟨'0', "A", .ofList [("A", some (.ofList [('0', .move .right)])), ("B", none)], []⟩
  have hparse : parse text = (.ok spec, [.unreachableState "B" "A"]) := by decide +kernel
  have hspec : (parse text).1 = .ok spec := by rw [hparse]
  have hsize : text.toUTF8.size ≤ 65536 := by decide +kernel
  let o (input : Option String) (limit : Nat) : Options :=
    ⟨none, none, false, input, false, some limit, false⟩
  have ho : Options.ofArguments ["-n3"] = .ok (o none 3) := by decide
  have ho' : Options.ofArguments ["--input=1", "-n3"] = .ok (o (some "1") 3) := by decide
  have hgreater : Options.ofArguments ["--input=1", "-n10"] = .ok (o (some "1") 10) := by decide
  have hgave : r = ⟨2, "000[0]\n", [.unreachableState "B" "A"],
      "Gave up after 3 steps in state A.\n"⟩ := by
    obtain ⟨-, -, htells, -⟩ := commandLine_tells_the_truth (s := s) ho rfl rfl rfl rfl rfl
    obtain ⟨m, hm, hr⟩ := (htells text spec rfl hsize hspec).gaveUp fun k m hk hm => by
      have hgoes : ∀ k < 3, ((Machine.ofSpec spec).stepped k).isHalted = false := by decide
      rw [← hm.stepped rfl]
      exact hgoes k hk
    refine hr.trans ?_
    rw [← hm.stepped rfl, hparse]
    decide
  obtain ⟨-, -, htells, -, -, hmore⟩ := commandLine_tells_the_truth (s := s) ho' rfl rfl rfl rfl rfl
  have hhalted : commandLine ["--input=1", "-n3"] s =
      ⟨0, "Halted in state A after 0 steps.\n[1]\n", [.unreachableState "B" "A"], ""⟩ := by
    have htold := htells text spec rfl hsize hspec
    rw [htold.halted (k := 0) (by decide) (.refl _) (by decide), hparse]
    decide
  have hbytes (text : String) : (⟨#[0x80]⟩ : ByteArray) ≠ text.toUTF8 := by
    intro htext
    have hnone : String.fromUTF8? ⟨#[0x80]⟩ = none := by decide +kernel
    rw [fromUTF8?_eq_some_iff.2 htext] at hnone
    cases hnone
  obtain ⟨hbad, -, -, -, hsilent, -⟩ :=
    commandLine_tells_the_truth (s := { s with input := some ⟨#[0x80]⟩ }) ho rfl rfl rfl rfl rfl
  refine ⟨?_, ?_, ?_, hhalted, hmore ?_ _ 10 (by decide) hgreater,
    hbad.2 (.inl fun text htext => hbytes text htext.symm),
    hsilent fun text htext => absurd htext (hbytes text)⟩
  · rw [hgave]
  · rw [hgave]
  · rw [hgave]
    decide
  · rw [hhalted]

end CommandLine

end TuringTable
