import TuringTable.Proofs.CommandLine.Execution
import TuringTable.Proofs.Machine.Textbook
import TuringTable.Proofs.Program

/-!
# The trace of a run

With `--debug` the loop of the command line writes a line for the new machine and one after each
transition. Along the transitions that can be taken (`executeSteps_of_advances`) these lines pile up
and nothing else comes of the switch. So a run that ends after `k` transitions writes the same
report in both modes, with `trace` in front of it: a line for each of the configurations that
`0, …, k` steps lead to (`debug_adds_trace`).
-/

namespace TuringTable

namespace Machine
variable {m m' : Machine} {k : Nat}

/-- The first of a number of steps may be taken apart instead of the last one. -/
theorem stepped_succ (m : Machine) (n : Nat) : m.stepped (n + 1) = m.step.machine.stepped n := by
  induction n with
  | zero => rfl
  | succ n ih =>
    rw [stepped, ih]
    rfl

/-- Where the transitions of the table lead the steps lead. -/
theorem Advances.stepped (h : Advances k m m') (hr : m.haltReported = false) :
    m.stepped k = m' := by
  induction h with
  | refl => rfl
  | @step k m m' t ht _ ih =>
    rw [stepped_succ, step_of_some hr ht]
    exact ih hr

/-- If more transitions can be taken, fewer can. -/
theorem Advances.prefix_le {n : Nat} (h : Advances n m m') (hr : m.haltReported = false)
    (hk : k ≤ n) : Advances k m (m.stepped k) := by
  induction h generalizing k with
  | refl =>
    obtain rfl : k = 0 := Nat.le_zero.1 hk
    exact .refl _
  | @step n m m' t ht _ ih =>
    cases k with
    | zero => exact .refl _
    | succ k =>
      rw [stepped_succ, step_of_some hr ht]
      exact .step ht (ih hr (Nat.le_of_succ_le_succ hk))

end Machine

namespace CommandLine
variable {m m' : Machine} {k : Nat}

/-- The lines for the machine and for those that its first `k` steps lead to; none without the
switch. -/
def trace (debug : Bool) (m : Machine) (k : Nat) : List String :=
  if debug then (List.range (k + 1)).map fun i => stateLine (m.stepped i) else []

theorem trace_zero (debug : Bool) (m : Machine) :
    trace debug m 0 = if debug then [stateLine m] else [] := rfl

theorem trace_succ (debug : Bool) (m : Machine) (k : Nat) :
    trace debug m (k + 1) = trace debug m 0 ++ trace debug m.step.machine k := by
  cases debug with
  | false => rfl
  | true =>
    have hmap : (List.range (k + 1)).map (fun i => stateLine (m.stepped (i + 1))) =
        (List.range (k + 1)).map fun i => stateLine (m.step.machine.stepped i) :=
      List.map_congr_left fun i _ => by rw [Machine.stepped_succ]
    simp only [trace, if_pos, List.range_succ_eq_map (n := k + 1), List.map_cons, List.map_map]
    exact congrArg _ hmap

theorem reverse_trace_zero (debug : Bool) (m : Machine) :
    (trace debug m 0).reverse = trace debug m 0 := by
  cases debug <;> rfl

/-- Along transitions the loop writes the trace, last line first, and goes on from where they
lead. -/
theorem executeSteps_of_advances (h : m.Advances k m') (hr : m.haltReported = false)
    (debug : Bool) (told : List Happening) (lines : List String) (n : Nat) :
    ∃ told', executeSteps debug m told (trace debug m 0 ++ lines) (k + n) =
      executeSteps debug m' told' ((trace debug m k).reverse ++ lines) n := by
  induction h generalizing told lines with
  | refl =>
    refine ⟨told, ?_⟩
    rw [reverse_trace_zero, Nat.zero_add]
  | @step k m m' t ht _ ih =>
    obtain ⟨told', ih⟩ := ih hr (.moved m.state m.tape.head t :: told) (trace debug m 0 ++ lines)
    refine ⟨told', ?_⟩
    have hline : (if debug then stateLine (m.apply t) :: (trace debug m 0 ++ lines)
        else trace debug m 0 ++ lines) =
        trace debug (m.apply t) 0 ++ (trace debug m 0 ++ lines) := by
      cases debug <;> rfl
    rw [Nat.succ_add, executeSteps_of_some hr ht, hline, ih, trace_succ, List.reverse_append,
      reverse_trace_zero, Machine.step_of_some hr ht, List.append_assoc]

/-- The loop ends where the transitions that can be taken end, or with the limit. -/
theorem execute_of_advances (h : m.Advances k m') (hr : m.haltReported = false) (debug : Bool)
    (n : Nat) :
    ∃ told, execute m (m.steps + (k + n)) debug =
      executeSteps debug m' told (trace debug m k).reverse n := by
  obtain ⟨told, ht⟩ := executeSteps_of_advances h hr debug [] [] n
  rw [List.append_nil, List.append_nil] at ht
  exact ⟨told, by rw [execute, Nat.add_sub_cancel_left, ← trace_zero, ht]⟩

variable {n : Nat}

theorem execute_of_continued (h : m.Advances n m') (hr : m.haltReported = false) (debug : Bool) :
    ∃ told, execute m (m.steps + n) debug =
      ⟨⟨m', .ok .continued, told⟩, (trace debug m n).reverse⟩ := by
  obtain ⟨told, ht⟩ := execute_of_advances h hr debug 0
  exact ⟨told.reverse, ht⟩

theorem execute_of_ends (h : m.Advances k m') (hr : m.haltReported = false) (hk : k < n)
    (he : m'.Ends) (debug : Bool) :
    ∃ told, execute m (m.steps + n) debug =
      ⟨⟨m', .ok .halted, told⟩, (trace debug m k).reverse⟩ := by
  obtain ⟨j, rfl⟩ : ∃ j, n = k + (j + 1) := ⟨n - k - 1, by omega⟩
  obtain ⟨told, ht⟩ := execute_of_advances h hr debug (j + 1)
  exact ⟨told.reverse, ht.trans (executeSteps_of_ends he j)⟩

theorem execute_of_lost (h : m.Advances k m') (hr : m.haltReported = false) (hk : k < n)
    (hl : m'.Lost) (debug : Bool) :
    ∃ told, execute m (m.steps + n) debug =
      ⟨⟨m', .error (.unknownState m'.state), told⟩, (trace debug m k).reverse⟩ := by
  obtain ⟨j, rfl⟩ : ∃ j, n = k + (j + 1) := ⟨n - k - 1, by omega⟩
  obtain ⟨told, ht⟩ := execute_of_advances h hr debug (j + 1)
  exact ⟨told.reverse, ht.trans (executeSteps_of_lost hl j)⟩

/-- Whatever the machine, the loop takes some transitions, and the switch only adds the trace of
these. -/
theorem exists_execute_eq (hr : m.haltReported = false) (n : Nat) :
    ∃ k ≤ n, ∃ m' result, m.Advances k m' ∧ ∀ debug, ∃ told,
      execute m (m.steps + n) debug = ⟨⟨m', result, told⟩, (trace debug m k).reverse⟩ := by
  rcases Machine.advances_cases n m with ⟨m', h⟩ | ⟨k, hk, m', h, he | hl⟩
  · exact ⟨n, Nat.le_refl n, m', _, h, execute_of_continued h hr⟩
  · exact ⟨k, Nat.le_of_lt hk, m', _, h, execute_of_ends h hr hk he⟩
  · exact ⟨k, Nat.le_of_lt hk, m', _, h, execute_of_lost h hr hk hl⟩

/-! ### Reports -/

theorem writeLines_append (ls ls' : List String) :
    writeLines (ls ++ ls') = writeLines ls ++ writeLines ls' := by
  rw [writeLines, List.map_append, String.join_append]
  rfl

/-- The lines of a loop come before the rest of the output and are of no other account. -/
theorem report_eq (warnings : List Warning) (m : Machine) (result : Except MachineError Step)
    (told : List Happening) (lines : List String) :
    report warnings ⟨⟨m, result, told⟩, lines.reverse⟩ =
      { report warnings ⟨⟨m, result, []⟩, []⟩ with
        output := writeLines lines ++ (report warnings ⟨⟨m, result, []⟩, []⟩).output } := by
  rcases result with e | _ | _
  · simp [report, writeLines]
  · simp [report, writeLines_append]
  · simp [report, writeLines_append]

/-! ### Programs that load -/

/-- The machine of a program, on the input that was given in place of its own. -/
def Options.machine (o : Options) (p : Program) : Machine :=
  .ofSpec (o.input.elim p.spec fun x => p.spec.withInput x.toList)

def Options.limit (o : Options) : Nat := o.maxSteps.getD defaultStepLimit

variable {o : Options} {s : Surroundings} {p : Program}

theorem perform_of_error {e : Error} (hl : o.list = false) (hp : (loadProgram o s).1 = .error e) :
    perform o s = failure (loadProgram o s).2 e := by
  rw [perform, hl]
  rcases hload : loadProgram o s with ⟨loaded, warnings⟩
  rw [hload] at hp
  obtain rfl : loaded = .error e := hp
  rfl

theorem perform_of_ok (hl : o.list = false) (hd : o.dump = false)
    (hp : (loadProgram o s).1 = .ok p) :
    perform o s = report (loadProgram o s).2 (execute (o.machine p) o.limit o.debug) := by
  rw [perform, hl, hd]
  rcases hload : loadProgram o s with ⟨loaded, warnings⟩
  rw [hload] at hp
  obtain rfl : loaded = .ok p := hp
  rfl

/-- Where nothing else is asked for the program is on the standard input. -/
theorem loadProgram_input {bytes : ByteArray} (he : o.sample = none) (hf : o.program = none)
    (hs : s.input = some bytes) :
    loadProgram o s = Program.ofBytes "stdin" .unreadableInput bytes := by
  rw [loadProgram, he, hf, hs]

/-- With `--debug` a program that loads ends in the same way as without, for every limit and input,
and the same is on the standard error, in the log and after it. Before what is written else there is
a line for each of the configurations that `0, …, k` steps of a new machine lead to, if the run
takes `k` transitions. -/
theorem debug_adds_trace (hl : o.list = false) (hd : o.dump = false)
    (hp : (loadProgram o s).1 = .ok p) :
    let start := o.machine p
    let quiet := perform { o with debug := false } s
    let loud := perform { o with debug := true } s
    let ended := (execute start o.limit false).machine
    let k := ended.steps
    quiet = report (loadProgram o s).2 (execute start o.limit false) ∧ start.Advances k ended ∧
      k ≤ o.limit ∧ loud.exitCode = quiet.exitCode ∧ loud.warnings = quiet.warnings ∧
      loud.errors = quiet.errors ∧
      loud.output = writeLines ((List.range (k + 1)).map fun i =>
        s!"Step: {i}, State: {(start.stepped i).state}, Tape: {(start.stepped i).tape.text}") ++
          quiet.output := by
  intro start quiet loud ended k
  have hr : start.haltReported = false := rfl
  obtain ⟨n, hn, m', result, h, hx⟩ := exists_execute_eq hr o.limit
  -- a new machine has taken no step, so the limit counts all of them
  have hsteps : start.steps + o.limit = o.limit := Nat.zero_add _
  rw [hsteps] at hx
  obtain ⟨toldq, hxq⟩ := hx false
  obtain ⟨toldl, hxl⟩ := hx true
  have hquiet : quiet = report (loadProgram o s).2 (execute start o.limit false) :=
    perform_of_ok (o := { o with debug := false }) hl hd hp
  have hloud : loud = report (loadProgram o s).2 (execute start o.limit true) :=
    perform_of_ok (o := { o with debug := true }) hl hd hp
  have hended : ended = m' := congrArg (·.machine) hxq
  have hk : k = n := by
    show ended.steps = n
    rw [hended, h.steps]
    exact Nat.zero_add n
  have htrace : trace true start n = (List.range (k + 1)).map fun i =>
      s!"Step: {i}, State: {(start.stepped i).state}, Tape: {(start.stepped i).tape.text}" := by
    rw [hk]
    refine List.map_congr_left fun i hi => ?_
    have hi : i ≤ n := Nat.le_of_lt_succ (List.mem_range.1 hi)
    have hstep : (start.stepped i).steps = i := ((h.prefix_le hr hi).steps).trans (Nat.zero_add i)
    rw [stateLine, hstep]
  rw [hquiet, hloud, hxq, hxl, report_eq, report_eq, ← htrace]
  refine ⟨rfl, ?_, hk ▸ hn, rfl, rfl, rfl, ?_⟩
  · rw [hk, hended]
    exact h
  · simp [trace, writeLines]

/-- A run that halts with one step of the limit left to take, of a machine with an unreachable
state. -/
theorem traced_to_the_halt :
    let text := "blank: 0\nstart state: A\ntable:\n  A:\n    0:\n      R: B\n  B:\n    0: L\n  C:\n"
    let s : Surroundings := ⟨fun _ => .error .notFound, some text.toUTF8⟩
    let o : Options := ⟨none, none, false, some "01", false, some 2, false⟩
    (∃ p, (loadProgram o s).1 = .ok p) ∧ (perform { o with debug := true } s).exitCode = 0 ∧
      (perform { o with debug := true } s).warnings = [.unreachableState "C" "A"] ∧
      (perform { o with debug := true } s).errors = "" ∧
      (perform { o with debug := true } s).output =
        "Step: 0, State: A, Tape: [0]1\nStep: 1, State: B, Tape: 0[1]\n" ++
          "Halted in state B after 1 steps.\n0[1]\n" := by
  intro text s o
  let spec : Specification := ⟨'0', "A",
    .ofList [("A", some (.ofList [('0', ⟨none, .right, "B"⟩)])),
      ("B", some (.ofList [('0', .move .left)])), ("C", none)], []⟩
  have hparse : parse text = (.ok spec, [.unreachableState "C" "A"]) := by decide +kernel
  have hload : loadProgram o s = (.ok ⟨"stdin", text, spec⟩, [.unreachableState "C" "A"]) := by
    rw [loadProgram_input rfl rfl rfl, Program.ofBytes_toUTF8 (by decide +kernel), hparse]
    rfl
  have hp : (loadProgram o s).1 = .ok ⟨"stdin", text, spec⟩ := by rw [hload]
  obtain ⟨hquiet, -, -, hexit, hwarnings, herrors, houtput⟩ := debug_adds_trace rfl rfl hp
  rw [hload] at hquiet
  refine ⟨⟨_, hp⟩, ?_, ?_, ?_, ?_⟩
  · rw [hexit, hquiet]
    decide
  · rw [hwarnings, hquiet]
    decide
  · rw [herrors, hquiet]
    decide
  · rw [houtput, hquiet]
    decide

end CommandLine

end TuringTable
