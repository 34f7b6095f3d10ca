import TuringTable.Proofs.CommandLine.Arguments
import TuringTable.Proofs.CommandLine.Trace
import TuringTable.Proofs.Document.Input
import TuringTable.Proofs.Yaml.Equality

/-!
# The input on the command line

A call that gives an input does what it would do without, if the document had that input
(`input_override_eq_edit`). For one thing, an input does not matter to how the other arguments are
read (`ofArguments_input`); for another, a call needs the specification that a text describes and
the warnings, and nothing else of it (`perform_congr`), and setting the input changes no more of
that than the option does (`Document.parse_setInput`).
-/

namespace TuringTable

open Yaml (Value)

namespace CommandLine

/-- What the machine that a call is about is read as. -/
def Options.specification (o : Options) (s : Surroundings) : Logged Specification :=
  (loadProgram o s).map fun p => o.input.elim p.spec fun x => p.spec.withInput x.toList

/-- The text is in the file that the options name, or on the standard input. -/
def Options.Reads (o : Options) (s : Surroundings) (text : String) : Prop :=
  o.sample = .none ∧
    o.program.elim (s.input = some text.toUTF8) fun path => s.readFile path = .ok text.toUTF8

theorem perform_eq (o : Options) (s : Surroundings) :
    perform o s = if o.list then ⟨0, writeLines Catalog.names, Catalog.warnings, ""⟩
      else match o.specification s with
        | (.error e, warnings) => failure warnings e
        | (.ok spec, warnings) =>
          if o.dump then ⟨0, writeLines [spec.toJson.pretty], warnings, ""⟩
          else report warnings
            (execute (.ofSpec spec) (o.maxSteps.getD defaultStepLimit) o.debug) := by
  rw [perform, Options.specification]
  rcases loadProgram o s with ⟨_ | _, warnings⟩ <;> rfl

theorem perform_congr {o o' : Options} {s s' : Surroundings}
    (ho : o' = { o with program := o'.program, input := o'.input })
    (h : o'.specification s' = o.specification s) : perform o' s' = perform o s := by
  rw [perform_eq, perform_eq, h, ho]

theorem specification_of_reads {o : Options} {s : Surroundings} {text : String}
    (h : o.Reads s text) (hsize : text.utf8ByteSize ≤ maxProgramSize) :
    o.specification s =
      (parse text).map fun spec => o.input.elim spec fun x => spec.withInput x.toList := by
  obtain ⟨hsample, hread⟩ := h
  have hload : ∃ name, loadProgram o s = (parse text).map (⟨name, text, ·⟩) := by
    cases hp : o.program with
    | none =>
      rw [hp, Option.elim_none] at hread
      exact ⟨_, (loadProgram_input hsample hp hread).trans (Program.ofBytes_toUTF8 hsize)⟩
    | some path =>
      rw [hp, Option.elim_some] at hread
      have hfile : loadProgram o s = Program.ofFile path (.ok text.toUTF8) := by
        rw [loadProgram, hsample, hp, ← hread]
      exact ⟨_, hfile.trans (Program.ofBytes_toUTF8 hsize)⟩
  obtain ⟨name, hload⟩ := hload
  rw [Options.specification, hload]
  rcases parse text with ⟨_ | _, warnings⟩ <;> rfl

/-- Where a document is read, setting its input to `x` changes the input of what is read, and
neither the checks nor the warnings nor the unreachable states. So two texts of the size allowed,
one of the document and one of the document with that input, run in the same way, the first with
the option and the second without: the option can go before any arguments that give no input, and
wherever it stands and whatever the other options are, the exit code is the same and so is all that
is written, in the log and else. -/
theorem input_override_eq_edit (x : String) (n : Nat) {document : Value} {s : Specification}
    (h : ((Document.read document).run []).1 = .ok s) :
    let edited := Document.setInput n x document
    let t := s.withInput x.toList
    (Document.read edited).run [] = (.ok t, ((Document.read document).run []).2) ∧
      t.analyze = s.analyze ∧ t.unreachable = s.unreachable ∧
      Document.check edited =
        ((Document.check document).1.map (·.withInput x.toList), (Document.check document).2) ∧
      ∀ text text', text.utf8ByteSize ≤ maxProgramSize → text'.utf8ByteSize ≤ maxProgramSize →
        Value.ofText text = .ok document → Value.ofText text' = .ok edited →
        parse text' = ((parse text).1.map (·.withInput x.toList), (parse text).2) ∧
        ∀ args o, Options.ofArguments args = .ok o → o.input = none →
          Options.ofArguments (("--input=" ++ x) :: args) = .ok (o.withInput x) ∧
          ∀ args' o' w w', Options.ofArguments args' = .ok o' →
            o' = { o with program := o'.program, input := some x } →
            o'.Reads w text → o.Reads w' text' → commandLine args' w = commandLine args w' := by
  intro edited t
  refine ⟨Document.read_setInput n x h, Specification.analyze_withInput s _,
    Specification.unreachable_withInput s _, Document.check_setInput n x h, ?_⟩
  intro text text' hsize hsize' ht ht'
  have hparse := Document.parse_setInput ht ht' h
  refine ⟨hparse, fun args o ho hi => ⟨ofArguments_input x ho hi, ?_⟩⟩
  intro args' o' w w' ho' hsame hw hw'
  have hi' : o'.input = some x := by rw [hsame]
  rw [commandLine, commandLine, ho, ho']
  refine perform_congr (by rw [hi']; exact hsame) ?_
  rw [specification_of_reads hw hsize, specification_of_reads hw' hsize', hparse, hi, hi']
  rcases parse text with ⟨_ | _, warnings⟩ <;> rfl

/-- The numeral in the file counts no more, and the file with the string runs in the same way. -/
theorem numeral_overridden :
    let text := "blank: 0\nstart state: A\ninput: 7\ntable: \x7bA: \x7b0: R\x7d\x7d\n"
    let text' := "blank: 0\nstart state: A\ninput: '01'\ntable: \x7bA: \x7b0: R\x7d\x7d\n"
    let w : Surroundings :=
      ⟨fun path => .ok (if path = "numeral" then text.toUTF8 else text'.toUTF8), none⟩
    commandLine ["-n5", "string"] w = ⟨0, "Halted in state A after 1 steps.\n0[1]\n", [], ""⟩ ∧
      commandLine ["--input=01", "-n5", "numeral"] w = commandLine ["-n5", "string"] w ∧
      parse text' = ((parse text).1.map (·.withInput ['0', '1']), (parse text).2) := by
  intro text text' w
  let zero := Value.number (.integer 0)
  let table := Value.mapping [(.string "A", .mapping [(zero, .string "R")])]
  let document := Value.mapping [(.string "blank", zero), (.string "start state", .string "A"),
    (.string "input", .number (.integer 7)), (.string "table", table)]
  let s : Specification :=
    ⟨'0', "A", .ofList [("A", some (.ofList [('0', .move .right)]))], ['7']⟩
  have hread : ((Document.read document).run []).1 = .ok s := by decide
  have htext : Value.ofText text = .ok document := by decide +kernel
  have htext' : Value.ofText text' = .ok (Document.setInput 0 "01" document) := by decide +kernel
  obtain ⟨-, -, -, -, h⟩ := input_override_eq_edit "01" 0 hread
  obtain ⟨hparse, hrun⟩ := h text text' (by decide) (by decide) htext htext'
  let o : Options := ⟨some "string", none, false, none, false, some 5, false⟩
  let o' : Options := { o with program := some "numeral", input := some "01" }
  have ho' : Options.ofArguments ["--input=01", "-n5", "numeral"] = .ok o' := by decide
  have hhalted : commandLine ["-n5", "string"] w =
      ⟨0, "Halted in state A after 1 steps.\n0[1]\n", [], ""⟩ := by decide +kernel
  obtain ⟨-, hcall⟩ := hrun ["-n5", "string"] o (by decide) rfl
  exact ⟨hhalted, hcall _ o' w w ho' rfl ⟨rfl, rfl⟩ ⟨rfl, rfl⟩, hparse⟩

end CommandLine

end TuringTable
