import TuringTable.Catalog
import TuringTable.Json

/-!
# The command line

What a call does, as a function of its arguments, its standard input and the files around it: the
exit code and what is written.
-/

namespace TuringTable

namespace CommandLine

structure Options where
  program : Option String
  sample : Option String
  list : Bool
  input : Option String
  debug : Bool
  maxSteps : Option Nat
  dump : Bool
deriving Repr, DecidableEq

inductive Flag where
  | list | debug | dump
deriving Repr, DecidableEq

inductive Key where
  | sample | input | maxSteps
deriving Repr, DecidableEq

inductive Switch where
  | flag (f : Flag)
  | key (k : Key)
  | version
  | help
deriving Repr, DecidableEq

def longSwitch? : String → Option Switch
  | "list" => some (.flag .list)
  | "debug" => some (.flag .debug)
  | "dump" => some (.flag .dump)
  | "example" => some (.key .sample)
  | "input" => some (.key .input)
  | "max-steps" => some (.key .maxSteps)
  | "version" => some .version
  | "help" => some .help
  | _ => none

def shortSwitch? : Char → Option Switch
  | 'l' => some (.flag .list)
  | 'd' => some (.flag .debug)
  | 'e' => some (.key .sample)
  | 'i' => some (.key .input)
  | 'n' => some (.key .maxSteps)
  | 'V' => some .version
  | 'h' => some .help
  | _ => none

inductive Stop where
  | wrongUsage
  | showVersion
  | showHelp
deriving Repr, DecidableEq

/-- A number of steps, which 64 bits hold. -/
def stepLimit? (s : String) : Option Nat :=
  let digits := match s.toList with
    | '+' :: cs => cs
    | cs => cs
  if digits.isEmpty || !digits.all Char.isDigit then none
  else
    let n := digits.foldl (fun n c => 10 * n + (c.toNat - 0x30)) 0
    if n < UInt64.size then some n else none

namespace Options

def none : Options := ⟨.none, .none, false, .none, false, .none, false⟩

/-- Each flag may be given once. -/
def setFlag (o : Options) : Flag → Except Stop Options
  | .list => if o.list then .error .wrongUsage else .ok { o with list := true }
  | .debug => if o.debug then .error .wrongUsage else .ok { o with debug := true }
  | .dump => if o.dump then .error .wrongUsage else .ok { o with dump := true }

/-- Each value may be given once. -/
def setKey (o : Options) (value : String) : Key → Except Stop Options
  | .sample =>
    if o.sample.isSome then .error .wrongUsage else .ok { o with sample := some value }
  | .input =>
    if o.input.isSome then .error .wrongUsage else .ok { o with input := some value }
  | .maxSteps =>
    match o.maxSteps, stepLimit? value with
    | .none, some n => .ok { o with maxSteps := some n }
    | _, _ => .error .wrongUsage

def setProgram (o : Options) (path : String) : Except Stop Options :=
  if o.program.isSome then .error .wrongUsage else .ok { o with program := some path }

end Options

/-- The options so far, and a switch that waits for its value. -/
structure Progress where
  options : Options
  waiting : Option Key
deriving Repr

def applySwitch (o : Options) : Switch → Except Stop Progress
  | .flag f => (o.setFlag f).map (⟨·, .none⟩)
  | .key k => .ok ⟨o, some k⟩
  | .version => .error .showVersion
  | .help => .error .showHelp

/-- The letters after one dash. A letter that takes a value takes what follows it, without an
equals sign before it. -/
def readLetters (o : Options) : List Char → Except Stop Progress
  | [] => .ok ⟨o, .none⟩
  | c :: cs =>
    match shortSwitch? c with
    | .none => .error .wrongUsage
    | some (.key k) =>
      match cs with
      | [] => .ok ⟨o, some k⟩
      | '=' :: cs => (o.setKey (String.ofList cs) k).map (⟨·, .none⟩)
      | cs => (o.setKey (String.ofList cs) k).map (⟨·, .none⟩)
    | some s => do readLetters (← applySwitch o s).options cs

/-- The word after two dashes, with a value after an equals sign or without. -/
def readWord (o : Options) (cs : List Char) : Except Stop Progress :=
  let name := cs.takeWhile (· != '=')
  match longSwitch? (String.ofList name), cs.drop name.length with
  | .none, _ => .error .wrongUsage
  | some s, [] => applySwitch o s
  | some (.key k), _ :: value => (o.setKey (String.ofList value) k).map (⟨·, .none⟩)
  | some _, _ => .error .wrongUsage

/-- Reads one argument. One that begins with a dash is never the value of the switch before it,
a dash alone apart. -/
def readArgument (p : Progress) (arg : String) : Except Stop Progress :=
  match arg.toList, p.waiting with
  | '-' :: '-' :: cs, .none => readWord p.options cs
  | '-' :: c :: cs, .none => readLetters p.options (c :: cs)
  | '-' :: _ :: _, some _ => .error .wrongUsage
  | _, some k => (p.options.setKey arg k).map (⟨·, .none⟩)
  | _, .none => (p.options.setProgram arg).map (⟨·, .none⟩)

/-- Reads the arguments from a point on; after `--` all of them are paths. -/
def readArguments (p : Progress) : List String → Except Stop Progress
  | [] => .ok p
  | "--" :: args => do
    if p.waiting.isSome then throw .wrongUsage
    return ⟨← args.foldlM Options.setProgram p.options, .none⟩
  | arg :: args => do readArguments (← readArgument p arg) args

/-- The options that the arguments give. A built-in program and a path exclude each other. -/
def Options.ofArguments (args : List String) : Except Stop Options := do
  let p ← readArguments ⟨.none, .none⟩ args
  if p.waiting.isSome then throw .wrongUsage
  if p.options.sample.isSome && p.options.program.isSome then throw .wrongUsage
  return p.options

/-- What is around a call: what reading a file gives, and what is on the standard input, `none` if
that is a terminal. -/
structure Surroundings where
  readFile : String → Except AccessFault ByteArray
  input : Option ByteArray

/-- What comes of a call. The warnings go to the log, which is on the standard error like `errors`
and before it; lesser records are not in the log. -/
structure Report where
  exitCode : UInt32
  output : String
  warnings : List Warning
  errors : String
deriving Repr, DecidableEq

/-- All that is on the standard error, if `logger` tells what the log makes of warnings: a line for
each with the time, or nothing if it is switched off. -/
def Report.standardError (r : Report) (logger : List Warning → String) : String :=
  logger r.warnings ++ r.errors

/-- The program that is asked for: a built-in one, one in a file, or else on the standard input,
which is not read from a terminal. A built-in program is looked up among all of them. -/
def loadProgram (o : Options) (s : Surroundings) : Logged Program :=
  match o.sample, o.program with
  | some name, _ => (Catalog.byName name, Catalog.warnings)
  | .none, some path => Program.ofFile path (s.readFile path)
  | .none, .none =>
    match s.input with
    | some bytes => Program.ofBytes "stdin" .unreadableInput bytes
    | .none => .fail .noProgram

/-- How a run ended, the machine then and what happened, and the lines written on the way, last one
first. -/
structure Execution extends Outcome (Except MachineError Step) where
  lines : List String

def stateLine (m : Machine) : String :=
  s!"Step: {m.steps}, State: {m.state}, Tape: {m.tape.text}"

/-- Runs for `n` steps; `told` is what happened before, last thing first. -/
def executeSteps (debug : Bool) (m : Machine) (told : List Happening) (lines : List String) :
    Nat → Execution
  | 0 => ⟨⟨m, .ok .continued, told.reverse⟩, lines⟩
  | n + 1 =>
    match m.nextTransition with
    | .ok .none | .error (.haltingState _) => ⟨⟨m, .ok .halted, told.reverse⟩, lines⟩
    | .error e => ⟨⟨m, .error e, told.reverse⟩, lines⟩
    | .ok (some _) =>
      let o := m.step
      let told := o.account.reverseAux told
      match o.result with
      | .error e => ⟨⟨o.machine, .error e, told.reverse⟩, lines⟩
      | .ok _ =>
        executeSteps debug o.machine told
          (if debug then stateLine o.machine :: lines else lines) n

/-- Runs a machine until it halts or has taken `maxSteps` steps in all. -/
def execute (m : Machine) (maxSteps : Nat) (debug : Bool) : Execution :=
  executeSteps debug m [] (if debug then [stateLine m] else []) (maxSteps - m.steps)

def writeLines (lines : List String) : String := String.join (lines.map (· ++ "\n"))

def failure (warnings : List Warning) (e : Error) : Report :=
  ⟨1, "", warnings, writeLines ["Error: " ++ e.message]⟩

def report (warnings : List Warning) (x : Execution) : Report :=
  let m := x.machine
  let trace := x.lines.reverse
  match x.result with
  | .ok .halted =>
    let line := s!"Halted in state {m.state} after {m.steps} steps."
    ⟨0, writeLines (trace ++ [line, m.tape.text]), warnings, ""⟩
  | .ok .continued =>
    let line := s!"Gave up after {m.steps} steps in state {m.state}."
    ⟨2, writeLines (trace ++ [m.tape.text]), warnings, writeLines [line]⟩
  | .error e => { failure warnings (.machine e) with output := writeLines trace }

def perform (o : Options) (s : Surroundings) : Report :=
  if o.list then ⟨0, writeLines Catalog.names, Catalog.warnings, ""⟩
  else match loadProgram o s with
    | (.error e, warnings) => failure warnings e
    | (.ok p, warnings) =>
      let spec := o.input.elim p.spec fun x => p.spec.withInput x.toList
      if o.dump then ⟨0, writeLines [spec.toJson.pretty], warnings, ""⟩
      else report warnings (execute (.ofSpec spec) (o.maxSteps.getD defaultStepLimit) o.debug)

def versionLine : String := "tmsim-cli 0.0.1"

/-- What a call does that does not get as far as a program. -/
def Stop.report : Stop → Report
  | wrongUsage => ⟨2, "", [], "error: wrong arguments\n"⟩
  | showVersion => ⟨0, writeLines [versionLine], [], ""⟩
  | showHelp =>
    ⟨0, writeLines ["Runs a Turing machine written as a YAML transition table"], [], ""⟩

end CommandLine

def commandLine (args : List String) (s : CommandLine.Surroundings) : CommandLine.Report :=
  match CommandLine.Options.ofArguments args with
  | .ok o => CommandLine.perform o s
  | .error stop => stop.report

end TuringTable
