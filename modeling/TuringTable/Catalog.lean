import TuringTable.Program

/-!
# The built-in programs
-/

namespace TuringTable

namespace Catalog

def binaryIncrement : String :=
  "# Adds 1 to a binary number.\n" ++
  "input: '1011'\n" ++
  "blank: ' '\n" ++
  "start state: right\n" ++
  "table:\n" ++
  "  # scan to the rightmost digit\n" ++
  "  right:\n" ++
  "    [1,0]: R\n" ++
  "    ' '  : \x7bL: carry\x7d\n" ++
  "  # then carry the 1\n" ++
  "  carry:\n" ++
  "    1      : \x7bwrite: 0, L\x7d\n" ++
  "    [0,' ']: \x7bwrite: 1, L: done\x7d\n" ++
  "  done:\n"

def divisibleByThree : String :=
  "# Checks if a binary number is divisible by 3.\n" ++
  "# Each state is the remainder of the digits read so far.\n" ++
  "input: '1001'\n" ++
  "blank: ' '\n" ++
  "start state: q0\n" ++
  "table:\n" ++
  "  q0:\n" ++
  "    0: R\n" ++
  "    1: \x7bR: q1\x7d\n" ++
  "    ' ': \x7bR: accept\x7d\n" ++
  "  q1:\n" ++
  "    0: \x7bR: q2\x7d\n" ++
  "    1: \x7bR: q0\x7d\n" ++
  "  q2:\n" ++
  "    0: \x7bR: q1\x7d\n" ++
  "    1: R\n" ++
  "  accept:\n"

def copyOnes : String :=
  "# Copies a string of 1s, leaving a 0 between the original and the copy.\n" ++
  "input: '111'\n" ++
  "blank: 0\n" ++
  "start state: each\n" ++
  "table:\n" ++
  "  # mark the next 1 to copy, or stop once the separator is reached\n" ++
  "  each:\n" ++
  "    0: \x7bR: done\x7d\n" ++
  "    1: \x7bwrite: 0, R: sep\x7d\n" ++
  "  # skip the rest of the original\n" ++
  "  sep:\n" ++
  "    0: \x7bR: add\x7d\n" ++
  "    1: R\n" ++
  "  # append a 1 to the copy\n" ++
  "  add:\n" ++
  "    0: \x7bwrite: 1, L: sepL\x7d\n" ++
  "    1: R\n" ++
  "  # walk back to the separator\n" ++
  "  sepL:\n" ++
  "    0: \x7bL: next\x7d\n" ++
  "    1: L\n" ++
  "  # walk back to the mark and restore it\n" ++
  "  next:\n" ++
  "    0: \x7bwrite: 1, R: each\x7d\n" ++
  "    1: L\n" ++
  "  done:\n"

def parity : String :=
  "# Erases the input and writes E if it held an even number of 1s, O if odd.\n" ++
  "input: '1101'\n" ++
  "blank: ' '\n" ++
  "start state: even\n" ++
  "synonyms:\n" ++
  "  erase: \x7bwrite: ' ', R\x7d\n" ++
  "table:\n" ++
  "  even:\n" ++
  "    1: \x7bwrite: ' ', R: odd\x7d\n" ++
  "    ' ': \x7bwrite: E, R: done\x7d\n" ++
  "    _: erase\n" ++
  "  odd:\n" ++
  "    1: \x7bwrite: ' ', R: even\x7d\n" ++
  "    ' ': \x7bwrite: O, R: done\x7d\n" ++
  "    _: erase\n" ++
  "  done:\n"

def busyBeaver : String :=
  "# The 2-state busy beaver: writes four 1s on a blank tape, then halts.\n" ++
  "blank: 0\n" ++
  "start state: A\n" ++
  "table:\n" ++
  "  A:\n" ++
  "    0: \x7bwrite: 1, R: B\x7d\n" ++
  "    1: \x7bL: B\x7d\n" ++
  "  B:\n" ++
  "    0: \x7bwrite: 1, L: A\x7d\n" ++
  "    1: \x7bR: H\x7d\n" ++
  "  H:\n"

/-- Names and texts. -/
def texts : List (String × String) := [
  ("Binary increment", binaryIncrement),
  ("Divisible by 3", divisibleByThree),
  ("Copy 1s", copyOnes),
  ("Parity", parity),
  ("Busy beaver (2 states)", busyBeaver)]

def programs : List Program :=
  texts.filterMap fun (name, text) => (Program.ofText name text).1.toOption

/-- What there is to warn of when the programs are read, all at once. -/
def warnings : List Warning := texts.flatMap fun (name, text) => (Program.ofText name text).2

def size : Nat := programs.length

def names : List String := programs.map (·.name)

def byIndex (i : Nat) : Except Error Program :=
  match programs[i]? with
  | some p => .ok p
  | none => .error (.noSuchIndex i)

/-- The text with the ASCII capitals made small. -/
def lower (s : String) : List Char := s.toList.map Char.toLower

/-- The program with a name; ASCII capitals and small letters count as the same. -/
def byName (name : String) : Except Error Program :=
  match programs.find? fun p => lower p.name == lower name with
  | some p => .ok p
  | none => .error (.noSuchName name)

/-- `cs` stands somewhere in the list. -/
def occursIn (cs : List Char) : List Char → Bool
  | [] => cs.isEmpty
  | d :: ds => cs.isPrefixOf (d :: ds) || occursIn cs ds

/-- The indices of the programs whose names hold `query`; capitals and small letters count as the
same. The names are ASCII, and no other letter has one of theirs as its small letter. -/
def search (query : String) : List Nat :=
  (List.range size).filter fun i =>
    (programs[i]?).any fun p => occursIn (lower query) (lower p.name)

/-- What a list of programs tells of one. -/
structure Info where
  index : Nat
  name : String
  startState : String
  input : String
  stateCount : Nat
  transitionCount : Nat
deriving Repr, DecidableEq

def info (i : Nat) : Except Error Info := do
  let p ← byIndex i
  return ⟨i, p.name, p.spec.startState, String.ofList p.spec.input, p.spec.stateCount,
    p.spec.transitionCount⟩

end Catalog

end TuringTable
