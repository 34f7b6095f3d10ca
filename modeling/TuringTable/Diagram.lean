import TuringTable.Specification

/-!
# State diagrams

One node for each declared state and one edge for each pair of states with an instruction between
them. Symbols that share an instruction share a label.
-/

namespace TuringTable

section groupBy
variable {α κ : Type} [DecidableEq κ]

/-- Puts an item last in the group of its key, which is a new last group if there was none. -/
def addToGroup (key : α → κ) (a : α) : List (κ × List α) → List (κ × List α)
  | [] => [(key a, [a])]
  | g :: gs => if g.1 = key a then (g.1, g.2 ++ [a]) :: gs else g :: addToGroup key a gs

/-- Groups the items of a list by a key, the groups in the order of their first items. -/
def groupBy (key : α → κ) (as : List α) : List (κ × List α) :=
  as.foldl (fun gs a => addToGroup key a gs) []

end groupBy

namespace Diagram

structure Node where
  name : String
  start : Bool
  halting : Bool
deriving Repr, DecidableEq

/-- The symbols that share an instruction, and what it does. -/
structure Label where
  symbols : List Char
  write : Option Char
  direction : Direction
deriving Repr, DecidableEq

/-- A space is shown by a mark. -/
def visible (c : Char) : Char := if c = ' ' then '␣' else c

def Label.text (l : Label) : String :=
  let symbols := ",".intercalate (l.symbols.map fun c => String.singleton (visible c))
  let write := match l.write with
    | none => ""
    | some c => String.singleton (visible c) ++ ","
  symbols ++ "→" ++ write ++ String.singleton l.direction.letter

structure Edge where
  source : String
  target : String
  labels : List Label
deriving Repr, DecidableEq

end Diagram

structure Diagram where
  nodes : List Diagram.Node
  edges : List Diagram.Edge
deriving Repr, DecidableEq

namespace Diagram

def edge? (d : Diagram) (source target : String) : Option Edge :=
  d.edges.find? fun e => e.source == source && e.target == target

/-- A label with the states that it stands between. -/
structure Arrow where
  source : String
  target : String
  label : Label
deriving Repr, DecidableEq

def Arrow.ends (a : Arrow) : String × String := (a.source, a.target)

/-- The arrows of a row: one for each instruction, by its first symbol. -/
def arrows (q : String) (row : Row) : List Arrow :=
  (groupBy (fun p => (p.2.target q, p.2)) row.entries).map fun ((target, i), cells) =>
    ⟨q, target, ⟨cells.map (·.1), i.write, i.direction⟩⟩

/-- The start state comes before the others, which are in increasing order. -/
def startFirst (s : Specification) : List (String × Option Row) :=
  s.table.entries.filter (·.1 = s.startState) ++ s.table.entries.filter (·.1 ≠ s.startState)

/-- The edges of some arrows: one for each pair of ends, by its first arrow. -/
def edgesOf (as : List Arrow) : List Edge :=
  (groupBy Arrow.ends as).map fun ((source, target), as) => ⟨source, target, as.map (·.label)⟩

def ofSpec (s : Specification) : Diagram where
  nodes := (startFirst s).map fun (q, row) => ⟨q, q == s.startState, row.isNone⟩
  edges := edgesOf ((startFirst s).flatMap fun (q, row) => row.elim [] (arrows q))

end Diagram

end TuringTable
