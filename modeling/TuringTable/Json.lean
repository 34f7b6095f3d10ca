import TuringTable.Specification
import TuringTable.Text.Quoted

/-!
# Written specifications

The form in which a specification is printed: objects, lists, texts and null, indented by two
spaces for each level.
-/

namespace TuringTable

inductive Json where
  | null
  | text (s : String)
  | list (items : List Json)
  | object (fields : List (String × Json))
deriving Repr

namespace Json

/-- A character between quotes. -/
def escape (c : Char) : String :=
  if c = '"' then "\\\""
  else if c = '\\' then "\\\\"
  else if c = '\n' then "\\n"
  else if c = '\r' then "\\r"
  else if c = '\t' then "\\t"
  else if c = '\x08' then "\\b"
  else if c = '\x0c' then "\\f"
  else if c < ' ' then
    let digits := (Text.hex c.toNat).toList
    "\\u" ++ String.ofList (List.replicate (4 - digits.length) '0' ++ digits)
  else String.singleton c

def quote (s : String) : String := "\"" ++ String.join (s.toList.map escape) ++ "\""

/-- A line break and the indentation of a level. -/
def newline (level : Nat) : String := "\n" ++ String.ofList (List.replicate (2 * level) ' ')

/-- Parts of a list or an object, each on a line of its own. -/
def block (left right : String) (level : Nat) (parts : List String) : String :=
  if parts.isEmpty then left ++ right
  else
    let sep := "," ++ newline (level + 1)
    left ++ newline (level + 1) ++ sep.intercalate parts ++ newline level ++ right

mutual

/-- The text of a value that stands at a level. -/
def print (level : Nat) : Json → String
  | null => "null"
  | text s => quote s
  | list items => block "[" "]" level (printItems (level + 1) items)
  | object fields => block "\x7b" "\x7d" level (printFields (level + 1) fields)
termination_by structural v => v

def printItems (level : Nat) : List Json → List String
  | [] => []
  | v :: vs => print level v :: printItems level vs
termination_by structural vs => vs

def printFields (level : Nat) : List (String × Json) → List String
  | [] => []
  | f :: fs => printField level f :: printFields level fs
termination_by structural fs => fs

def printField (level : Nat) : String × Json → String
  | (k, v) => quote k ++ ": " ++ print level v
termination_by structural f => f

end

def pretty (v : Json) : String := print 0 v

def char (c : Char) : Json := text (String.singleton c)

def option {α : Type} (f : α → Json) : Option α → Json
  | none => null
  | some a => f a

end Json

def Instruction.toJson (i : Instruction) : Json :=
  .object [("write", .option .char i.write), ("direction", .text i.direction.name),
    ("next_state", .option .text i.nextState)]

def Row.toJson (row : Row) : Json :=
  .object (row.entries.map fun (c, i) => (String.singleton c, i.toJson))

def Table.toJson (t : Table) : Json :=
  .object (t.entries.map fun (q, row) => (q, .option Row.toJson row))

def Specification.toJson (s : Specification) : Json :=
  .object [("blank", .char s.blank), ("start_state", .text s.startState),
    ("table", s.table.toJson), ("input", .list (s.input.map .char))]

end TuringTable
