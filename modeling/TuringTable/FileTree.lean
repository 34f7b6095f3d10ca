/-!
# Files and directories

A tree of named files and directories, and how a path is followed in it. Names are joined by
slashes; `.` and an empty name stay in a directory and `..` goes up.
-/

namespace TuringTable

inductive AccessFault where
  | notFound
  | notADirectory
  | isADirectory
  | notText
deriving Repr, DecidableEq

def AccessFault.text : AccessFault → String
  | notFound => "No such file or directory (os error 2)"
  | notADirectory => "Not a directory (os error 20)"
  | isADirectory => "Is a directory (os error 21)"
  | notText => "stream did not contain valid UTF-8"

inductive FileTree where
  | file (content : ByteArray)
  | directory (entries : List (String × FileTree))

namespace FileTree

def empty : FileTree := directory []

/-- Where a walk has come to: the way back, and the tree there. Above the root nothing is known. -/
structure Spot where
  above : List FileTree
  here : FileTree

namespace Spot

def enter (s : Spot) (name : String) : Except AccessFault Spot :=
  match s.here with
  | file _ => .error .notADirectory
  | directory entries =>
    if name = "" ∨ name = "." then .ok s
    else if name = ".." then
      match s.above with
      | [] => .ok ⟨[], empty⟩
      | t :: ts => .ok ⟨ts, t⟩
    else match entries.lookup name with
      | some t => .ok ⟨s.here :: s.above, t⟩
      | none => .error .notFound

end Spot

/-- The names in a path, what stands between its slashes. -/
def names (path : String) : List String := (path.toList.splitOn '/').map String.ofList

/-- What a path leads to. The empty path leads nowhere; one that begins with a slash leads out of
the tree. -/
def find (t : FileTree) (path : String) : Except AccessFault FileTree :=
  if path = "" then .error .notFound
  else
    let start : Spot := ⟨[], if path.startsWith "/" then empty else t⟩
    ((names path).foldlM Spot.enter start).map (·.here)

def read (t : FileTree) (path : String) : Except AccessFault ByteArray := do
  match ← t.find path with
  | file content => .ok content
  | directory _ => .error .isADirectory

/-- The entries of a directory, in no order that matters. -/
def list (t : FileTree) (path : String) : Except AccessFault (List (String × FileTree)) := do
  match ← t.find path with
  | directory entries => .ok entries
  | file _ => .error .notADirectory

def join (directory name : String) : String :=
  if directory = "" ∨ directory.endsWith "/" then directory ++ name
  else directory ++ "/" ++ name

def fileName (path : String) : String := ((names path).getLast?).getD path

/-- Stem and extension of a file's name, which are divided by its last point. A name that has no
other point than at its beginning is all stem. -/
def splitExtension (name : String) : String × Option String :=
  let cs := name.toList
  let after := cs.reverse.takeWhile (· != '.')
  let before := cs.take (cs.length - after.length - 1)
  if before.isEmpty || after.length == cs.length then (name, none)
  else (String.ofList before, some (String.ofList after.reverse))

def stem (name : String) : String := (splitExtension name).1

def extension? (name : String) : Option String := (splitExtension name).2

end FileTree

end TuringTable
