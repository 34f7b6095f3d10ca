import TuringTable.Analysis
import TuringTable.Document
import TuringTable.FileTree
import TuringTable.Machine
import TuringTable.Text.Hidden
import TuringTable.Yaml.Reading

/-!
# Programs

A program is a named text with the specification it describes. `parse` takes a text through all
checks; the functions after it read programs from files and directories. Each of them gives the
warnings beside the result, for these go to the log whatever comes of the reading.
-/

namespace TuringTable

/-- Why there is no program, or none to be run. -/
inductive Error where
  | malformed (fault : Yaml.Fault)
  | invalid (error : SpecError)
  | machine (error : MachineError)
  | unreadableFile (path : String) (fault : AccessFault)
  | unreadableDirectory (path : String) (fault : AccessFault)
  | unreadableInput
  | noProgram
  | tooLarge (size : Nat)
  | noSuchIndex (index : Nat)
  | noSuchName (name : String)
deriving Repr, DecidableEq

/-- The size in bytes that a text may have. -/
def maxProgramSize : Nat := 65536

namespace Error

def message : Error → String
  | malformed f => "Syntax error: " ++ f.message
  | invalid e => "Specification error: " ++ e.message
  | machine e => "Machine error: " ++ e.message
  | unreadableFile path f => s!"File error: Failed to read file {path}: " ++ f.text
  | unreadableDirectory path f => s!"File error: Failed to read directory {path}: " ++ f.text
  | unreadableInput => "File error: Failed to read stdin: " ++ AccessFault.notText.text
  | noProgram =>
    "File error: No program given; pass a file, --example <name>, or pipe a document"
  | tooLarge n => s!"Program is too large: {n} bytes (limit {maxProgramSize})"
  | noSuchIndex i => s!"Program not found: index {i} out of range"
  | noSuchName s => s!"Program not found: '{s}'"

end Error

/-- What reading comes to, and the warnings on the way, first one first. -/
abbrev Logged (α : Type) := Except Error α × List Warning

namespace Logged
variable {α β : Type}

/-- An error before there was anything to warn of. -/
def fail (e : Error) : Logged α := (.error e, [])

def map (f : α → β) (x : Logged α) : Logged β := (x.1.map f, x.2)

end Logged

namespace Document

/-- The specification that a document describes, with every state it names declared, and the
warnings on the way, first one first. -/
def check (document : Yaml.Value) : Except SpecError Specification × List Warning :=
  let (result, warnings) := (Document.read document).run []
  match result with
  | .error e => (.error e, warnings.reverse)
  | .ok s =>
    match s.analyze with
    | .error e => (.error e, warnings.reverse)
    | .ok () =>
      (.ok s, warnings.reverse ++ s.unreachable.map fun q => .unreachableState q s.startState)

end Document

/-- The specification that a text describes, and the warnings on the way. A text of white space
is an empty document. -/
def parse (text : String) : Logged Specification :=
  if text.toList.all Text.isBlank then .fail (.invalid (.of .emptyDocument))
  else match Yaml.Value.ofText text with
    | .error f => .fail (.malformed f)
    | .ok document =>
      let (result, warnings) := Document.check document
      (result.mapError .invalid, warnings)

/-- A named text and the specification it describes. -/
structure Program where
  name : String
  source : String
  spec : Specification
deriving DecidableEq

namespace Program

def ofText (name source : String) : Logged Program :=
  if maxProgramSize < source.utf8ByteSize then .fail (.tooLarge source.utf8ByteSize)
  else (parse source).map (⟨name, source, ·⟩)

/-- The program that bytes are the text of; `unreadable` tells what is wrong if they are no text. -/
def ofBytes (name : String) (unreadable : Error) (bytes : ByteArray) : Logged Program :=
  match String.fromUTF8? bytes with
  | none => .fail unreadable
  | some source => ofText name source

/-- The program in a file, named by the file's stem, if `content` is what reading the file gives. -/
def ofFile (path : String) (content : Except AccessFault ByteArray) : Logged Program :=
  match content with
  | .error f => .fail (.unreadableFile path f)
  | .ok bytes =>
    ofBytes (FileTree.stem (FileTree.fileName path)) (.unreadableFile path .notText) bytes

/-- The extensions of files that hold programs. -/
def extensions : List String := ["yaml", "yml"]

/-- A file whose name tells that it holds a program. -/
def isProgramFile : String × FileTree → Bool
  | (name, .file _) => (FileTree.extension? name).any extensions.contains
  | (_, .directory _) => false

/-- The paths of the programs in a directory with the given entries, by name. -/
def programPaths (directory : String) (entries : List (String × FileTree)) : List String :=
  (((entries.filter isProgramFile).map (·.1)).mergeSort (· ≤ ·)).map (FileTree.join directory)

/-- The programs in a directory with their paths, and an error in place of each that cannot be
read. -/
def ofDirectory (t : FileTree) (directory : String) : List (Logged (String × Program)) :=
  match t.list directory with
  | .error f => [.fail (.unreadableDirectory directory f)]
  | .ok entries =>
    (programPaths directory entries).map fun path => (ofFile path (t.read path)).map (path, ·)

end Program

end TuringTable
