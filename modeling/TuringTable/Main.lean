import TuringTable.CommandLine

/-!
# The program
-/

namespace TuringTable

/-- What reading a file gives. -/
def readFile (path : String) : IO (Except AccessFault ByteArray) := do
  try
    return .ok (← IO.FS.readBinFile path)
  catch
    | .inappropriateType _ 21 _ => return .error .isADirectory
    | .inappropriateType .. => return .error .notADirectory
    | _ => return .error .notFound

/-- Everything that a stream still holds. -/
partial def readAll (s : IO.FS.Stream) (acc : ByteArray) : IO ByteArray := do
  let bytes ← s.read 65536
  if bytes.isEmpty then return acc
  readAll s (acc ++ bytes)

/-- Reads what the arguments ask for, and no more. -/
def surroundings (args : List String) : IO CommandLine.Surroundings := do
  let nothing : CommandLine.Surroundings := ⟨fun _ => .error .notFound, none⟩
  match CommandLine.Options.ofArguments args with
  | .error _ => return nothing
  | .ok o =>
    if o.list || o.sample.isSome then return nothing
    match o.program with
    | some path =>
      let content ← readFile path
      return { nothing with readFile := fun _ => content }
    | none =>
      let input ← IO.getStdin
      if ← input.isTty then return nothing
      return { nothing with input := some (← readAll input .empty) }

/-- A line for each warning. -/
def writeLog (warnings : List Warning) : String :=
  CommandLine.writeLines (warnings.map fun w => "WARN " ++ w.text)

end TuringTable

def main (args : List String) : IO UInt32 := do
  let r := TuringTable.commandLine args (← TuringTable.surroundings args)
  IO.print r.output
  IO.eprint (r.standardError TuringTable.writeLog)
  return r.exitCode
