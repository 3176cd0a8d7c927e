import ClientTypes.CommandLine

/-!
The program: it looks at the files that its arguments name, runs, and does what the outcome says.
-/

namespace ClientTypes.CommandLine

/-- What stands at a path on disk. A directory can be opened, but not read. -/
def entryOnDisk (p : Path) : IO Entry := do
  try
    return .file (← IO.FS.readBinFile p.text)
  catch
    | .inappropriateType none _ _ => return .directory
    | _ => return .missing

def entriesOnDisk (arguments : List String) : IO (Table Path Entry) :=
  match Demand.ofArguments arguments with
  | .ok (.run i) => i.paths.mapM fun p => do return (p, ← entryOnDisk p)
  | _ => return []

def printLines (stream : IO.FS.Stream) (lines : List String) : IO Unit :=
  lines.forM fun line => stream.putStrLn line

/-- What is said about an ending that has no message of its own. -/
def Ending.notice : Ending → List String
  | .done | .refused _ => []
  | .misused fault => ["Error: " ++ fault.message]
  | .broken _ => ["Error: the input cannot be compiled"]

/-- Write a file, and make the directories on the way to it. -/
def writeOut (p : Path) (content : String) : IO Unit := do
  IO.FS.createDirAll p.parent.text
  IO.FS.writeFile p.text content

end ClientTypes.CommandLine

open ClientTypes ClientTypes.CommandLine in
def main (arguments : List String) : IO UInt32 := do
  let entries ← entriesOnDisk arguments
  let outcome := run (fun p => (entries.get? p).getD .missing) arguments
  if let some (p, content) := outcome.written then writeOut p content
  printLines (← IO.getStdout) outcome.outputLines
  printLines (← IO.getStderr) (outcome.errorLines ++ outcome.ending.notice)
  return outcome.ending.exitCode.toUInt32
