import RdfXmlMapping.CommandLine.Programs

/-! The programs on the files of the machine. -/

namespace RdfXmlMapping

/-- The content of a file; only a missing file is no failure. -/
def readFile? (path : String) : IO (Option String) := do
  try
    return some (← IO.FS.readFile path)
  catch
    | .noFileOrDirectory .. => return none
    | e => throw e

/-- The paths of the files at or below a path, in the order of their names. -/
def filesBelow (path : String) : IO (List String) := do
  let base := (← IO.currentDir) / path
  if !(← base.pathExists) then return []
  if !(← base.isDir) then return [base.toString]
  let all ← base.walkDir
  let files ← all.toList.filterM fun p => return !(← p.isDir)
  let places := files.map fun p => (Files.place p.toString, p.toString)
  return (places.mergeSort fun a b => Text.notAfter a.1 b.1).map (·.2)

/-- Gives a file a content and makes the directories on its path. -/
def writeFile (path text : String) : IO Unit := do
  let directory := String.ofList (path.toList.reverse.dropWhile (· ≠ '/')).reverse
  if !directory.isEmpty then IO.FS.createDirAll directory
  IO.FS.writeFile path text

def machineFiles : Files.System IO := ⟨readFile?, filesBelow, writeFile⟩

end RdfXmlMapping

open RdfXmlMapping in
/-- The first argument names the program. -/
def main (args : List String) : IO UInt32 := do
  let (program, args) := match args with
    | "conformance" :: rest => (CommandLine.check machineFiles, rest)
    | "generate" :: rest => (CommandLine.generate machineFiles, rest)
    | rest => (CommandLine.generate machineFiles, rest)
  try
    let outcome ← program args
    IO.print outcome.output
    return .ofNat outcome.status
  catch e =>
    IO.eprintln (toString e)
    return 1
