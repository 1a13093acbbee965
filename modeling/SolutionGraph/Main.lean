import SolutionGraph.CommandLine.Run
import SolutionGraph.CommandLine.Usage

/-!
# The program

Takes a picture of the files below the working directory, does what the arguments ask for, and delivers the result.
-/

namespace SolutionGraph.CommandLine

/-- How many directories deep the picture goes. -/
def pictureDepth : Nat := 64

/-- A picture of an entry of a directory and of all that is below it. -/
def pictureOf : Nat → IO.FS.DirEntry → IO (Text × FileNode)
  | 0, entry => return (entry.fileName.toList, .unreadable)
  | depth + 1, entry => do
    let node ← try
        if ← entry.path.isDir then
          pure (.dir (← (← entry.path.readDir).toList.mapM (pictureOf depth)))
        else
          pure (.file (← IO.FS.readBinFile entry.path).toList)
      catch _ => pure .unreadable
    return (entry.fileName.toList, node)

/-- A picture of the files below the working directory. -/
def picture : IO FileTree := do
  let here ← IO.currentDir
  let entries ← (← here.readDir).toList.mapM (pictureOf pictureDepth)
  let names := (Text.splitOn '/' (toString here).toList).filter fun name => !name.isEmpty
  return ⟨FileNode.putAt (.dir entries) (.dir []) names, names⟩

/-- Tells what failed. -/
def tell (problem : Text) : IO UInt32 := do
  IO.eprintln (String.ofList problem)
  return 1

/-- Writes to standard output; a reader that has gone away is no failure. -/
def print (content : Text) : IO UInt32 := do
  let out ← IO.getStdout
  try
    out.putStr (String.ofList content)
    out.flush
    return 0
  catch
    | .resourceVanished .. => return 0
    | problem => tell (RunError.text (.delivery .writeOutput (toString problem).toList))

/-- Writes a file, and makes the directories that it needs. -/
def save (path : Path) (content : Text) : IO UInt32 := do
  try
    if let some dir := path.parent? then
      if !dir.text.isEmpty then IO.FS.createDirAll (String.ofList dir.text)
    IO.FS.writeFile (String.ofList path.text) (String.ofList content)
    return 0
  catch problem => tell (RunError.text (.delivery (.writeFile path) (toString problem).toList))

/-- Does what the arguments ask for. -/
def start (args : List Text) : IO UInt32 := do
  match Invocation.parse args with
  | .error problem =>
    if problem.isRequest then print problem.text
    else
      discard (tell problem.text)
      return 2
  | .ok invocation =>
    match invocation.analyse (← picture) with
    | .error problem => tell problem.text
    | .ok (.output content) => print content
    | .ok (.file path content) => save path content

end SolutionGraph.CommandLine

/-- The program. -/
def main (args : List String) : IO UInt32 := SolutionGraph.CommandLine.start (args.map String.toList)
