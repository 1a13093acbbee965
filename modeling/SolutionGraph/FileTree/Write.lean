import SolutionGraph.FileTree.Basic

/-!
# Writing files

`FileTree.writeFile` writes a file into a directory that exists, and `FileTree.createDirs` makes a directory together with
those above it. Both tell the cause when something stands in the way.
-/

namespace SolutionGraph.FileTree

/-- The most bytes that a name may have. -/
def longestName : Nat := 255

/-- The place for a new entry: its directory has to exist. The empty path is the working directory. -/
def checkDirectory (tree : FileTree) (dir : Path) : Except DiskError Unit :=
  if dir.text.isEmpty then .ok ()
  else
    match tree.lookup dir with
    | .ok node => if node.isDir then .ok () else .error .notADirectory
    | .error cause => .error cause

/-- Whether a new entry can be made at a path. -/
def checkEntry (tree : FileTree) (p : Path) : Except DiskError Unit :=
  if p.text.contains (Char.ofNat 0) then .error .zeroInPath
  else
    match p.parent?, p.fileName? with
    | some dir, some name =>
      match tree.checkDirectory dir with
      | .ok () => if longestName < Text.byteLength name then .error .nameTooLong else .ok ()
      | .error cause => .error cause
    | _, _ =>
      match tree.lookup p with
      | .ok _ => .error .alreadyExists
      | .error cause => .error cause

/-! ## Directories -/

/-- Makes one directory. -/
def makeDir (tree : FileTree) (p : Path) : Except DiskError FileTree :=
  match tree.checkEntry p with
  | .error cause => .error cause
  | .ok () => if tree.holds p then .error .alreadyExists else .ok (tree.put p (.dir []))

/-- Makes the first of a list of directories, each of which is in the next one. -/
def makeDirs (tree : FileTree) : List Path → Except DiskError FileTree
  | [] => .ok tree
  | p :: above =>
    match tree.makeDir p with
    | .ok made => .ok made
    | .error .notFound => do
      let below ← tree.makeDirs above
      match below.makeDir p with
      | .ok made => .ok made
      | .error cause => if below.isDir p then .ok below else .error cause
    | .error cause => if tree.isDir p then .ok tree else .error cause

/-- A path and those above it, at most `n` of them, up to the working directory or the root. -/
def withAncestors : Nat → Path → List Path
  | 0, _ => []
  | n + 1, p =>
    if p.text.isEmpty then []
    else
      match p.parent? with
      | some dir => p :: withAncestors n dir
      | none => [p]

/-- Makes a directory and those above it, as far as they do not exist. -/
def createDirs (tree : FileTree) (p : Path) : Except DiskError FileTree :=
  tree.makeDirs (withAncestors p.text.length p)

/-! ## Files -/

/-- Whether a path can only be a directory: it ends in a slash. -/
def asksForDirectory (p : Path) : Bool := p.text.getLast? == some '/'

/-- Whether a path ends in a dot segment, so that it names no entry of its own. -/
def endsInDots (p : Path) : Bool :=
  match ((Text.splitOn '/' p.text).filter fun segment => !segment.isEmpty).getLast? with
  | some segment => segment == "." || segment == ".."
  | none => true

/-- Writes a file into a directory that exists. -/
def writeFile (tree : FileTree) (p : Path) (bytes : List UInt8) : Except DiskError FileTree :=
  if endsInDots p then
    match tree.lookup p with
    | .ok _ => .error .isADirectory
    | .error cause => .error cause
  else
    match tree.checkEntry p with
    | .error cause => .error cause
    | .ok () =>
      if asksForDirectory p then .error .isADirectory
      else
        match tree.get? p with
        | some (.dir _) => .error .isADirectory
        | some .unreadable => .error .permissionDenied
        | _ => .ok (tree.put p (.file bytes))

end SolutionGraph.FileTree
