import SolutionGraph.Path.Basic
import SolutionGraph.Text.Utf8

/-!
# File trees

A file tree is what a program sees of a disk: directories, files with their bytes, and files that exist and cannot be
opened. Paths are followed segment by segment, so a file is never a directory on the way to something else.

* **queries**: `get?`, `isFile`, `holds` and `entries?`;
* **reading**: `readBytes` and `readText`, with the cause when they fail;
* **changes**: `put` and `remove`, which know no failure.
-/

namespace SolutionGraph

/-- Why a file could not be read or written. -/
inductive DiskError where
  | notFound
  | permissionDenied
  | alreadyExists
  | notADirectory
  | isADirectory
  | nameTooLong
  | zeroInPath
  | notUtf8
  deriving DecidableEq, Repr

/-- How a failure is reported. -/
def DiskError.message : DiskError → Text
  | .notFound => "No such file or directory (os error 2)"
  | .permissionDenied => "Permission denied (os error 13)"
  | .alreadyExists => "File exists (os error 17)"
  | .notADirectory => "Not a directory (os error 20)"
  | .isADirectory => "Is a directory (os error 21)"
  | .nameTooLong => "File name too long (os error 36)"
  | .zeroInPath => "file name contained an unexpected NUL byte"
  | .notUtf8 => "stream did not contain valid UTF-8"

/-- A file or directory with all that is below it. -/
inductive FileNode where
  /-- A file that can be read. -/
  | file (bytes : List UInt8)
  /-- A file that exists and cannot be opened. -/
  | unreadable
  /-- A directory with its entries by name. -/
  | dir (entries : List (Text × FileNode))

namespace FileNode

/-- Whether the node is a directory. -/
def isDir : FileNode → Bool
  | .dir _ => true
  | _ => false

/-- The entries of a directory. -/
def entries : FileNode → List (Text × FileNode)
  | .dir es => es
  | _ => []

/-- The entry of that name. -/
def child? (node : FileNode) (name : Text) : Option FileNode :=
  (node.entries.find? fun e => e.1 == name).map Prod.snd

/-- The node with an entry set; a file gives way to a directory. -/
def setChild (node : FileNode) (name : Text) (child : FileNode) : FileNode :=
  if node.entries.any fun e => e.1 == name then
    .dir (node.entries.map fun e => if e.1 == name then (name, child) else e)
  else .dir (node.entries ++ [(name, child)])

/-- The node without the entry of that name. -/
def dropChild : FileNode → Text → FileNode
  | .dir es, name => .dir (es.filter fun e => e.1 != name)
  | node, _ => node

/-- The node with `content` at the end of a list of names, with directories made on the way. -/
def putAt (content : FileNode) : FileNode → List Text → FileNode
  | _, [] => content
  | node, name :: names => node.setChild name (putAt content ((node.child? name).getD (.dir [])) names)

/-- The node without what the list of names leads to. -/
def removeAt : FileNode → List Text → FileNode
  | node, [] => node
  | node, [name] => node.dropChild name
  | node, name :: names =>
    match node.child? name with
    | some child => node.setChild name (removeAt child names)
    | none => node

end FileNode

/-- A disk: its root directory, and the directory that relative paths start from. -/
structure FileTree where
  /-- The root directory. -/
  root : FileNode
  /-- The names that lead to the working directory. -/
  workingDir : List Text

namespace FileTree

/-- A disk with nothing but its working directory. -/
def empty (workingDir : List Text) : FileTree := ⟨FileNode.putAt (.dir []) (.dir []) workingDir, workingDir⟩

/-! ## Following a path -/

/-- Follows segments from the innermost of a chain of nodes. Going above the root stays at the root. -/
def follow : List FileNode → List Text → Except DiskError (List FileNode)
  | chain, [] => .ok chain
  | [], _ :: _ => .error .notFound
  | node :: above, segment :: rest =>
    if !node.isDir then .error .notADirectory
    else if Path.isSilent segment then follow (node :: above) rest
    else if segment = ".." then follow (if above.isEmpty then [node] else above) rest
    else
      match node.child? segment with
      | some child => follow (child :: node :: above) rest
      | none => .error .notFound

/-- The segments from the root that a path stands for; the empty path stands for nothing. -/
def segments? (tree : FileTree) (p : Path) : Option (List Text) :=
  match p.text with
  | [] => none
  | '/' :: body => some (Text.splitOn '/' body)
  | text => some (tree.workingDir ++ Text.splitOn '/' text)

/-- What is at a path, or why nothing is. -/
def lookup (tree : FileTree) (p : Path) : Except DiskError FileNode :=
  match tree.segments? p with
  | none => .error .notFound
  | some segments =>
    match follow [tree.root] segments with
    | .ok (node :: _) => .ok node
    | .ok [] => .error .notFound
    | .error cause => .error cause

/-- What is at a path. -/
def get? (tree : FileTree) (p : Path) : Option FileNode := (tree.lookup p).toOption

/-- Whether something is at a path. -/
def holds (tree : FileTree) (p : Path) : Bool := (tree.get? p).isSome

/-- Whether a file is at a path. -/
def isFile (tree : FileTree) (p : Path) : Bool :=
  match tree.get? p with
  | some (.file _) | some .unreadable => true
  | _ => false

/-- Whether a directory is at a path. -/
def isDir (tree : FileTree) (p : Path) : Bool :=
  match tree.get? p with
  | some (.dir _) => true
  | _ => false

/-- The names in a directory. -/
def entries? (tree : FileTree) (p : Path) : Option (List Text) :=
  match tree.get? p with
  | some (.dir es) => some (es.map Prod.fst)
  | _ => none

/-- The path of the working directory. -/
def workingPath (tree : FileTree) : Path := ⟨'/' :: Text.join "/" tree.workingDir⟩

/-- A path with the working directory in front of it if it is relative. -/
def anchored (tree : FileTree) (p : Path) : Path := tree.workingPath.join p

/-! ## Reading -/

/-- The bytes of a file. -/
def readBytes (tree : FileTree) (p : Path) : Except DiskError (List UInt8) :=
  match tree.get? p with
  | some (.file bytes) => .ok bytes
  | some .unreadable => .error .permissionDenied
  | some (.dir _) => .error .isADirectory
  | none => .error .notFound

/-- The text of a file, which has to be UTF-8. -/
def readText (tree : FileTree) (p : Path) : Except DiskError Text := do
  match Text.decode? (← tree.readBytes p) with
  | some text => .ok text
  | none => .error .notUtf8

/-- The text of a file, with a replacement character for what is not UTF-8. -/
def readLossy (tree : FileTree) (p : Path) : Except DiskError Text := do
  return Text.decodeLossy (← tree.readBytes p)

/-! ## Changes -/

/-- The names that a path leads through from the root, by its text alone. -/
def names (tree : FileTree) (p : Path) : List Text :=
  ((tree.anchored p).components.foldl (fun done c =>
    match c with
    | .name text => text :: done
    | .parent => done.tail
    | _ => done) []).reverse

/-- The tree with a node at a path, with directories made on the way. -/
def put (tree : FileTree) (p : Path) (content : FileNode) : FileTree :=
  { tree with root := FileNode.putAt content tree.root (tree.names p) }

/-- The tree without what is at a path. -/
def remove (tree : FileTree) (p : Path) : FileTree := { tree with root := tree.root.removeAt (tree.names p) }

end FileTree

end SolutionGraph
