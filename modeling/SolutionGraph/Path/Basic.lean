import SolutionGraph.Text.Basic

/-!
# Paths

A path keeps its spelling. What it names is its list of components (`Path.components`): doubled and trailing slashes
and inner dots do not count, so two spellings can name the same place (`Path.same`).

* **components**: the root, a leading dot of a relative path, `..`, and names;
* **parts**: `parent?`, `fileName?`, `stem?` and `extension?`;
* **relations**: `startsWith`, `dropStart?`, and the order `before` by components.
-/

namespace SolutionGraph

/-- One step of a path. -/
inductive Component where
  /-- The slash that an absolute path starts with. -/
  | root
  /-- The dot that a relative path may start with. -/
  | current
  /-- The directory above. -/
  | parent
  /-- An entry of a directory. -/
  | name (text : Text)
  deriving DecidableEq, Repr

/-- How a component is written. -/
def Component.text : Component → Text
  | .root => "/"
  | .current => "."
  | .parent => ".."
  | .name text => text

/-- A path, as spelled. -/
structure Path where
  /-- The spelling. -/
  text : Text
  deriving DecidableEq, Repr

namespace Path

instance : Coe Text Path := ⟨Path.mk⟩

instance : Inhabited Path := ⟨⟨[]⟩⟩

/-- A path is absolute when it starts at the root. -/
def isAbsolute (p : Path) : Bool := p.text.head? == some '/'

/-! ## Components -/

/-- A segment between slashes that names no step: an empty one, or a dot. -/
def isSilent (segment : Text) : Bool := segment.isEmpty || segment == "."

/-- The component of a segment that is not the first of a relative path. -/
def innerComponent (segment : Text) : Option Component :=
  if isSilent segment then none else if segment = ".." then some .parent else some (.name segment)

/-- The component of the first segment of a relative path, where a dot counts. -/
def firstComponent (segment : Text) : Option Component :=
  if segment = "." then some .current else innerComponent segment

/-- The components of a path. -/
def components (p : Path) : List Component :=
  match p.text with
  | '/' :: body => .root :: (Text.splitOn '/' body).filterMap innerComponent
  | text =>
    match Text.splitOn '/' text with
    | [] => []
    | first :: rest => (firstComponent first).toList ++ rest.filterMap innerComponent

/-- Two paths are the same place when their components agree. -/
def same (p q : Path) : Bool := p.components == q.components

/-- Goes on from a path by a further one; an absolute path starts anew. -/
def join (base p : Path) : Path :=
  if p.isAbsolute || base.text.isEmpty then p
  else if base.text.getLast? = some '/' then ⟨base.text ++ p.text⟩
  else ⟨base.text ++ '/' :: p.text⟩

/-- The path with the given components. -/
def ofComponents (cs : List Component) : Path := cs.foldl (fun p c => p.join ⟨c.text⟩) ⟨[]⟩

/-! ## Parts -/

/-- Drops the last segment that counts, and the silent ones around it. -/
def dropLastSegment (segments : List Text) : Option (List Text) :=
  match segments.reverse.dropWhile isSilent with
  | [] => none
  | _ :: before => some (before.dropWhile isSilent).reverse

/-- The path without its last component; the root and the empty path have none. -/
def parent? (p : Path) : Option Path :=
  match p.text with
  | '/' :: body => (dropLastSegment (Text.splitOn '/' body)).map fun kept => ⟨'/' :: Text.join "/" kept⟩
  | text =>
    match Text.splitOn '/' text with
    | ['.'] :: rest =>
      match dropLastSegment rest with
      | some kept => some ⟨Text.join "/" ("." :: kept)⟩
      | none => some ⟨[]⟩
    | segments => (dropLastSegment segments).map fun kept => ⟨Text.join "/" kept⟩

/-- The last component, if it is a name. -/
def fileName? (p : Path) : Option Text :=
  match p.components.getLast? with
  | some (.name text) => some text
  | _ => none

/-- Cuts a file name at its last dot, unless that is its first character. -/
def cutExtension (name : Text) : Text × Option Text :=
  match Text.splitOnce '.' name.reverse with
  | some (after, before) => if before.isEmpty then (name, none) else (before.reverse, some after.reverse)
  | none => (name, none)

/-- The file name without its extension. -/
def stem? (p : Path) : Option Text := p.fileName?.map fun name => (cutExtension name).1

/-- What follows the last dot of the file name. -/
def extension? (p : Path) : Option Text := p.fileName?.bind fun name => (cutExtension name).2

/-! ## Relations -/

/-- Whether the first components of `p` are those of `start`. -/
def startsWith (p start : Path) : Bool := start.components.isPrefixOf p.components

/-- The segments after the first `n` that count. -/
def dropSegments : Nat → List Text → List Text
  | 0, segments => segments
  | _, [] => []
  | n + 1, segment :: rest => dropSegments (if isSilent segment then n + 1 else n) rest

/-- Segments without the silent ones at both ends. -/
def trimSilent (segments : List Text) : List Text :=
  ((segments.dropWhile isSilent).reverse.dropWhile isSilent).reverse

/-- The rest of `p` after the components of `start`, as spelled. -/
def dropStart? (p start : Path) : Option Path :=
  if p.startsWith start then
    match start.components with
    | [] => some p
    | _ :: more => some ⟨Text.join "/" (trimSilent (dropSegments more.length ((Text.splitOn '/' p.text).drop 1)))⟩
  else none

/-- The rank of a kind of component in the order of paths. -/
def rank : Component → Nat
  | .root => 0
  | .current => 1
  | .parent => 2
  | .name _ => 3

/-- Whether one component comes before another or is equal to it: names by their code points. -/
def componentLe : Component → Component → Bool
  | .name a, .name b => a.le b
  | a, b => rank a ≤ rank b

/-- The order of paths: by their first differing component, and a path before all that go on from it. -/
def componentsLe : List Component → List Component → Bool
  | [], _ => true
  | _ :: _, [] => false
  | a :: as, b :: bs => if a = b then componentsLe as bs else componentLe a b

/-- Whether `p` comes before `q` or is the same place. -/
def le (p q : Path) : Bool := componentsLe p.components q.components

end Path

end SolutionGraph
