import SolutionGraph.Include.Graph
import SolutionGraph.Include.Search

/-!
# Growing an include graph

The graph grows depth-first from the files that a search has read. The files from the source down to the present one are
on a stack: a directive that leads to one of them closes a cycle and becomes a back-reference. A file that has been
finished is remembered with its node, so a second directive that leads to it shares the node.

`place` decides what becomes of one directive, and `grow` does so for all directives of a file: it gives the children of
the file, and the nodes and warnings that are new.
-/

namespace SolutionGraph.Include

/-- A file whose directives are being placed. -/
structure Frame where
  /-- The key of the file. -/
  key : Text
  /-- The node of the file. -/
  id : Nat
  /-- The path of the file. -/
  file : Path
  deriving DecidableEq, Repr

/-- The files that have been finished, by key, with their nodes. -/
abbrev Finished := List (Text × Nat)

/-- The node of a file that has been finished. -/
def Finished.node? (finished : Finished) (key : Text) : Option Nat :=
  (finished.find? fun e => e.1 == key).map Prod.snd

/-- What a search has read, with the policy that files are told apart by. -/
structure Reading where
  /-- How files are told apart. -/
  policy : CasePolicy
  /-- The files that were read. -/
  scanned : List ScannedFile

namespace Reading

/-- The keys of the files that were read. -/
def keys (r : Reading) : List Text := r.scanned.map fun f => f.file.key r.policy

/-- The includes of the file with a key, or why it could not be read. -/
def includes? (r : Reading) (key : Text) : Option (Except DiskError (List Included)) :=
  (r.scanned.find? fun f => f.file.key r.policy == key).map ScannedFile.includes

/-- A file with includes was read. -/
theorem mem_keys_of_includes? {r : Reading} {key : Text} {includes : Except DiskError (List Included)}
    (h : r.includes? key = some includes) : key ∈ r.keys := by
  obtain ⟨f, found, _⟩ := Option.map_eq_some_iff.1 h
  refine List.mem_map.2 ⟨f, List.mem_of_find?_eq_some found, ?_⟩
  have := List.find?_some found
  simpa using this

end Reading

/-! ## Reasons -/

/-- Why a directive has no file. -/
def missingReason (searched : Nat) : Text := "not found in " ++ Text.ofNat searched ++ " searched directories"

/-- Why a computed directive is passed over. -/
def computedReason : Text := "computed include"

/-- Why a file has no includes. -/
def unreadableReason (cause : DiskError) : Text := "cannot read file: " ++ cause.message

/-- The warning about a directive of a file. -/
def Directive.warning (d : Directive) (file : Path) (reason : Text) : Warning :=
  .unresolvedInclude file d.line d.name reason

/-! ## Placing one directive -/

/-- What becomes of a directive. -/
inductive Placement where
  /-- It has no child. -/
  | nothing (warnings : List Warning)
  /-- Its child is a node that is there already. -/
  | shared (id : Nat) (warnings : List Warning)
  /-- Its child is a new leaf; the leaf of a file is kept under the file's key. -/
  | leaf (node : Node) (key : Option Text) (warnings : List Warning)
  /-- Its child is a new node for a file with includes. -/
  | inner (file : Path) (includes : List Included)

/-- The open frame of a file, and the files from there down to the innermost one. -/
def cycleTo? (key : Text) : List Frame → Option (Frame × List Path)
  | [] => none
  | frame :: outer =>
    if frame.key = key then some (frame, [frame.file])
    else (cycleTo? key outer).map fun (start, chain) => (start, chain ++ [frame.file])

/-- What becomes of a directive that leads to a file. -/
def placeFile (r : Reading) (stack : List Frame) (finished : Finished) (including : Path) (d : Directive)
    (file : Path) : Placement :=
  let key := file.key r.policy
  match finished.node? key with
  | some id =>
    match r.includes? key with
    | some (.error cause) => .shared id [d.warning including (unreadableReason cause)]
    | _ => .shared id []
  | none =>
    match cycleTo? key stack with
    | some (frame, chain) =>
      .leaf ⟨file, .backReference frame.id, some d, []⟩ none [.cyclicInclude (chain ++ [file])]
    | none =>
      match r.includes? key with
      | some (.error cause) =>
        .leaf ⟨file, .unresolved (unreadableReason cause), some d, []⟩ (some key)
          [d.warning including (unreadableReason cause)]
      | some (.ok includes) => .inner file includes
      | none => .leaf ⟨file, .resolved, some d, []⟩ (some key) []

/-- What becomes of a directive of a file. -/
def place (r : Reading) (stack : List Frame) (finished : Finished) (including : Path) (i : Included) : Placement :=
  match i.resolution with
  | .found file => placeFile r stack finished including i.directive file
  | .excluded file => .leaf ⟨file, .excluded, some i.directive, []⟩ none []
  | .missing searched =>
    .leaf ⟨⟨i.directive.name⟩, .unresolved (missingReason searched), some i.directive, []⟩ none
      [i.directive.warning including (missingReason searched)]
  | .computed => .nothing [i.directive.warning including computedReason]

/-- A file without an open frame is not on the stack. -/
theorem not_mem_of_cycleTo?_eq_none {stack : List Frame} {key : Text} (h : cycleTo? key stack = none) :
    key ∉ stack.map Frame.key := by
  induction stack with
  | nil => simp
  | cons frame outer ih =>
    unfold cycleTo? at h
    split at h
    · cases h
    · rename_i other
      simp only [List.map_cons, List.mem_cons, not_or]
      exact ⟨fun e => other e.symm, ih (Option.map_eq_none_iff.1 h)⟩

/-- A file with includes has been read and is not open. -/
theorem placed_inner {r : Reading} {stack : List Frame} {finished : Finished} {including file : Path} {i : Included}
    {includes : List Included} (h : place r stack finished including i = .inner file includes) :
    file.key r.policy ∈ r.keys ∧ file.key r.policy ∉ stack.map Frame.key := by
  unfold place at h
  split at h
  · unfold placeFile at h
    simp only at h
    split at h
    · split at h <;> cases h
    · split at h
      · cases h
      · rename_i closed
        split at h
        · cases h
        · rename_i read
          cases h
          exact ⟨Reading.mem_keys_of_includes? read, not_mem_of_cycleTo?_eq_none closed⟩
        · cases h
  all_goals cases h

/-! ## Placing all directives -/

/-- What the directives of a file add to a graph. -/
structure Growth where
  /-- The children of the file. -/
  children : List Nat
  /-- The new nodes; their places follow those of the nodes that were there before. -/
  nodes : List Node
  /-- The new warnings. -/
  warnings : List Warning
  /-- All files that have been finished. -/
  finished : Finished

/-- What is added by a directive and then by those after it. -/
def Growth.cons (children : List Nat) (nodes : List Node) (warnings : List Warning) (rest : Growth) : Growth :=
  ⟨children ++ rest.children, nodes ++ rest.nodes, warnings ++ rest.warnings, rest.finished⟩

/-- Places directives of the file on top of the stack, one after the other; the next new node is at place `next`. -/
def grow (r : Reading) (stack : List Frame) (including : Path) (next : Nat) (finished : Finished) :
    List Included → Growth
  | [] => ⟨[], [], [], finished⟩
  | i :: rest =>
    match _placed : place r stack finished including i with
    | .nothing warnings => (grow r stack including next finished rest).cons [] [] warnings
    | .shared id warnings => (grow r stack including next finished rest).cons [id] [] warnings
    | .leaf node key warnings =>
      let kept := match key with
        | some k => (k, next) :: finished
        | none => finished
      (grow r stack including (next + 1) kept rest).cons [next] [node] warnings
    | .inner file includes =>
      let key := file.key r.policy
      let below := grow r (⟨key, next, file⟩ :: stack) file (next + 1) finished includes
      let node : Node := ⟨file, .resolved, some i.directive, below.children⟩
      (grow r stack including (next + 1 + below.nodes.length) ((key, next) :: below.finished) rest).cons
        [next] (node :: below.nodes) below.warnings
termination_by includes => (unseen r.keys (stack.map Frame.key), includes.length)
decreasing_by
  · exact Prod.Lex.right _ (by simp)
  · exact Prod.Lex.right _ (by simp)
  · exact Prod.Lex.right _ (by simp)
  · exact Prod.Lex.left _ _ (unseen_cons_lt (placed_inner _placed).1 (placed_inner _placed).2)
  · exact Prod.Lex.right _ (by simp)

end SolutionGraph.Include
