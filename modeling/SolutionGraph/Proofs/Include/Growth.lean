import SolutionGraph.Include.Growth

/-!
# How a graph grows

`Grows` gives the rules by which the directives of a file become its children, one rule for each thing that a directive
can lead to, and `grow` follows them (`grow_grows`). What is proved about growing is proved along these rules.

* **lookups**: a file that has been finished is found under its key (`Finished.node?_cons`), and `cycleTo?` finds the
  innermost open frame of a file with the files from there down (`cycleTo?_eq_some`);
* **leaves**: `GrowsLeaf` has the directives that become leaves of their own, and `Grows` the others;
* **finished files**: while a graph grows, what has been finished stays (`Grows.node?_eq_some`), and what is open is not
  finished (`Grows.unfinished`).
-/

namespace SolutionGraph.Include

/-! ## Lookups -/

@[simp]
theorem Finished.node?_nil (key : Text) : Finished.node? [] key = none := rfl

theorem Finished.node?_cons (k : Text) (id : Nat) (finished : Finished) (key : Text) :
    Finished.node? ((k, id) :: finished) key = if k = key then some id else finished.node? key := by
  unfold Finished.node?
  rw [List.find?_cons]
  split
  · rename_i same
    rw [if_pos (by simpa using same)]
    rfl
  · rename_i other
    rw [if_neg (by simpa using other)]

@[simp]
theorem Finished.node?_cons_self (k : Text) (id : Nat) (finished : Finished) :
    Finished.node? ((k, id) :: finished) k = some id := by rw [Finished.node?_cons, if_pos rfl]

/-- A file that is found was found before, or it is the one that has just been finished. -/
theorem Finished.node?_cons_eq_some {k key : Text} {id id' : Nat} {finished : Finished}
    (h : Finished.node? ((k, id) :: finished) key = some id') :
    (k = key ∧ id = id') ∨ (k ≠ key ∧ finished.node? key = some id') := by
  rw [Finished.node?_cons] at h
  split at h
  · exact .inl ⟨‹_›, Option.some.inj h⟩
  · exact .inr ⟨‹_›, h⟩

/-- Finishing a new file keeps those that are finished. -/
theorem Finished.node?_cons_of_eq_some {k key : Text} {id id' : Nat} {finished : Finished}
    (new : finished.node? k = none) (h : finished.node? key = some id) :
    Finished.node? ((k, id') :: finished) key = some id := by
  rw [Finished.node?_cons, if_neg, h]
  rintro rfl
  rw [new] at h
  cases h

/-- The includes of a file that was read, or why it could not be; a file that is missing has none. -/
def Reading.contents (r : Reading) (key : Text) : Except DiskError (List Included) := (r.includes? key).getD (.ok [])

/-- An open frame of a file: the frames inside it belong to other files, and the chain goes from it to the innermost. -/
theorem cycleTo?_eq_some {key : Text} {stack : List Frame} {frame : Frame} {chain : List Path}
    (h : cycleTo? key stack = some (frame, chain)) :
    ∃ inner outer, stack = inner ++ frame :: outer ∧ frame.key = key ∧
      chain = frame.file :: (inner.map Frame.file).reverse := by
  induction stack generalizing chain with
  | nil => cases h
  | cons top outer ih =>
    rw [cycleTo?] at h
    split at h
    · cases h
      exact ⟨[], outer, rfl, ‹_›, rfl⟩
    · obtain ⟨⟨start, rest⟩, found, e⟩ := Option.map_eq_some_iff.1 h
      cases e
      obtain ⟨inner, outer', rfl, same, rfl⟩ := ih found
      exact ⟨top :: inner, outer', rfl, same, by simp⟩

theorem ne_key_of_cycleTo?_eq_none {key : Text} {stack : List Frame} (h : cycleTo? key stack = none) {frame : Frame}
    (mem : frame ∈ stack) : key ≠ frame.key := by
  rintro rfl
  exact not_mem_of_cycleTo?_eq_none h (List.mem_map.2 ⟨frame, mem, rfl⟩)

/-! ## The rules -/

/-- The warning on behalf of the including file when a file could not be read. -/
def Reading.unreadableWarnings (r : Reading) (including : Path) (d : Directive) (key : Text) : List Warning :=
  match r.includes? key with
  | some (.error cause) => [d.warning including (unreadableReason cause)]
  | _ => []

/-- A directive becomes a leaf that no later directive shares: it leads to a file in an excluded directory, to no file, or
back to an open file. -/
inductive GrowsLeaf (r : Reading) (stack : List Frame) (finished : Finished) (including : Path) (i : Included) :
    Node → List Warning → Prop
  | excluded {file : Path} (leads : i.resolution = .excluded file) :
    GrowsLeaf r stack finished including i ⟨file, .excluded, some i.directive, []⟩ []
  | missing {searched : Nat} (leads : i.resolution = .missing searched) :
    GrowsLeaf r stack finished including i
      ⟨⟨i.directive.name⟩, .unresolved (missingReason searched), some i.directive, []⟩
      [i.directive.warning including (missingReason searched)]
  | back {file : Path} {frame : Frame} {chain : List Path} (leads : i.resolution = .found file)
    (new : finished.node? (file.key r.policy) = none)
    (opened : cycleTo? (file.key r.policy) stack = some (frame, chain)) :
    GrowsLeaf r stack finished including i ⟨file, .backReference frame.id, some i.directive, []⟩
      [.cyclicInclude (chain ++ [file])]

/-- What the directives of a file add to a graph. -/
inductive Grows (r : Reading) : List Frame → Path → Nat → Finished → List Included → Growth → Prop
  | done {stack : List Frame} {including : Path} {next : Nat} {finished : Finished} :
    Grows r stack including next finished [] ⟨[], [], [], finished⟩
  | computed {stack : List Frame} {including : Path} {next : Nat} {finished : Finished} {i : Included}
    {includes : List Included} {g : Growth} (leads : i.resolution = .computed)
    (rest : Grows r stack including next finished includes g) :
    Grows r stack including next finished (i :: includes)
      (g.cons [] [] [i.directive.warning including computedReason])
  | shared {stack : List Frame} {including : Path} {next : Nat} {finished : Finished} {i : Included}
    {includes : List Included} {g : Growth} {file : Path} {id : Nat} (leads : i.resolution = .found file)
    (known : finished.node? (file.key r.policy) = some id) (rest : Grows r stack including next finished includes g) :
    Grows r stack including next finished (i :: includes)
      (g.cons [id] [] (r.unreadableWarnings including i.directive (file.key r.policy)))
  | leaf {stack : List Frame} {including : Path} {next : Nat} {finished : Finished} {i : Included}
    {includes : List Included} {g : Growth} {node : Node} {warnings : List Warning}
    (here : GrowsLeaf r stack finished including i node warnings)
    (rest : Grows r stack including (next + 1) finished includes g) :
    Grows r stack including next finished (i :: includes) (g.cons [next] [node] warnings)
  | unreadable {stack : List Frame} {including : Path} {next : Nat} {finished : Finished} {i : Included}
    {includes : List Included} {g : Growth} {file : Path} {cause : DiskError} (leads : i.resolution = .found file)
    (new : finished.node? (file.key r.policy) = none) (closed : cycleTo? (file.key r.policy) stack = none)
    (unread : r.includes? (file.key r.policy) = some (.error cause))
    (rest : Grows r stack including (next + 1) ((file.key r.policy, next) :: finished) includes g) :
    Grows r stack including next finished (i :: includes)
      (g.cons [next] [⟨file, .unresolved (unreadableReason cause), some i.directive, []⟩]
        [i.directive.warning including (unreadableReason cause)])
  | file {stack : List Frame} {including : Path} {next : Nat} {finished : Finished} {i : Included}
    {includes inner : List Included} {g below : Growth} {file : Path} (leads : i.resolution = .found file)
    (new : finished.node? (file.key r.policy) = none) (closed : cycleTo? (file.key r.policy) stack = none)
    (read : r.contents (file.key r.policy) = .ok inner)
    (down : Grows r (⟨file.key r.policy, next, file⟩ :: stack) file (next + 1) finished inner below)
    (rest : Grows r stack including (next + 1 + below.nodes.length) ((file.key r.policy, next) :: below.finished)
      includes g) :
    Grows r stack including next finished (i :: includes)
      (g.cons [next] (⟨file, .resolved, some i.directive, below.children⟩ :: below.nodes) below.warnings)

/-! ## Growing follows the rules -/

/-- What a placement says about the directive that is placed. -/
def Placement.Fits (r : Reading) (stack : List Frame) (finished : Finished) (including : Path) (i : Included) :
    Placement → Prop
  | .nothing warnings => i.resolution = .computed ∧ warnings = [i.directive.warning including computedReason]
  | .shared id warnings => ∃ file, i.resolution = .found file ∧ finished.node? (file.key r.policy) = some id ∧
      warnings = r.unreadableWarnings including i.directive (file.key r.policy)
  | .leaf node none warnings => GrowsLeaf r stack finished including i node warnings
  | .leaf node (some key) warnings => ∃ file, i.resolution = .found file ∧ key = file.key r.policy ∧
      finished.node? key = none ∧ cycleTo? key stack = none ∧
      ((∃ cause, r.includes? key = some (.error cause) ∧
          node = ⟨file, .unresolved (unreadableReason cause), some i.directive, []⟩ ∧
          warnings = [i.directive.warning including (unreadableReason cause)]) ∨
        (r.includes? key = none ∧ node = ⟨file, .resolved, some i.directive, []⟩ ∧ warnings = []))
  | .inner file includes => i.resolution = .found file ∧ finished.node? (file.key r.policy) = none ∧
      cycleTo? (file.key r.policy) stack = none ∧ r.includes? (file.key r.policy) = some (.ok includes)

theorem place_fits (r : Reading) (stack : List Frame) (finished : Finished) (including : Path) (i : Included) :
    (place r stack finished including i).Fits r stack finished including i := by
  unfold place
  split
  · rename_i file leads
    unfold placeFile
    simp only
    split
    · rename_i id known
      split
      · rename_i cause unread
        exact ⟨file, leads, known, by rw [Reading.unreadableWarnings, unread]⟩
      · rename_i readable
        refine ⟨file, leads, known, ?_⟩
        unfold Reading.unreadableWarnings
        split
        · rename_i cause unread
          exact absurd unread (readable cause)
        · rfl
    · rename_i new
      split
      · rename_i frame chain opened
        exact .back leads new opened
      · rename_i closed
        split
        · rename_i cause unread
          exact ⟨file, leads, rfl, new, closed, .inl ⟨cause, unread, rfl, rfl⟩⟩
        · rename_i includes read
          exact ⟨leads, new, closed, read⟩
        · rename_i missing
          exact ⟨file, leads, rfl, new, closed, .inr ⟨missing, rfl, rfl⟩⟩
  · rename_i file leads
    exact .excluded leads
  · rename_i searched leads
    exact .missing leads
  · rename_i leads
    exact ⟨leads, rfl⟩

/-- **Growing follows the rules.** -/
theorem grow_grows (r : Reading) (stack : List Frame) (including : Path) (next : Nat) (finished : Finished)
    (includes : List Included) :
    Grows r stack including next finished includes (grow r stack including next finished includes) := by
  fun_induction grow r stack including next finished includes with
  | case1 => exact .done
  | case2 stack including next finished i rest warnings placed ih =>
    have fits := place_fits r stack finished including i
    rw [placed] at fits
    obtain ⟨leads, rfl⟩ := fits
    exact .computed leads ih
  | case3 stack including next finished i rest id warnings placed ih =>
    have fits := place_fits r stack finished including i
    rw [placed] at fits
    obtain ⟨file, leads, known, rfl⟩ := fits
    exact .shared leads known ih
  | case4 stack including next finished i rest node key warnings placed kept ih =>
    have fits := place_fits r stack finished including i
    rw [placed] at fits
    cases key with
    | none => exact .leaf fits ih
    | some key =>
      obtain ⟨file, leads, rfl, new, closed, ⟨cause, unread, rfl, rfl⟩ | ⟨missing, rfl, rfl⟩⟩ := fits
      · exact .unreadable leads new closed unread ih
      · -- a file that was not read is one without directives
        exact .file leads new closed (by rw [Reading.contents, missing]; rfl) .done ih
  | case5 stack including next finished i rest file includes placed key below node ih _ ihRest =>
    have fits := place_fits r stack finished including i
    rw [placed] at fits
    obtain ⟨leads, new, closed, read⟩ := fits
    exact .file leads new closed (by rw [Reading.contents, read]; rfl) ih ihRest

/-! ## Finished files -/

@[simp]
theorem Growth.cons_children (children : List Nat) (nodes : List Node) (warnings : List Warning) (g : Growth) :
    (g.cons children nodes warnings).children = children ++ g.children := rfl

@[simp]
theorem Growth.cons_nodes (children : List Nat) (nodes : List Node) (warnings : List Warning) (g : Growth) :
    (g.cons children nodes warnings).nodes = nodes ++ g.nodes := rfl

@[simp]
theorem Growth.cons_warnings (children : List Nat) (nodes : List Node) (warnings : List Warning) (g : Growth) :
    (g.cons children nodes warnings).warnings = warnings ++ g.warnings := rfl

@[simp]
theorem Growth.cons_finished (children : List Nat) (nodes : List Node) (warnings : List Warning) (g : Growth) :
    (g.cons children nodes warnings).finished = g.finished := rfl

/-- None of the open files is finished. -/
def Unfinished (stack : List Frame) (finished : Finished) : Prop := ∀ f ∈ stack, finished.node? f.key = none

theorem Unfinished.finish {stack : List Frame} {finished : Finished} (h : Unfinished stack finished) {key : Text}
    (closed : cycleTo? key stack = none) (id : Nat) : Unfinished stack ((key, id) :: finished) := by
  intro f hf
  rw [Finished.node?_cons, if_neg (ne_key_of_cycleTo?_eq_none closed hf)]
  exact h f hf

theorem Unfinished.push {stack : List Frame} {finished : Finished} (h : Unfinished stack finished) {frame : Frame}
    (new : finished.node? frame.key = none) : Unfinished (frame :: stack) finished := by
  intro f hf
  rcases List.mem_cons.1 hf with rfl | hf
  · exact new
  · exact h f hf

theorem Unfinished.pop {stack : List Frame} {finished : Finished} {frame : Frame}
    (h : Unfinished (frame :: stack) finished) : Unfinished stack finished :=
  fun f hf => h f (List.mem_cons_of_mem _ hf)

namespace Grows

variable {r : Reading} {stack : List Frame} {including : Path} {next : Nat} {finished : Finished}
  {includes : List Included} {g : Growth}

/-- What is open is not finished by what it includes. -/
theorem unfinished (h : Grows r stack including next finished includes g) (opened : Unfinished stack finished) :
    Unfinished stack g.finished := by
  induction h with
  | done => exact opened
  | computed _ _ ih | shared _ _ _ ih | leaf _ _ ih => exact ih opened
  | unreadable _ _ closed _ _ ih => exact ih (opened.finish closed _)
  | file _ new closed _ _ _ ihDown ihRest =>
    have below := ihDown (opened.push new)
    exact ihRest (below.pop.finish closed _)

/-- A file that has been finished stays so, with its node. -/
theorem node?_eq_some (h : Grows r stack including next finished includes g) (opened : Unfinished stack finished)
    {key : Text} {id : Nat} (known : finished.node? key = some id) : g.finished.node? key = some id := by
  induction h with
  | done => exact known
  | computed _ _ ih | shared _ _ _ ih | leaf _ _ ih => exact ih opened known
  | unreadable _ new closed _ _ ih =>
    exact ih (opened.finish closed _) (Finished.node?_cons_of_eq_some new known)
  | file _ new closed _ down _ ihDown ihRest =>
    have below := down.unfinished (opened.push new)
    refine ihRest (below.pop.finish closed _) (Finished.node?_cons_of_eq_some ?_ (ihDown (opened.push new) known))
    exact below _ List.mem_cons_self

end Grows

end SolutionGraph.Include
