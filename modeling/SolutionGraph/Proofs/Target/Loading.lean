import Mathlib.Logic.Relation
import SolutionGraph.Proofs.Property.Bag
import SolutionGraph.Target.Loader

/-!
# How scripts are loaded

`run` works off a list of tasks. A moment of it (`Moment`) is what has been loaded, the properties of the present group
that are still to be set, and the tasks that are left; `Advance` is the step from one moment to the next one. Between two
moments nothing is evaluated in another bag than that of the first one.

* **`reaches_run`**: `run` goes through moments to the one in which nothing is left;
* **`wellFounded_advance`**: there is no other way, and no endless one: each script is tried once, and between two of
  them elements and tasks get fewer. It ends only when nothing is left (`exists_advance`);
* **`visit_visitElement`**: what visiting an element can do. Checking conditions does nothing but note warnings
  (`OnlyNotes`).
-/

namespace SolutionGraph.Target

open Markup (Element)
open Relation (ReflTransGen)

/-! ## What visiting an element can do -/

/-- A state that differs from another one by warnings only. -/
def OnlyNotes (s s' : Loading) : Prop :=
  ∃ warnings : List Warning, s' = { s with findings := s.findings ++ warnings.map .noted }

namespace OnlyNotes

variable {s s' s'' : Loading}

theorem refl (s : Loading) : OnlyNotes s s := ⟨[], by simp⟩

theorem trans (h : OnlyNotes s s') (h' : OnlyNotes s' s'') : OnlyNotes s s'' := by
  obtain ⟨ws, rfl⟩ := h
  obtain ⟨ws', rfl⟩ := h'
  exact ⟨ws ++ ws', by simp⟩

theorem bag (h : OnlyNotes s s') : s'.bag = s.bag := by
  obtain ⟨ws, rfl⟩ := h
  rfl

theorem visited (h : OnlyNotes s s') : s'.visited = s.visited := by
  obtain ⟨ws, rfl⟩ := h
  rfl

theorem scripts (h : OnlyNotes s s') : s'.scripts = s.scripts := by
  obtain ⟨ws, rfl⟩ := h
  rfl

theorem targets (h : OnlyNotes s s') : s'.targets = s.targets := by
  obtain ⟨ws, rfl⟩ := h
  rfl

end OnlyNotes

/-- The name that an import has after its references are replaced. -/
def importName (bag : PropertyBag) (e : Element) : Text := Text.trim (bag.expand ((e.attribute? "Project").getD []))

/-- An import without a wildcard leads to one file, by its normal path. -/
theorem exists_of_resolveImport {site : Site} {script : Path} {name : Text} {paths : List Path}
    (leads : resolveImport site script name = some paths) (plain : isWildcard name = false) :
    ∃ base, paths = [Path.absolutize base name] ∧ site.offers (Path.absolutize base name) = true := by
  unfold resolveImport at leads
  split at leads
  · cases leads
  · simp only [plain, Bool.false_eq_true, if_false, Option.map_eq_some_iff] at leads
    obtain ⟨candidate, found, rfl⟩ := leads
    obtain ⟨base, _, rfl⟩ := List.mem_map.1 (List.mem_of_find?_eq_some found)
    exact ⟨base, rfl, List.find?_some found⟩

section Visiting

variable {site : Site} {s : Loading} {script : Path} {e : Element}

theorem onlyNotes_noteOnce (s : Loading) (found : Option Warning) : OnlyNotes s (s.noteOnce found) := by
  unfold Loading.noteOnce
  split
  · rename_i warning
    split
    · exact .refl s
    · exact ⟨[warning], rfl⟩
  · exact .refl s

theorem onlyNotes_check (site : Site) (s : Loading) (script : Path) (e : Element) :
    OnlyNotes s (s.check site script e).2 := onlyNotes_noteOnce s _

theorem onlyNotes_selectBranch (site : Site) (script : Path) (otherwise : Option Element) (s : Loading)
    (es : List Element) : OnlyNotes s (selectBranch site script otherwise s es).2 := by
  induction es generalizing otherwise s with
  | nil => exact .refl s
  | cons e es ih =>
    unfold selectBranch
    split
    · have checked := onlyNotes_check site s script e
      simp only
      split
      · exact checked
      · exact checked.trans (ih otherwise _)
    · split
      · exact ih (some e) s
      · exact ih otherwise s

/-- What visiting an element can do to the state, and what it leaves to be done. -/
inductive Visit (site : Site) (s : Loading) (script : Path) (e : Element) : Loading → List Task → Prop
  /-- The element says nothing, or nothing that holds. -/
  | pass {s' : Loading} (notes : OnlyNotes s s') : Visit site s script e s' []
  /-- The properties of a group are set. -/
  | group (named : e.name = "PropertyGroup") (holds : (s.check site script e).1 = true) :
    Visit site s script e ((s.check site script e).2.applyProperties site script e) []
  /-- An import leads to files. -/
  | resolved {paths : List Path} (named : e.name = "Import") (holds : (s.check site script e).1 = true)
    (found : resolveImport site script (importName s.bag e) = some paths) :
    Visit site s script e (s.check site script e).2 (paths.map (Task.load script))
  /-- An import leads nowhere. -/
  | unresolved (named : e.name = "Import") (holds : (s.check site script e).1 = true)
    (missing : resolveImport site script (importName s.bag e) = none) :
    Visit site s script e ((s.check site script e).2.note (.unresolvedImport script (importName s.bag e))) []
  /-- Elements below this one are to be visited. -/
  | inner {s' : Loading} {es : List Element} (notes : OnlyNotes s s') (below : ∀ c ∈ es, c ∈ e.descendants) :
    Visit site s script e s' [.visit script es]
  /-- A target is declared, or has no name. -/
  | target (named : e.name = "Target") : Visit site s script e (s.declare script e) []

theorem mem_descendants_of_mem_elements {c : Element} (mem : c ∈ e.elements) : c ∈ e.descendants := by
  obtain ⟨name, attributes, line, children⟩ := e
  simp only [Element.elements, Element.descendants] at mem ⊢
  induction children with
  | nil => cases mem
  | cons node children ih =>
    rw [Markup.elementsBelowAll, List.mem_append]
    cases node with
    | element name attributes line inside =>
      rcases List.mem_cons.1 mem with rfl | mem
      · exact .inl (by rw [Markup.Node.elementsBelow]; exact List.mem_cons_self)
      · exact .inr (ih mem)
    | text | remark => exact .inr (ih mem)

mutual

theorem mem_elementsBelow_trans {c d : Element} : ∀ {node : Markup.Node}, c ∈ node.elementsBelow →
    d ∈ c.descendants → d ∈ node.elementsBelow
  | .element _ _ _ children, below, further => by
    rw [Markup.Node.elementsBelow] at below ⊢
    rcases List.mem_cons.1 below with rfl | below
    · exact List.mem_cons_of_mem _ further
    · exact List.mem_cons_of_mem _ (mem_elementsBelowAll_trans below further)
  | .text _, below, _ => by simp [Markup.Node.elementsBelow] at below
  | .remark, below, _ => by simp [Markup.Node.elementsBelow] at below

theorem mem_elementsBelowAll_trans {c d : Element} : ∀ {nodes : List Markup.Node}, c ∈ Markup.elementsBelowAll nodes →
    d ∈ c.descendants → d ∈ Markup.elementsBelowAll nodes
  | [], below, _ => by simp [Markup.elementsBelowAll] at below
  | node :: rest, below, further => by
    rw [Markup.elementsBelowAll] at below ⊢
    rcases List.mem_append.1 below with below | below
    · exact List.mem_append_left _ (mem_elementsBelow_trans below further)
    · exact List.mem_append_right _ (mem_elementsBelowAll_trans below further)

end

/-- What is below an element below another one is below that. -/
theorem mem_descendants_trans {c d : Element} (below : c ∈ e.descendants) (further : d ∈ c.descendants) :
    d ∈ e.descendants := mem_elementsBelowAll_trans below further

theorem visit_visitElement (site : Site) (s : Loading) (script : Path) (e : Element) :
    Visit site s script e (visitElement site s script e).1 (visitElement site s script e).2 := by
  have notes := onlyNotes_check site s script e
  have name_eq : Text.trim ((s.check site script e).2.bag.expand ((e.attribute? "Project").getD [])) =
      importName s.bag e := by rw [notes.bag]; rfl
  unfold visitElement
  split
  · simp only
    split
    · exact .group ‹_› ‹_›
    · exact .pass notes
  · split
    · simp only [name_eq]
      split
      · split
        · exact .resolved ‹_› ‹_› ‹_›
        · exact .unresolved ‹_› ‹_› ‹_›
      · exact .pass notes
    · split
      · simp only
        split
        · refine .inner notes fun c mem => ?_
          exact mem_descendants_of_mem_elements (List.mem_filter.1 mem).1
        · exact .pass notes
      · split
        · have chosen := onlyNotes_selectBranch site script none s e.elements
          cases selected : selectBranch site script none s e.elements with | mk branch s'
          rw [selected] at chosen
          cases branch with
          | none => exact .pass chosen
          | some branch =>
            have mem := mem_of_selectBranch selected
            have below := mem_descendants_of_mem_elements (mem.resolve_right nofun)
            exact .inner chosen fun c mem => mem_descendants_trans below (mem_descendants_of_mem_elements mem)
        · split
          · exact .target ‹_›
          · exact .pass (.refl s)

theorem bag_declare (s : Loading) (script : Path) (e : Element) : (s.declare script e).bag = s.bag := by
  unfold Loading.declare
  simp only
  split <;> rfl

theorem scripts_declare (s : Loading) (script : Path) (e : Element) : (s.declare script e).scripts = s.scripts := by
  unfold Loading.declare
  simp only
  split <;> rfl

/-- Setting a property notes warnings and sets it in the bag, if its condition holds. -/
theorem applyProperty_eq (site : Site) (script : Path) (s : Loading) (e : Element) :
    s.applyProperty site script e = if (s.check site script e).1 then
      { (s.check site script e).2 with bag := s.bag.set e.name (Text.trim (s.bag.expand (e.text?.getD []))) }
    else (s.check site script e).2 := by
  rw [← (onlyNotes_check site s script e).bag]
  rfl

theorem bag_applyProperty (site : Site) (script : Path) (s : Loading) (e : Element) :
    (s.applyProperty site script e).bag = s.bag ∨ ∃ name value, (s.applyProperty site script e).bag = s.bag.set name value := by
  rw [applyProperty_eq]
  split
  · exact .inr ⟨_, _, rfl⟩
  · exact .inl (onlyNotes_check site s script e).bag

theorem scripts_applyProperty (site : Site) (script : Path) (s : Loading) (e : Element) :
    (s.applyProperty site script e).scripts = s.scripts := by
  rw [applyProperty_eq]
  split <;> exact (onlyNotes_check site s script e).scripts

/-- Only groups of properties change properties. -/
theorem Visit.bag {s' : Loading} {tasks : List Task} (visit : Visit site s script e s' tasks)
    (other : e.name = "PropertyGroup" → (s.check site script e).1 = false) : s'.bag = s.bag := by
  have checked := (onlyNotes_check site s script e).bag
  cases visit with
  | pass notes => exact notes.bag
  | group named holds =>
    rw [other named] at holds
    cases holds
  | resolved => exact checked
  | unresolved => exact checked
  | inner notes => exact notes.bag
  | target => exact bag_declare s script e

theorem Visit.scripts {s' : Loading} {tasks : List Task} (visit : Visit site s script e s' tasks) :
    s'.scripts = s.scripts := by
  have checked := (onlyNotes_check site s script e).scripts
  cases visit with
  | pass notes => exact notes.scripts
  | group =>
    rw [← checked]
    unfold Loading.applyProperties
    generalize (s.check site script e).2 = s
    induction e.elements generalizing s with
    | nil => rfl
    | cons c es ih => rw [List.foldl_cons, ih, scripts_applyProperty]
  | resolved => exact checked
  | unresolved => exact checked
  | inner notes => exact notes.scripts
  | target => exact scripts_declare s script e

theorem visited_applyProperty (site : Site) (script : Path) (s : Loading) (e : Element) :
    (s.applyProperty site script e).visited = s.visited := by
  rw [applyProperty_eq]
  split <;> exact (onlyNotes_check site s script e).visited

end Visiting

/-! ## Moments -/

/-- How far loading is. -/
structure Moment where
  /-- What has been loaded. -/
  state : Loading
  /-- The properties of the present group that are still to be set, with their script. -/
  properties : List (Path × Element)
  /-- The tasks that are left. -/
  tasks : List Task

/-- One step of loading. -/
inductive Advance (site : Site) : Moment → Moment → Prop
  /-- A property of a group is set, if its condition holds. -/
  | assign {s : Loading} {script : Path} {e : Element} {more : List (Path × Element)} {tasks : List Task} :
    Advance site ⟨s, (script, e) :: more, tasks⟩ ⟨s.applyProperty site script e, more, tasks⟩
  /-- A group of properties is entered. -/
  | group {s : Loading} {script : Path} {e : Element} {es : List Element} {rest : List Task}
    (named : e.name = "PropertyGroup") (holds : (s.check site script e).1 = true) :
    Advance site ⟨s, [], .visit script (e :: es) :: rest⟩
      ⟨(s.check site script e).2, e.elements.map (script, ·), .visit script es :: rest⟩
  /-- Any other element is visited. -/
  | element {s : Loading} {script : Path} {e : Element} {es : List Element} {rest : List Task}
    (other : e.name = "PropertyGroup" → (s.check site script e).1 = false) :
    Advance site ⟨s, [], .visit script (e :: es) :: rest⟩
      ⟨(visitElement site s script e).1, [], (visitElement site s script e).2 ++ .visit script es :: rest⟩
  /-- The elements of a task are through. -/
  | finish {s : Loading} {script : Path} {rest : List Task} :
    Advance site ⟨s, [], .visit script [] :: rest⟩ ⟨s, [], rest⟩
  /-- An import is through, and loading goes on in the script with the import. -/
  | resume {s : Loading} {script : Path} {rest : List Task} :
    Advance site ⟨s, [], .resume script :: rest⟩ ⟨s.enter script, [], rest⟩
  /-- A script was tried before, or its path is too long. -/
  | skip {s : Loading} {importer path : Path} {rest : List Task} (old : ¬ (path.isOpenable ∧ s.hasTried path = false)) :
    Advance site ⟨s, [], .load importer path :: rest⟩ ⟨s, [], rest⟩
  /-- A script cannot be read. -/
  | broken {s : Loading} {importer path : Path} {rest : List Task} {fault : ScriptFault}
    (new : path.isOpenable ∧ s.hasTried path = false) (read : readScript site.tree path = .error fault) :
    Advance site ⟨s, [], .load importer path :: rest⟩
      ⟨({ s with visited := path :: s.visited } : Loading).note (.brokenImport path fault), [], rest⟩
  /-- A script is loaded. -/
  | load {s : Loading} {importer path : Path} {rest : List Task} {root : Element}
    (new : path.isOpenable ∧ s.hasTried path = false) (read : readScript site.tree path = .ok root) :
    Advance site ⟨s, [], .load importer path :: rest⟩
      ⟨({ s with visited := path :: s.visited, scripts := s.scripts ++ [path] } : Loading).enter path, [],
        .visit path root.elements :: .resume importer :: rest⟩

section Moments

variable {site : Site}

/-- What a step does to the properties: it sets one of them, or lets them name another script, or nothing. -/
theorem Advance.bag {m m' : Moment} (step : Advance site m m') :
    m'.state.bag = m.state.bag ∨ (∃ name value, m'.state.bag = m.state.bag.set name value) ∨
      ∃ script, m'.state.bag = m.state.bag.setGlobals (thisFileProperties script) := by
  cases step with
  | @assign s script e =>
    obtain kept | set := bag_applyProperty site script s e
    · exact .inl kept
    · exact .inr (.inl set)
  | @group s script e => exact .inl (onlyNotes_check site s script e).bag
  | @element s script e es rest other => exact .inl ((visit_visitElement site s script e).bag other)
  | finish => exact .inl rfl
  | @resume s script => exact .inr (.inr ⟨script, rfl⟩)
  | skip => exact .inl rfl
  | broken => exact .inl rfl
  | @load s importer path => exact .inr (.inr ⟨path, rfl⟩)

theorem reaches_properties (site : Site) (script : Path) (s : Loading) (es : List Element) (tasks : List Task) :
    ReflTransGen (Advance site) ⟨s, es.map (script, ·), tasks⟩
      ⟨es.foldl (Loading.applyProperty site script) s, [], tasks⟩ := by
  induction es generalizing s with
  | nil => exact .refl
  | cons e es ih => exact (ih _).head .assign

theorem visitElement_group {s : Loading} {script : Path} {e : Element} (named : e.name = "PropertyGroup")
    (holds : (s.check site script e).1 = true) :
    visitElement site s script e = ((s.check site script e).2.applyProperties site script e, []) := by
  unfold visitElement
  rw [if_pos named]
  simp only [holds, if_true]

/-- An import whose condition holds leads to files, or is noted. -/
theorem visitElement_import {s : Loading} {script : Path} {e : Element} (named : e.name = "Import")
    (holds : (s.check site script e).1 = true) :
    visitElement site s script e =
      match resolveImport site script (importName s.bag e) with
      | some paths => ((s.check site script e).2, paths.map (Task.load script))
      | none => ((s.check site script e).2.note (.unresolvedImport script (importName s.bag e)), []) := by
  unfold visitElement
  rw [if_neg (by rw [named]; decide), if_pos named]
  simp only [holds, if_true, (onlyNotes_check site s script e).bag]
  rfl

/-- Visiting an element is a step, or several ones for a group of properties. -/
theorem reaches_visitElement (site : Site) (s : Loading) (script : Path) (e : Element) (es : List Element)
    (rest : List Task) :
    ReflTransGen (Advance site) ⟨s, [], .visit script (e :: es) :: rest⟩
      ⟨(visitElement site s script e).1, [], (visitElement site s script e).2 ++ .visit script es :: rest⟩ := by
  by_cases isGroup : e.name = "PropertyGroup" ∧ (s.check site script e).1 = true
  · rw [visitElement_group isGroup.1 isGroup.2]
    exact .head (.group isGroup.1 isGroup.2) (reaches_properties site script _ e.elements _)
  · exact .single (.element fun named => Bool.eq_false_iff.2 fun holds => isGroup ⟨named, holds⟩)

/-- `run` goes through moments to its end. -/
theorem reaches_run (site : Site) (s : Loading) (tasks : List Task) :
    ReflTransGen (Advance site) ⟨s, [], tasks⟩ ⟨run site s tasks, [], []⟩ := by
  fun_induction run site s tasks with
  | case1 s => exact .refl
  | case2 s script rest ih => exact ih.head .finish
  | case3 s script e es rest ih => exact (reaches_visitElement site s script e es rest).trans ih
  | case4 s script rest ih => exact ih.head .resume
  | case5 s importer path rest new tried fault read ih => exact ih.head (.broken new read)
  | case6 s importer path rest new tried root read ih => exact ih.head (.load new read)
  | case7 s importer path rest old ih => exact ih.head (.skip old)

/-- How much there is to do at most, in the order in which it counts: scripts, elements, and tasks and properties. -/
noncomputable def Moment.left (m : Moment) : Nat × Nat × Nat :=
  (unseen Path.openable m.state.visited, pendingWeight m.tasks, m.tasks.length + m.properties.length)

/-- A step leaves less to do. -/
theorem Advance.left_lt {m m' : Moment} (step : Advance site m m') :
    Prod.Lex (· < ·) (Prod.Lex (· < ·) (· < ·)) m'.left m.left := by
  -- a script that is tried for the first time leaves fewer of them
  have tried {s : Loading} {path : Path} (new : path.isOpenable ∧ s.hasTried path = false) :
      unseen Path.openable (path :: s.visited) < unseen Path.openable s.visited :=
    unseen_cons_lt (Path.mem_openable new.1) (Loading.not_mem_of_hasTried new.2)
  cases step with
  | @assign s script e more tasks =>
    unfold Moment.left
    rw [visited_applyProperty]
    exact Prod.Lex.right _ (Prod.Lex.right _ (by simp))
  | @group s script e es rest =>
    unfold Moment.left
    rw [(onlyNotes_check site s script e).visited]
    have own := sum_weight_elements e
    refine Prod.Lex.right _ (Prod.Lex.left _ _ ?_)
    simp only [pendingWeight, Task.weight, List.map_cons, total_cons]
    omega
  | @element s script e es rest =>
    unfold Moment.left
    rw [visited_visitElement]
    have less := pendingWeight_visitElement_lt site s script e
    refine Prod.Lex.right _ (Prod.Lex.left _ _ ?_)
    rw [pendingWeight_append]
    simp only [pendingWeight, Task.weight, List.map_cons, total_cons] at less ⊢
    omega
  | finish => exact Prod.Lex.right _ (pending_lt_cons _ _)
  | resume => exact Prod.Lex.right _ (pending_lt_cons _ _)
  | skip => exact Prod.Lex.right _ (pending_lt_cons _ _)
  | broken new => exact Prod.Lex.left _ _ (tried new)
  | load new => exact Prod.Lex.left _ _ (tried new)

/-- **Loading ends**: from no moment there are endlessly many steps. -/
theorem wellFounded_advance (site : Site) : WellFounded fun m' m => Advance site m m' :=
  Subrelation.wf Advance.left_lt (InvImage.wf Moment.left WellFoundedRelation.wf)

/-- Loading goes on until nothing is left to do. -/
theorem exists_advance {m : Moment} (more : m.properties ≠ [] ∨ m.tasks ≠ []) : ∃ m', Advance site m m' := by
  obtain ⟨s, properties, tasks⟩ := m
  cases properties with
  | cons property => exact ⟨_, .assign⟩
  | nil =>
    cases tasks with
    | nil => exact absurd more (by simp)
    | cons task rest =>
      cases task with
      | visit script es =>
        cases es with
        | nil => exact ⟨_, .finish⟩
        | cons e es =>
          by_cases isGroup : e.name = "PropertyGroup" ∧ (s.check site script e).1 = true
          · exact ⟨_, .group isGroup.1 isGroup.2⟩
          · exact ⟨_, .element fun named => Bool.eq_false_iff.2 fun holds => isGroup ⟨named, holds⟩⟩
      | resume script => exact ⟨_, .resume⟩
      | load importer path =>
        by_cases new : path.isOpenable ∧ s.hasTried path = false
        · cases read : readScript site.tree path with
          | error fault => exact ⟨_, .broken new read⟩
          | ok root => exact ⟨_, .load new read⟩
        · exact ⟨_, .skip new⟩

/-- There is one way only to go on. -/
theorem Advance.unique {m m₁ m₂ : Moment} (h₁ : Advance site m m₁) (h₂ : Advance site m m₂) : m₁ = m₂ := by
  cases h₁ with
  | assign => cases h₂; rfl
  | group named holds =>
    cases h₂ with
    | group => rfl
    | element other =>
      rw [other named] at holds
      cases holds
  | element other =>
    cases h₂ with
    | group named holds =>
      rw [other named] at holds
      cases holds
    | element => rfl
  | finish => cases h₂; rfl
  | resume => cases h₂; rfl
  | skip old =>
    cases h₂ with
    | skip => rfl
    | broken new => exact absurd new old
    | load new => exact absurd new old
  | broken new read =>
    cases h₂ with
    | skip old => exact absurd new old
    | broken _ read' =>
      cases read.symm.trans read'
      rfl
    | load _ read' => cases read.symm.trans read'
  | load new read =>
    cases h₂ with
    | skip old => exact absurd new old
    | broken _ read' => cases read.symm.trans read'
    | load _ read' =>
      cases read.symm.trans read'
      rfl

/-! ## Scripts that are loaded -/

/-- A script is to be loaded some time in a loading. -/
def Loads (site : Site) (m : Moment) (path : Path) : Prop :=
  ∃ s importer rest, ReflTransGen (Advance site) m ⟨s, [], .load importer path :: rest⟩

namespace Loads

variable {m m' : Moment} {path : Path}

/-- What is to be loaded later on is to be loaded. -/
theorem of_reaches (later : Loads site m' path) (reaches : ReflTransGen (Advance site) m m') : Loads site m path := by
  obtain ⟨s, importer, rest, onwards⟩ := later
  exact ⟨s, importer, rest, reaches.trans onwards⟩

theorem head (later : Loads site m' path) (step : Advance site m m') : Loads site m path := later.of_reaches (.single step)

/-- What is to be loaded is next, or to be loaded after one step. -/
theorem next (loads : Loads site m path) (step : Advance site m m') :
    (∃ s importer rest, m = ⟨s, [], .load importer path :: rest⟩) ∨ Loads site m' path := by
  obtain ⟨s, importer, rest, reaches⟩ := loads
  rcases reaches.cases_head with now | ⟨m'', step', onwards⟩
  · exact .inl ⟨s, importer, rest, now⟩
  · obtain rfl := step.unique step'
    exact .inr ⟨s, importer, rest, onwards⟩

/-- What is to be loaded is to be loaded after a step that loads nothing. -/
theorem after (loads : Loads site m path) (step : Advance site m m')
    (other : ∀ s importer rest, m ≠ ⟨s, [], .load importer path :: rest⟩) : Loads site m' path := by
  rcases loads.next step with ⟨s, importer, rest, now⟩ | later
  · exact (other s importer rest now).elim
  · exact later

theorem after_properties {s : Loading} {script : Path} {es : List Element} {tasks : List Task}
    (loads : Loads site ⟨s, es.map (script, ·), tasks⟩ path) :
    Loads site ⟨es.foldl (Loading.applyProperty site script) s, [], tasks⟩ path := by
  induction es generalizing s with
  | nil => exact loads
  | cons e es ih => exact ih (loads.after .assign (by simp))

theorem after_visitElement {s : Loading} {script : Path} {e : Element} {es : List Element} {rest : List Task}
    (loads : Loads site ⟨s, [], .visit script (e :: es) :: rest⟩ path) :
    Loads site ⟨(visitElement site s script e).1, [], (visitElement site s script e).2 ++ .visit script es :: rest⟩ path := by
  by_cases isGroup : e.name = "PropertyGroup" ∧ (s.check site script e).1 = true
  · rw [visitElement_group isGroup.1 isGroup.2]
    exact (loads.after (.group isGroup.1 isGroup.2) (by simp)).after_properties
  · refine loads.after (.element fun named => ?_) (by simp)
    exact Bool.eq_false_iff.2 fun holds => isGroup ⟨named, holds⟩

theorem not_nil {s : Loading} : ¬ Loads site ⟨s, [], []⟩ path := by
  rintro ⟨t, importer, rest, reaches⟩
  rcases reaches.cases_head with now | ⟨_, step, _⟩
  · cases now
  · cases step

end Loads

end Moments

/-! ## Entry scripts -/

/-- What stays the same while an entry script and its imports are loaded. -/
def siteOf (tree : FileTree) (options : Options) (entry : Path) : Site :=
  let projectDir := entry.parent?.getD ⟨[]⟩
  ⟨tree, projectDir, options.searchPaths.map fun dir => Path.absolutize projectDir dir.text⟩

/-- What has been loaded before the first element of the entry script is visited. -/
def startOf (options : Options) (entry : Path) : Loading :=
  (⟨seedProperties options entry, [entry], [entry], [], []⟩ : Loading).enter entry

theorem exists_normalize_eq_entryPath (tree : FileTree) (options : Options) : ∃ p : Path, p.normalize = entryPath tree options := by
  unfold entryPath
  split <;> exact ⟨_, rfl⟩

theorem load_of_broken {tree : FileTree} {options : Options} {entry : Path} {fault : ScriptFault}
    (read : readScript tree entry = .error fault) : load tree options entry = .error (.badScript entry fault) := by
  rw [load, read]

theorem load_of_read {tree : FileTree} {options : Options} {entry : Path} {root : Element}
    (read : readScript tree entry = .ok root) :
    load tree options entry =
      .ok ⟨run (siteOf tree options entry) (startOf options entry) [.visit entry root.elements],
        root.attribute? "DefaultTargets"⟩ := by
  rw [load, read]
  rfl

/-- A moment in the loading of an entry script, given by its outermost element. -/
def Passes (tree : FileTree) (options : Options) (entry : Path) (root : Element) (m : Moment) : Prop :=
  ReflTransGen (Advance (siteOf tree options entry)) ⟨startOf options entry, [], [.visit entry root.elements]⟩ m

/-! ## Runs that compute -/

/-- `run` in a number of steps, and the paths that imports lead to on the way. `run` itself recurses over all paths that
can be opened, and cannot be computed. -/
def runWithin (site : Site) : Nat → Loading → List Task → Option (Loading × List Path)
  | _, s, [] => some (s, [])
  | 0, _, _ => none
  | n + 1, s, .visit _ [] :: rest => runWithin site n s rest
  | n + 1, s, .visit script (e :: es) :: rest =>
    runWithin site n (visitElement site s script e).1 ((visitElement site s script e).2 ++ .visit script es :: rest)
  | n + 1, s, .resume script :: rest => runWithin site n (s.enter script) rest
  | n + 1, s, .load importer path :: rest =>
    let tried := { s with visited := path :: s.visited }
    (if path.isOpenable ∧ s.hasTried path = false then
      match readScript site.tree path with
      | .error fault => runWithin site n (tried.note (.brokenImport path fault)) rest
      | .ok root =>
        runWithin site n ({ tried with scripts := s.scripts ++ [path] }.enter path)
          (.visit path root.elements :: .resume importer :: rest)
    else runWithin site n s rest).map fun (s, paths) => (s, path :: paths)

theorem runWithin_eq_some {site : Site} {n : Nat} {s t : Loading} {tasks : List Task} {paths : List Path}
    (h : runWithin site n s tasks = some (t, paths)) :
    run site s tasks = t ∧ ∀ p, Loads site ⟨s, [], tasks⟩ p → p ∈ paths := by
  induction n generalizing s tasks paths with
  | zero =>
    cases tasks with
    | nil =>
      cases h
      exact ⟨by rw [run], fun p loads => loads.not_nil.elim⟩
    | cons => cases h
  | succ n ih =>
    cases tasks with
    | nil =>
      cases h
      exact ⟨by rw [run], fun p loads => loads.not_nil.elim⟩
    | cons task rest =>
      cases task with
      | visit script es =>
        cases es with
        | nil =>
          obtain ⟨ran, all⟩ := ih h
          exact ⟨by rw [run, ran], fun p loads => all p (loads.after .finish (by simp))⟩
        | cons e es =>
          obtain ⟨ran, all⟩ := ih h
          exact ⟨by rw [run, ran], fun p loads => all p loads.after_visitElement⟩
      | resume script =>
        obtain ⟨ran, all⟩ := ih h
        exact ⟨by rw [run, ran], fun p loads => all p (loads.after .resume (by simp))⟩
      | load importer path =>
        obtain ⟨⟨t', later⟩, inner, same⟩ := Option.map_eq_some_iff.1 h
        cases same
        have first {p : Path} {m' : Moment} (loads : Loads site ⟨s, [], .load importer path :: rest⟩ p)
            (step : Advance site ⟨s, [], .load importer path :: rest⟩ m') (onwards : Loads site m' p → p ∈ later) :
            p ∈ path :: later := by
          rcases loads.next step with ⟨_, _, _, now⟩ | after
          · cases now
            exact List.mem_cons_self
          · exact List.mem_cons_of_mem _ (onwards after)
        split at inner
        · rename_i new
          split at inner
          · rename_i fault read
            obtain ⟨ran, all⟩ := ih inner
            exact ⟨by rw [run, if_pos new, read]; exact ran, fun p loads => first loads (.broken new read) (all p)⟩
          · rename_i root read
            obtain ⟨ran, all⟩ := ih inner
            exact ⟨by rw [run, if_pos new, read]; exact ran, fun p loads => first loads (.load new read) (all p)⟩
        · rename_i old
          obtain ⟨ran, all⟩ := ih inner
          exact ⟨by rw [run, if_neg old]; exact ran, fun p loads => first loads (.skip old) (all p)⟩

/-- The outermost element of an entry script, and what is loaded for it in a number of steps. -/
def loadWithin (n : Nat) (tree : FileTree) (options : Options) (entry : Path) : Option (Element × Loading) :=
  match readScript tree entry with
  | .error _ => none
  | .ok root =>
    (runWithin (siteOf tree options entry) n (startOf options entry) [.visit entry root.elements]).map fun (s, _) => (root, s)

theorem load_of_loadWithin {n : Nat} {tree : FileTree} {options : Options} {entry : Path} {root : Element} {s : Loading}
    (h : loadWithin n tree options entry = some (root, s)) :
    readScript tree entry = .ok root ∧ load tree options entry = .ok ⟨s, root.attribute? "DefaultTargets"⟩ := by
  unfold loadWithin at h
  split at h
  · cases h
  · rename_i outer read
    obtain ⟨⟨s', paths⟩, ran, same⟩ := Option.map_eq_some_iff.1 h
    cases same
    exact ⟨read, by rw [load_of_read read, (runWithin_eq_some ran).1]⟩

end SolutionGraph.Target
