import SolutionGraph.Proofs.FileTree.Outline
import SolutionGraph.Proofs.Markup.Redaction
import SolutionGraph.Proofs.Target.Loading

/-!
# Two loadings side by side

Two loadings of scripts that are the same up to a redaction go through the same steps. What relates their states is left
open: it has to be kept by what a step does to a state (`Lockstep`). Then it is kept by the whole run
(`Lockstep.run`), if it is known which scripts are loaded on the way (`Loads`).
-/

namespace SolutionGraph.Target

open Markup (Element Redaction)

/-- Two elements have the same child elements up to a redaction; what is inside them is no property. -/
def SameInside (r : Redaction) (e e' : Element) : Prop := List.Forall₂ (Element.SameUpTo r false) e.elements e'.elements

theorem sameInside {r : Redaction} {inGroup : Bool} {e e' : Element} (h : Element.SameUpTo r inGroup e e')
    (plain : e.isGroup = false) : SameInside r e e' := by
  have inside := h.elements
  rwa [plain] at inside

/-- Two tasks are the same up to a redaction of the elements that are to be visited. -/
inductive TaskAlike (r : Redaction) : Task → Task → Prop
  | visit {script : Path} {es es' : List Element} (same : List.Forall₂ (Element.SameUpTo r false) es es') :
    TaskAlike r (.visit script es) (.visit script es')
  | load (importer path : Path) : TaskAlike r (.load importer path) (.load importer path)
  | resume (script : Path) : TaskAlike r (.resume script) (.resume script)

/-- Two scripts are the same up to a redaction, or are broken in the same way. -/
inductive ScriptAlike (r : Redaction) : Except ScriptFault Element → Except ScriptFault Element → Prop
  | broken (fault : ScriptFault) : ScriptAlike r (.error fault) (.error fault)
  | read {root root' : Element} (same : Element.SameUpTo r false root root') : ScriptAlike r (.ok root) (.ok root')

namespace ScriptAlike

variable {r : Redaction} {script script' : Except ScriptFault Element}

theorem of_broken (h : ScriptAlike r script script') {fault : ScriptFault} (read : script = .error fault) :
    script' = .error fault := by
  cases h with
  | broken => exact read
  | read => cases read

theorem of_read (h : ScriptAlike r script script') {root : Element} (read : script = .ok root) :
    ∃ root', script' = .ok root' ∧ Element.SameUpTo r false root root' := by
  cases h with
  | broken => cases read
  | read same =>
    cases read
    exact ⟨_, rfl, same⟩

instance (r : Redaction) : (script script' : Except ScriptFault Element) → Decidable (ScriptAlike r script script')
  | .error fault, .error fault' =>
    decidable_of_iff (fault = fault') ⟨fun same => same ▸ .broken fault, fun | .broken _ => rfl⟩
  | .ok root, .ok root' => decidable_of_iff (Element.SameUpTo r false root root') ⟨.read, fun | .read same => same⟩
  | .error _, .ok _ | .ok _, .error _ => isFalse nofun

end ScriptAlike

/-- The outermost element of a script is no group of properties. -/
theorem isGroup_of_readScript {tree : FileTree} {path : Path} {root : Element} (read : readScript tree path = .ok root) :
    root.isGroup = false := by
  unfold readScript at read
  split at read
  · cases read
  · split at read
    · cases read
    · split at read
      · rename_i named
        cases read
        rw [Element.isGroup, named]
        decide
      · cases read

/-- A relation of states is kept by all that a step of loading does, as long as the scripts that are loaded are among
those allowed. -/
structure Lockstep (site site' : Site) (r : Redaction) (allowed : Path → Prop) (S : Loading → Loading → Prop) : Prop where
  /-- Imports lead to the same files. -/
  resolve : ∀ script name, resolveImport site script name = resolveImport site' script name
  /-- Texts are expanded in the same way. -/
  expand : ∀ {s s'}, S s s' → ∀ t, s.bag.expand t = s'.bag.expand t
  /-- Conditions have the same truth value. -/
  check : ∀ {s s' e e' inGroup} script, S s s' → Element.SameUpTo r inGroup e e' →
    (s.check site script e).1 = (s'.check site' script e').1 ∧ S (s.check site script e).2 (s'.check site' script e').2
  /-- A property is set. -/
  assign : ∀ {s s' script e e'}, S s s' → Element.SameUpTo r true e e' →
    S (s.applyProperty site script e) (s'.applyProperty site' script e')
  /-- A target is declared. -/
  declare : ∀ {s s' e e'} script, S s s' → Element.SameUpTo r false e e' → S (s.declare script e) (s'.declare script e')
  /-- A finding is noted. -/
  note : ∀ {s s'} f, S s s' → S (s.note f) (s'.note f)
  /-- The same scripts were tried. -/
  tried : ∀ {s s' path}, S s s' → allowed path → s.hasTried path = s'.hasTried path
  /-- A new script has the same elements, or is broken in the same way. -/
  read : ∀ {s s' path}, S s s' → allowed path → s.hasTried path = false →
    ScriptAlike r (readScript site.tree path) (readScript site'.tree path)
  /-- A script is tried. -/
  visited : ∀ {s s'} path, S s s' → S { s with visited := path :: s.visited } { s' with visited := path :: s'.visited }
  /-- A script is loaded. -/
  scripts : ∀ {s s'} path, S s s' →
    S { s with scripts := s.scripts ++ [path] } { s' with scripts := s'.scripts ++ [path] }
  /-- Loading goes to a script. -/
  enter : ∀ {s s'} script, S s s' → S (s.enter script) (s'.enter script)

namespace Lockstep

variable {site site' : Site} {r : Redaction} {allowed : Path → Prop} {S : Loading → Loading → Prop}

theorem applyProperties (h : Lockstep site site' r allowed S) {script : Path} {es es' : List Element}
    (same : List.Forall₂ (Element.SameUpTo r true) es es') {s s' : Loading} (hs : S s s') :
    S (es.foldl (Loading.applyProperty site script) s) (es'.foldl (Loading.applyProperty site' script) s') := by
  induction same generalizing s s' with
  | nil => exact hs
  | cons first _ ih => exact ih (h.assign hs first)

/-- Two choices take the same branch, up to the redaction. -/
theorem selectBranch (h : Lockstep site site' r allowed S) (script : Path) {es es' : List Element}
    (same : List.Forall₂ (Element.SameUpTo r false) es es') {otherwise otherwise' : Option Element}
    (other : Option.Rel (SameInside r) otherwise otherwise') {s s' : Loading} (hs : S s s') :
    Option.Rel (SameInside r) (Target.selectBranch site script otherwise s es).1
        (Target.selectBranch site' script otherwise' s' es').1 ∧
      S (Target.selectBranch site script otherwise s es).2 (Target.selectBranch site' script otherwise' s' es').2 := by
  induction same generalizing s s' otherwise otherwise' with
  | nil => exact ⟨other, hs⟩
  | @cons e e' es es' first _ ih =>
    unfold Target.selectBranch
    rw [first.name]
    split
    · rename_i named
      obtain ⟨holds, hs⟩ := h.check script hs first
      simp only [holds]
      split
      · exact ⟨.some (sameInside first (by simp [Element.isGroup, first.name, named])), hs⟩
      · exact ih other hs
    · split
      · rename_i named
        exact ih (.some (sameInside first (by simp [Element.isGroup, first.name, named]))) hs
      · exact ih other hs

/-- Visiting an element keeps the relation, and leaves the same to be done. -/
theorem visitElement (h : Lockstep site site' r allowed S) (script : Path) {e e' : Element}
    (same : Element.SameUpTo r false e e') {s s' : Loading} (hs : S s s') :
    S (visitElement site s script e).1 (visitElement site' s' script e').1 ∧
      List.Forall₂ (TaskAlike r) (visitElement site s script e).2 (visitElement site' s' script e').2 := by
  obtain ⟨holds, checked⟩ := h.check script hs same
  unfold Target.visitElement
  rw [same.name]
  by_cases group : e'.name = "PropertyGroup"
  · have properties := same.elements
    rw [show e.isGroup = true by simp [Element.isGroup, same.name, group]] at properties
    simp only [group, if_true, holds]
    refine ⟨?_, .nil⟩
    split
    · exact h.applyProperties properties checked
    · exact checked
  have elements : SameInside r e e' := sameInside same (by simpa [Element.isGroup, same.name] using group)
  rw [if_neg group, if_neg group]
  split
  · simp only [holds, h.expand checked, h.resolve, same.attribute?]
    split
    · split
      · refine ⟨checked, List.forall₂_map_left_iff.2 (List.forall₂_map_right_iff.2 ?_)⟩
        exact List.forall₂_same.2 fun path _ => .load script path
      · exact ⟨h.note _ checked, .nil⟩
    · exact ⟨checked, .nil⟩
  split
  · simp only [holds]
    refine ⟨checked, ?_⟩
    split
    · exact .cons (.visit (Element.SameUpTo.elementsNamed elements _)) .nil
    · exact .nil
  split
  · obtain ⟨branch, chosen⟩ := h.selectBranch script elements .none hs
    refine ⟨chosen, ?_⟩
    simp only
    generalize (Target.selectBranch site script none s e.elements).1 = taken at branch ⊢
    generalize (Target.selectBranch site' script none s' e'.elements).1 = taken' at branch ⊢
    cases branch with
    | none => exact .nil
    | some inside => exact .cons (.visit inside) .nil
  split
  · exact ⟨h.declare script hs same, .nil⟩
  · exact ⟨hs, .nil⟩

/-- **Lockstep**: what is kept by each step is kept by the whole run. -/
theorem run (h : Lockstep site site' r allowed S) {s s' : Loading} {tasks tasks' : List Task} (hs : S s s')
    (alike : List.Forall₂ (TaskAlike r) tasks tasks')
    (loads : ∀ path, Loads site ⟨s, [], tasks⟩ path → allowed path) :
    S (run site s tasks) (run site' s' tasks') := by
  fun_induction Target.run site s tasks generalizing s' tasks' with
  | case1 s =>
    cases alike
    rwa [Target.run]
  | case2 s script rest ih =>
    obtain _ | ⟨⟨_ | _⟩, alike⟩ := alike
    rw [Target.run]
    exact ih hs alike fun path later => loads path (later.head .finish)
  | case3 s script e es rest ih =>
    obtain _ | ⟨⟨_ | ⟨same, others⟩⟩, alike⟩ := alike
    obtain ⟨hs, tasks⟩ := h.visitElement script same hs
    rw [Target.run]
    refine ih hs (List.rel_append tasks (.cons (.visit others) alike)) fun path later => ?_
    exact loads path (later.of_reaches (reaches_visitElement site s script e es rest))
  | case4 s script rest ih =>
    obtain _ | ⟨⟨_⟩, alike⟩ := alike
    rw [Target.run]
    exact ih (h.enter script hs) alike fun path later => loads path (later.head .resume)
  | case5 s importer path rest new _ fault read =>
    rename_i ih
    obtain _ | ⟨⟨_⟩, alike⟩ := alike
    have may : allowed path := loads path ⟨s, importer, rest, .refl⟩
    have read' := (h.read hs may new.2).of_broken read
    have new' : path.isOpenable ∧ s'.hasTried path = false := h.tried hs may ▸ new
    rw [Target.run, if_pos new', read']
    exact ih (h.note _ (h.visited path hs)) alike fun p later => loads p (later.head (.broken new read))
  | case6 s importer path rest new _ root read =>
    rename_i ih
    obtain _ | ⟨⟨_⟩, alike⟩ := alike
    have may : allowed path := loads path ⟨s, importer, rest, .refl⟩
    obtain ⟨root', read', same⟩ := (h.read hs may new.2).of_read read
    have inside : SameInside r root root' := sameInside same (isGroup_of_readScript read)
    have new' : path.isOpenable ∧ s'.hasTried path = false := h.tried hs may ▸ new
    rw [Target.run, if_pos new', read']
    refine ih (h.enter path (h.scripts path (h.visited path hs))) (.cons (.visit inside) (.cons (.resume _) alike)) ?_
    exact fun p later => loads p (later.head (.load new read))
  | case7 s importer path rest old ih =>
    obtain _ | ⟨⟨_⟩, alike⟩ := alike
    have may : allowed path := loads path ⟨s, importer, rest, .refl⟩
    have old' : ¬ (path.isOpenable ∧ s'.hasTried path = false) := h.tried hs may ▸ old
    rw [Target.run, if_neg old']
    exact ih hs alike fun p later => loads p (later.head (.skip old))

end Lockstep

/-! ## Trees that are alike -/

/-- The outermost element of the script with the given bytes. -/
def scriptOf (bytes : List UInt8) : Except ScriptFault Element :=
  match Text.decode? bytes with
  | none => .error (.disk .notUtf8)
  | some text =>
    match Markup.parse? (Markup.dropMark text) with
    | none => .error .malformed
    | some root => if root.name = "Project" then .ok root else .error (.notAProject root.name)

theorem readScript_eq (tree : FileTree) (path : Path) :
    readScript tree path =
      match tree.readBytes path with
      | .error cause => .error (.disk cause)
      | .ok bytes => scriptOf bytes := by
  unfold readScript FileTree.readText scriptOf
  cases tree.readBytes path with
  | error cause => rfl
  | ok bytes =>
    simp only [bind, Except.bind]
    cases Text.decode? bytes <;> rfl

section Alike

variable {R : List Text → List UInt8 → List UInt8 → Prop} {tree tree' : FileTree}

theorem readScript_alike {r : Redaction} {path : Path} (alike : tree.Alike R tree')
    (same : ∀ bytes bytes', R (tree.place path) bytes bytes' → ScriptAlike r (scriptOf bytes) (scriptOf bytes')) :
    ScriptAlike r (readScript tree path) (readScript tree' path) := by
  rw [readScript_eq, readScript_eq]
  obtain ⟨cause, error, error'⟩ | ⟨bytes, bytes', ok, ok', related⟩ := alike.readBytes path
  · rw [error, error']
    exact .broken _
  · rw [ok, ok']
    exact same bytes bytes' related

theorem resolveImport_alike (alike : tree.Alike R tree') (projectDir : Path) (searchPaths : List Path) (script : Path)
    (name : Text) :
    resolveImport ⟨tree, projectDir, searchPaths⟩ script name = resolveImport ⟨tree', projectDir, searchPaths⟩ script name := by
  have offers : (⟨tree, projectDir, searchPaths⟩ : Site).offers = (⟨tree', projectDir, searchPaths⟩ : Site).offers := by
    funext path
    simp only [Site.offers, alike.isFile_eq]
  have expands : (⟨tree, projectDir, searchPaths⟩ : Site).expandWildcard =
      (⟨tree', projectDir, searchPaths⟩ : Site).expandWildcard := by
    funext pattern
    simp only [Site.expandWildcard, alike.files_eq]
  unfold resolveImport
  rw [offers, expands]

theorem entryPath_alike (alike : tree.Alike R tree') (options : Options) : entryPath tree options = entryPath tree' options := by
  unfold entryPath FileTree.workingPath
  rw [alike.workingDir]

end Alike

end SolutionGraph.Target
