import SolutionGraph.Proofs.Path.Normal
import SolutionGraph.Proofs.Target.Agreement

/-!
# Imports as inclusions

To import a script is to have its elements where the import stands.

* **parts** (`run_append`, `run_visit_append`): elements are visited one part after the other, so loading an entry script
  is what comes before an import, the import, and what comes after it (`run_import`);
* **the script** (`Agree.visitAll`): its elements change the state in the same way wherever they stand, but for the
  properties that name the script being visited, and these are set back at its end (`Agree.resume`);
* **the rest** goes on in lockstep, if the entry script is not loaded again by another path (`buildTree_inlined`).

Without the last condition it does not hold: in `buildTree_inlined_twice` the entry script is loaded twice, and the
imported one once.
-/

namespace SolutionGraph.Target

open Markup (Element)
open Relation (ReflTransGen)

/-! ## Runs in parts -/

section Parts

variable {site : Site}

theorem run_append (site : Site) (s : Loading) (ts us : List Task) :
    run site s (ts ++ us) = run site (run site s ts) us := by
  fun_induction run site s ts with
  | case1 s => rfl
  | case2 s script rest ih => rw [List.cons_append, run]; exact ih
  | case3 s script e es rest ih =>
    rw [List.cons_append, run, ← List.cons_append, ← List.append_assoc]
    exact ih
  | case4 s script rest ih => rw [List.cons_append, run]; exact ih
  | case5 s importer path rest new tried fault read ih =>
    rw [List.cons_append, run, if_pos new, read]
    exact ih
  | case6 s importer path rest new tried root read ih =>
    rw [List.cons_append, run, if_pos new, read]
    exact ih
  | case7 s importer path rest old ih => rw [List.cons_append, run, if_neg old]; exact ih

theorem run_visit_append (site : Site) (s : Loading) (script : Path) (es more : List Element) :
    run site s [.visit script (es ++ more)] = run site (run site s [.visit script es]) [.visit script more] := by
  induction es generalizing s with
  | nil => rw [run, run]; rfl
  | cons e es ih =>
    have first (rest : List Element) : run site s [.visit script (e :: rest)] =
        run site (run site (visitElement site s script e).1 (visitElement site s script e).2) [.visit script rest] := by
      rw [run, run_append]
    rw [List.cons_append, first, ih, first]

/-- What has been tried was tried before, or is loaded on the way. -/
theorem loads_of_mem_visited {s : Loading} {tasks : List Task} {p : Path} (mem : p ∈ (run site s tasks).visited) :
    p ∈ s.visited ∨ Loads site ⟨s, [], tasks⟩ p := by
  fun_induction run site s tasks with
  | case1 s => exact .inl mem
  | case2 s script rest ih => exact (ih mem).imp_right fun later => later.head .finish
  | case3 s script e es rest ih =>
    rw [visited_visitElement] at ih
    exact (ih mem).imp_right fun later => later.of_reaches (reaches_visitElement site s script e es rest)
  | case4 s script rest ih => exact (ih mem).imp_right fun later => later.head .resume
  | case5 s importer path rest new tried fault read ih =>
    rcases ih mem with old | later
    · rcases List.mem_cons.1 old with rfl | old
      · exact .inr ⟨s, importer, rest, .refl⟩
      · exact .inl old
    · exact .inr (later.head (.broken new read))
  | case6 s importer path rest new tried root read ih =>
    rcases ih mem with old | later
    · rcases List.mem_cons.1 old with rfl | old
      · exact .inr ⟨s, importer, rest, .refl⟩
      · exact .inl old
    · exact .inr (later.head (.load new read))
  | case7 s importer path rest old ih => exact (ih mem).imp_right fun later => later.head (.skip old)

/-- An import that leads to a new script has its elements visited in between. -/
theorem run_import {s : Loading} {script path : Path} {imp included : Element} {after : List Element}
    (named : imp.name = "Import") (holds : (s.check site script imp).1 = true)
    (leads : resolveImport site script (importName s.bag imp) = some [path])
    (new : path.isOpenable ∧ s.hasTried path = false) (readable : readScript site.tree path = .ok included) :
    run site s [.visit script (imp :: after)] =
      run site (({ (s.check site script imp).2 with
          visited := path :: (s.check site script imp).2.visited
          scripts := (s.check site script imp).2.scripts ++ [path] } : Loading).enter path)
        [.visit path included.elements, .resume script, .visit script after] := by
  have checked := onlyNotes_check site s script imp
  have visit : visitElement site s script imp = ((s.check site script imp).2, [.load script path]) := by
    unfold visitElement
    rw [if_neg (by rw [named]; decide), if_pos named]
    simp only [holds, if_true, checked.bag]
    rw [importName] at leads
    rw [leads]
    rfl
  have new' : path.isOpenable ∧ (s.check site script imp).2.hasTried path = false := by
    rwa [Loading.hasTried, checked.visited]
  rw [run, visit]
  simp only [List.cons_append, List.nil_append]
  rw [run, if_pos new', readable]

end Parts

/-! ## Visiting a script where it is imported, and where it is included -/

/-- An element that loads nothing, whatever the properties are. -/
def IsFlat (e : Element) : Prop := e.name ≠ "Import" ∧ e.name ≠ "ImportGroup" ∧ e.name ≠ "Choose"

/-- An element does not refer to the script that it stands in before all scripts are loaded. -/
def IsAloof (e : Element) : Prop :=
  e.name = "PropertyGroup" → (∀ name ∈ conditionReferences e, isThisFile name = false) ∧
    ∀ p ∈ e.elements, ∀ name ∈ propertyReferences p, isThisFile name = false

instance (e : Element) : Decidable (IsFlat e) := inferInstanceAs (Decidable (_ ∧ _))

instance (e : Element) : Decidable (IsAloof e) := inferInstanceAs (Decidable (_ → _))

theorem tasks_of_isFlat {e : Element} (flat : IsFlat e) (site : Site) (s : Loading) (script : Path) :
    (visitElement site s script e).2 = [] := by
  obtain ⟨noImport, noImports, noChoice⟩ := flat
  unfold visitElement
  by_cases group : e.name = "PropertyGroup"
  · rw [if_pos group]
  · rw [if_neg group, if_neg noImport, if_neg noImports, if_neg noChoice]
    split <;> rfl

/-- Tasks of a script whose elements are flat. -/
inductive AreFlat (script : Path) : List Task → Prop
  | none : AreFlat script []
  | visit {es : List Element} (flat : ∀ e ∈ es, IsFlat e) : AreFlat script [.visit script es]

theorem AreFlat.step {site : Site} {script : Path} {m m' : Moment} (h : AreFlat script m.tasks) (step : Advance site m m') :
    AreFlat script m'.tasks := by
  cases step with
  | assign => exact h
  | group =>
    cases h with | visit flat
    exact .visit fun e mem => flat e (List.mem_cons_of_mem _ mem)
  | element =>
    cases h with | visit flat
    rw [tasks_of_isFlat (flat _ List.mem_cons_self)]
    exact .visit fun e mem => flat e (List.mem_cons_of_mem _ mem)
  | finish =>
    cases h with | visit
    exact .none
  | resume | skip | broken | load => cases h

theorem not_loads_of_isFlat {site : Site} {s : Loading} {script p : Path} {es : List Element}
    (flat : ∀ e ∈ es, IsFlat e) : ¬ Loads site ⟨s, [], [.visit script es]⟩ p := by
  rintro ⟨t, importer, rest, reaches⟩
  have always {m : Moment} (reaches : ReflTransGen (Advance site) ⟨s, [], [.visit script es]⟩ m) : AreFlat script m.tasks := by
    induction reaches with
    | refl => exact .visit flat
    | tail _ step ih => exact ih.step step
  cases always reaches

section Visits

variable {R : List Text → List UInt8 → List UInt8 → Prop} {tree tree' : FileTree} {entry path : Path} {s s' : Loading}

theorem Agree.visitElement (alike : tree.Alike R tree') (options : Options) (h : Agree isThisFile entry path s s')
    {e e' : Element} (same : Element.SameUpTo unplaced false e e') (flat : IsFlat e) (aloof : IsAloof e)
    (script script' : Path) :
    Agree isThisFile entry path (visitElement (siteOf tree options entry) s script e).1
        (visitElement (siteOf tree' options entry) s' script' e').1 := by
  obtain ⟨noImport, noImports, noChoice⟩ := flat
  unfold Target.visitElement
  rw [← same.name]
  by_cases group : e.name = "PropertyGroup"
  · obtain ⟨condition, properties⟩ := aloof group
    obtain ⟨holds, checked⟩ := h.check alike options same condition script script'
    have elements := same.elements
    rw [show e.isGroup = true by simp [Element.isGroup, group]] at elements
    simp only [if_pos group, holds]
    split
    · exact checked.applyProperties alike options elements properties script script'
    · exact checked
  simp only [if_neg group, if_neg noImport, if_neg noImports, if_neg noChoice]
  split
  · exact h.declare same script script'
  · exact h

theorem Agree.visitAll (alike : tree.Alike R tree') (options : Options) (h : Agree isThisFile entry path s s') {es es' : List Element}
    (same : List.Forall₂ (Element.SameUpTo unplaced false) es es') (flat : ∀ e ∈ es, IsFlat e)
    (aloof : ∀ e ∈ es, IsAloof e) (script script' : Path) :
    ∃ t t', Agree isThisFile entry path t t' ∧
      (∀ rest, run (siteOf tree options entry) s (.visit script es :: rest) = run (siteOf tree options entry) t rest) ∧
      ∀ rest, run (siteOf tree' options entry) s' (.visit script' es' :: rest) = run (siteOf tree' options entry) t' rest := by
  induction same generalizing s s' with
  | nil => exact ⟨s, s', h, fun rest => by rw [run], fun rest => by rw [run]⟩
  | @cons e e' es es' first _ ih =>
    have flat' : IsFlat e' := by
      rw [IsFlat, ← first.name]
      exact flat e List.mem_cons_self
    have next := h.visitElement alike options first (flat e List.mem_cons_self) (aloof e List.mem_cons_self) script script'
    obtain ⟨t, t', agree, runs, runs'⟩ := ih next (fun c mem => flat c (List.mem_cons_of_mem _ mem))
      fun c mem => aloof c (List.mem_cons_of_mem _ mem)
    refine ⟨t, t', agree, fun rest => ?_, fun rest => ?_⟩
    · rw [run, tasks_of_isFlat (flat e List.mem_cons_self), List.nil_append, runs]
    · rw [run, tasks_of_isFlat flat', List.nil_append, runs']

/-- Going to the imported script leaves open what names the script being visited. -/
theorem Agree.enter (h : Agree nothing entry path s s') (here : AtScript entry s'.bag) (scripts : List Path) :
    Agree isThisFile entry path (({ s with visited := path :: s.visited, scripts } : Loading).enter path) s' := by
  refine { h with values := fun name other => ?_, globals := fun name => ?_, tried := fun p other => ?_,
                  entered := List.mem_cons_of_mem _ h.entered }
  · rw [← isNamed_thisFileProperties path] at other
    exact (PropertyBag.get?_setGlobals_of_isNamed_eq_false other).trans (h.values name rfl)
  · have global : (s.bag.setGlobals (thisFileProperties path)).isGlobal name = (isThisFile name || s.bag.isGlobal name) :=
      PropertyBag.isGlobal_setGlobals _ _ _
    refine global.trans ?_
    rw [h.globals]
    cases own : isThisFile name with
    | true => rw [here.global name own]; rfl
    | false => rfl
  · have rest := h.tried p other
    simp only [Loading.hasTried, Loading.enter, List.any_cons, other, Bool.false_or] at rest ⊢
    exact rest

/-- Going back sets it as it was. -/
theorem Agree.resume (h : Agree isThisFile entry path s s') (here : AtScript entry s'.bag) :
    Agree nothing entry path (s.enter entry) s' := by
  have there : AtScript entry (s.enter entry).bag := atScript_setGlobals entry s.bag
  refine { h with values := fun name _ => ?_, globals := fun name => ?_ }
  · cases own : isThisFile name with
    | true =>
      obtain ⟨spelled, value, mem, same⟩ := exists_of_isThisFile own entry
      rw [PropertyBag.get?_eq same, there.value spelled value mem, PropertyBag.get?_eq same, here.value spelled value mem]
    | false =>
      have other : PropertyBag.isNamed (thisFileProperties entry) name = false := own
      exact (PropertyBag.get?_setGlobals_of_isNamed_eq_false other).trans (h.values name own)
  · cases own : isThisFile name with
    | true => rw [there.global name own, here.global name own]
    | false =>
      have global : (s.bag.setGlobals (thisFileProperties entry)).isGlobal name = (isThisFile name || s.bag.isGlobal name) :=
        PropertyBag.isGlobal_setGlobals _ _ _
      refine global.trans ?_
      rw [own, Bool.false_or, h.globals]

end Visits

/-! ## Entry scripts with an import -/

/-- What is loaded after some elements of the entry script. -/
def loadedAfter (tree : FileTree) (options : Options) (entry : Path) (es : List Element) : Loading :=
  run (siteOf tree options entry) (startOf options entry) [.visit entry es]

/-- A script is imported before an element of the entry script, or after it. -/
def LoadsBeside (tree : FileTree) (options : Options) (entry : Path) (before : List Element) (imp : Element)
    (after : List Element) (p : Path) : Prop :=
  Loads (siteOf tree options entry) ⟨startOf options entry, [], [.visit entry before]⟩ p ∨
    Loads (siteOf tree options entry) ⟨loadedAfter tree options entry (before ++ [imp]), [], [.visit entry after]⟩ p

/-- An element of the entry script is an import whose condition holds and which leads, without a wildcard, to a script
that no other import leads to, that imports nothing, and that does not refer to its own place. -/
structure Imports (tree : FileTree) (options : Options) (entry : Path) (root : Element) (before : List Element)
    (imp : Element) (after : List Element) (path : Path) (included : Element) : Prop where
  read : readScript tree entry = .ok root
  elements : root.elements = before ++ imp :: after
  named : imp.name = "Import"
  holds : ((loadedAfter tree options entry before).check (siteOf tree options entry) entry imp).1 = true
  plain : isWildcard (importName (loadedAfter tree options entry before).bag imp) = false
  leads : resolveImport (siteOf tree options entry) entry (importName (loadedAfter tree options entry before).bag imp) =
    some [path]
  readable : readScript tree path = .ok included
  alone : ∀ p, LoadsBeside tree options entry before imp after p → p.same path = false
  flat : ∀ e ∈ included.elements, IsFlat e
  aloof : ∀ e ∈ included.elements, IsAloof e

/-- A tree in which the entry script has the elements of an imported script in the place of the import; they may start
on other lines. -/
structure Inlines (tree : FileTree) (entry : Path) (root : Element) (before : List Element) (included : Element)
    (after : List Element) (tree' : FileTree) (root' : Element) : Prop where
  alike : tree.Alike (fun place bytes bytes' => place ≠ tree.place entry → bytes = bytes') tree'
  read : readScript tree' entry = .ok root'
  defaults : root.attribute? "DefaultTargets" = root'.attribute? "DefaultTargets"
  elements : List.Forall₂ (Element.SameUpTo unplaced false) (before ++ (included.elements ++ after)) root'.elements

theorem exists_of_forall₂_append {α β : Type} {R : α → β → Prop} {xs ys : List α} {zs : List β}
    (h : List.Forall₂ R (xs ++ ys) zs) :
    ∃ xs' ys', zs = xs' ++ ys' ∧ List.Forall₂ R xs xs' ∧ List.Forall₂ R ys ys' := by
  induction xs generalizing zs with
  | nil => exact ⟨[], zs, rfl, .nil, h⟩
  | cons x xs ih =>
    obtain _ | ⟨first, rest⟩ := h
    obtain ⟨xs', ys', rfl, left, right⟩ := ih rest
    exact ⟨_ :: xs', ys', rfl, .cons first left, right⟩

section Inclusion

variable {tree tree' : FileTree} {options : Options} {entry path : Path} {root root' included imp : Element}
  {before after : List Element}

theorem Imports.not_same_entry (h : Imports tree options entry root before imp after path included)
    (tidyEntry : entry.IsTidy) : path.same entry = false := by
  by_contra same
  rw [Bool.not_eq_false] at same
  obtain ⟨base, single, -⟩ := exists_of_resolveImport h.leads h.plain
  have tidy : path.IsTidy := by
    obtain rfl : path = Path.absolutize base _ := List.head_eq_of_cons_eq single
    exact Path.isTidy_normalize _
  -- the entry script has an import, and the included one has none
  obtain rfl := tidy.eq_of_same tidyEntry same
  have self : included = root := Except.ok.inj (h.readable.symm.trans h.read)
  have mem : imp ∈ included.elements := by rw [self, h.elements]; simp
  exact (h.flat imp mem).1 h.named

theorem Imports.new (h : Imports tree options entry root before imp after path included) (tidyEntry : entry.IsTidy) :
    path.isOpenable ∧ (loadedAfter tree options entry before).hasTried path = false := by
  obtain ⟨base, single, offered⟩ := exists_of_resolveImport h.leads h.plain
  obtain rfl : path = Path.absolutize base _ := List.head_eq_of_cons_eq single
  refine ⟨(Bool.and_eq_true_iff.1 offered).1, List.any_eq_false.2 fun p mem => ?_⟩
  rcases loads_of_mem_visited mem with old | earlier
  · obtain rfl := List.mem_singleton.1 old
    simpa using h.not_same_entry tidyEntry
  · rw [Path.same_comm]
    simpa using h.alone p (.inl earlier)

/-- What is loaded in the two trees agrees. -/
theorem Imports.agree (h : Imports tree options entry root before imp after path included) (tidyEntry : entry.IsTidy)
    (once : ∀ p, LoadsBeside tree options entry before imp after p → tree.place p = tree.place entry → p.same entry = true)
    (inlined : Inlines tree entry root before included after tree' root') :
    Agree nothing entry path (loadedAfter tree options entry root.elements)
      (run (siteOf tree' options entry) (startOf options entry) [.visit entry root'.elements]) := by
  have lockstep := lockstep_agree entry path inlined.alike options
  have apart (p : Path) (beside : LoadsBeside tree options entry before imp after p) : Apart tree entry path p :=
    ⟨h.alone p beside, once p beside⟩
  obtain ⟨before', rest', parts, sameBefore, sameRest⟩ := exists_of_forall₂_append inlined.elements
  obtain ⟨included', after', rfl, sameIncluded, sameAfter⟩ := exists_of_forall₂_append sameRest
  rw [parts, h.elements]
  -- before the import
  have first : Agree nothing entry path (loadedAfter tree options entry before) (run _ _ [.visit _ before']) :=
    lockstep.run (.refl (List.mem_singleton_self _)) (.cons (.visit sameBefore) .nil) fun p earlier => apart p (.inl earlier)
  have here := atScript_run (siteOf tree' options entry) before' (atScript_startOf options entry)
  -- the imported script
  have checked := first.quiet (quiet_check (siteOf tree options entry) _ entry imp) (.refl _)
  obtain ⟨t, t', inside, runs, runs'⟩ :=
    (checked.enter here _).visitAll inlined.alike options sameIncluded h.flat h.aloof path entry
  have ends' : run _ _ [.visit _ included'] = t' := (runs' []).trans (by rw [run])
  have resumed := inside.resume (ends' ▸ atScript_run _ included' here)
  have goesOn (es : List Element) : loadedAfter tree options entry (before ++ imp :: es) =
      run (siteOf tree options entry) (t.enter entry) [.visit entry es] := by
    rw [loadedAfter, run_visit_append]
    exact (run_import h.named h.holds h.leads (h.new tidyEntry) h.readable).trans (by rw [runs, run])
  have ends : loadedAfter tree options entry (before ++ [imp]) = t.enter entry := by
    rw [goesOn, run, run]
  -- after the import
  rw [goesOn, run_visit_append, run_visit_append, ends']
  exact lockstep.run resumed (.cons (.visit sameAfter) .nil) fun p later => apart p (.inr (ends ▸ later))

/-- **Importing a script is including it**: the entry script with an import, and the one with the elements of the imported
script instead, have the same root, order and targets, the same warnings but for those about the texts of scripts, or
the same error, if no import leads back to the entry script by another path. -/
theorem buildTree_inlined (h : Imports tree options (entryPath tree options) root before imp after path included)
    (once : ∀ p, LoadsBeside tree options (entryPath tree options) before imp after p →
      tree.place p = tree.place (entryPath tree options) → p.same (entryPath tree options) = true)
    (inlined : Inlines tree (entryPath tree options) root before included after tree' root') :
    SameOutcome (buildTree tree options) (buildTree tree' options) := by
  have tidy : (entryPath tree options).IsTidy := by
    obtain ⟨p, normal⟩ := exists_normalize_eq_entryPath tree options
    exact normal ▸ Path.isTidy_normalize p
  exact buildTree_agree inlined.alike (load_of_read h.read) (load_of_read inlined.read) (h.agree tidy once inlined)
    inlined.defaults

end Inclusion

namespace Sample

/-- The import of a script whose name depends on a property. -/
def imp : Element := ⟨"Import", [("Project", "../i$(P).targets")], 1, []⟩

/-- What the imported script says: a property gets longer. -/
def group : Element := ⟨"PropertyGroup", [], 1, [.element "P" [] 1 [.text "$(P)x"]]⟩

def target : Element := ⟨"Target", [("Name", "Build"), ("DependsOnTargets", "$(P)")], 1, []⟩

/-- The entry script is imported by another path. -/
def again : List Element := [⟨"Import", [("Project", ".?/p/a.proj")], 1, []⟩, target]

def importText : Text := "<Import Project=\"../i$(P).targets\"/>"

def groupText : Text := "<PropertyGroup><P>$(P)x</P></PropertyGroup>"

def targetText : Text := "<Target Name=\"Build\" DependsOnTargets=\"$(P)\"/>"

def againText : Text := "<Import Project=\".?/p/a.proj\"/>" ++ targetText

/-- An entry script and scripts that it may import. -/
def files (text : Text) : FileTree :=
  ⟨.dir [("w", .dir [("p", .dir [("a.proj", .file (Text.encode ("<Project>" ++ text ++ "</Project>")))]),
    ("i.targets", .file (Text.encode ("<Project>" ++ groupText ++ "</Project>"))),
    ("ix.targets", .file (Text.encode "<Project/>"))])], ["w"]⟩

def project (es : List Element) : Element := ⟨"Project", [], 1, es.map Element.node⟩

def options : Options := ⟨⟨"p/a.proj"⟩, [], [], ⟨[]⟩, none, none, false, "17.0"⟩

def entry : Path := ⟨"/w/p/a.proj"⟩

def imported : Path := ⟨"/w/i.targets"⟩

theorem alike_files (text text' : Text) :
    (files text).Alike (fun place bytes bytes' => place ≠ (files text).place entry → bytes = bytes') (files text') := by
  have place : (files text).place entry = ["a.proj".toList, "p".toList, "w".toList] := by rfl
  refine ⟨rfl, ?_⟩
  rw [place]
  simp [files, FileNode.Alike, FileNode.AlikeEntries]

theorem inlines_files {rest : Text} {es : List Element}
    (read : readScript (files (groupText ++ rest)) entry = .ok (project (group :: es)))
    (elements : (project (group :: es)).elements = group :: es) :
    Inlines (files (importText ++ rest)) entry (project (imp :: es)) [] (project [group]) es (files (groupText ++ rest))
      (project (group :: es)) where
  alike := alike_files _ _
  read := read
  defaults := rfl
  elements := by
    rw [elements]
    exact List.forall₂_same.2 fun e _ => .refl e

/-- The import of the sample leads to the script that is included in its place. -/
theorem imports_files {rest : Text} {es : List Element}
    (read : readScript (files (importText ++ rest)) entry = .ok (project (imp :: es)))
    (elements : (project (imp :: es)).elements = imp :: es)
    (leads : resolveImport (siteOf (files (importText ++ rest)) options entry) entry
      (importName (startOf options entry).bag imp) = some [imported])
    (readable : readScript (files (importText ++ rest)) imported = .ok (project [group]))
    (alone : ∀ p, LoadsBeside (files (importText ++ rest)) options entry [] imp es p → p.same imported = false) :
    Imports (files (importText ++ rest)) options entry (project (imp :: es)) [] imp es imported (project [group]) := by
  have start : loadedAfter (files (importText ++ rest)) options entry [] = startOf options entry := by
    rw [loadedAfter, run, run]
  exact {
    read, elements, readable, alone
    named := rfl
    holds := rfl
    plain := by
      rw [start]
      decide +kernel
    leads := by rw [start, leads]
    flat := by decide +kernel
    aloof := by decide +kernel }

/-- A target alone follows the import. -/
theorem imports_target : Imports (files (importText ++ targetText)) options entry (project [imp, target]) [] imp [target]
    imported (project [group]) :=
  imports_files (by decide +kernel) rfl (by decide +kernel) (by decide +kernel) fun _ beside =>
    (beside.elim (not_loads_of_isFlat (by decide)) (not_loads_of_isFlat (by decide))).elim

/-- The paths that imports lead to after the import of the sample: the entry script by another path, then the script that
the import leads to the second time, and the other path again. -/
theorem paths_again : ((runWithin (siteOf (files (importText ++ againText)) options entry) 12 (startOf options entry)
      [.visit entry [imp]]).bind fun (s, _) =>
        (runWithin (siteOf (files (importText ++ againText)) options entry) 24 s [.visit entry again]).map (·.2)) =
    some [⟨"/w/p/../p/a.proj"⟩, ⟨"/w/ix.targets"⟩, ⟨"/w/p/../p/a.proj"⟩] := by
  decide +kernel

/-- The entry script is imported again, but no other import leads to the imported script. -/
theorem imports_again : Imports (files (importText ++ againText)) options entry (project (imp :: again)) [] imp again
    imported (project [group]) := by
  refine imports_files (by decide +kernel) rfl (by decide +kernel) (by decide +kernel) fun p beside => ?_
  rcases beside with earlier | later
  · exact (not_loads_of_isFlat (by decide) earlier).elim
  · obtain ⟨⟨s, _⟩, first, rest⟩ := Option.bind_eq_some_iff.1 paths_again
    obtain ⟨⟨_, paths⟩, second, rfl⟩ := Option.map_eq_some_iff.1 rest
    rw [loadedAfter, List.nil_append, (runWithin_eq_some first).1] at later
    have paths := (runWithin_eq_some second).2 p later
    clear first second rest later
    revert p
    decide +kernel

/-- What the target of the sample depends on, if it is the root. -/
def prerequisites (text : Text) : Option (Option Text × Option (List Text)) :=
  (loadWithin 24 (files text) options entry).map fun (root, s) =>
    (selectRoot [] (root.attribute? "DefaultTargets") s.bag (tableOf (targetSite (files text) entry) s),
      ((tableOf (targetSite (files text) entry) s).get? (key "Build")).map Target.prerequisites)

theorem buildTree_files (text : Text) (names : List Text) (sought : entryPath (files text) options = entry)
    (file : (files text).isFile entry) (computed : prerequisites text = some (some ("Build".toList : Text), some names)) :
    ∃ t, buildTree (files text) options = .ok t ∧ (t.targets.get? (key "Build")).map Target.prerequisites = some names := by
  obtain ⟨⟨root, s⟩, loads, computed⟩ := Option.map_eq_some_iff.1 computed
  obtain ⟨selected, depends⟩ := Prod.mk.inj computed
  obtain ⟨build, found, -⟩ := Option.map_eq_some_iff.1 depends
  obtain ⟨read, loads⟩ := load_of_loadWithin loads
  rw [← sought] at loads file selected found depends
  exact ⟨_, buildTree_of_load file rfl loads selected found, depends⟩

end Sample

/-- The sample can be included: its import leads to a script that sets a property, and a target comes after it. -/
theorem inlined_sample : SameOutcome (buildTree (Sample.files (Sample.importText ++ Sample.targetText)) Sample.options)
    (buildTree (Sample.files (Sample.groupText ++ Sample.targetText)) Sample.options) := by
  have entry : entryPath (Sample.files (Sample.importText ++ Sample.targetText)) Sample.options = Sample.entry := by
    decide +kernel
  refine buildTree_inlined (by rw [entry]; exact Sample.imports_target) ?_
    (by rw [entry]; exact Sample.inlines_files (by decide +kernel) rfl)
  rw [entry]
  intro p beside
  exact (beside.elim (not_loads_of_isFlat (by decide)) (not_loads_of_isFlat (by decide))).elim

/-- A wildcard leads back to the entry script by another path. The import leads elsewhere the second time, but what is
included is there both times. -/
theorem buildTree_inlined_twice :
    entryPath (Sample.files (Sample.importText ++ Sample.againText)) Sample.options = Sample.entry ∧
      Imports (Sample.files (Sample.importText ++ Sample.againText)) Sample.options Sample.entry
        (Sample.project (Sample.imp :: Sample.again)) [] Sample.imp Sample.again Sample.imported
        (Sample.project [Sample.group]) ∧
      Inlines (Sample.files (Sample.importText ++ Sample.againText)) Sample.entry
        (Sample.project (Sample.imp :: Sample.again)) [] (Sample.project [Sample.group]) Sample.again
        (Sample.files (Sample.groupText ++ Sample.againText)) (Sample.project (Sample.group :: Sample.again)) ∧
      ¬ SameOutcome (buildTree (Sample.files (Sample.importText ++ Sample.againText)) Sample.options)
        (buildTree (Sample.files (Sample.groupText ++ Sample.againText)) Sample.options) := by
  refine ⟨by decide +kernel, Sample.imports_again, Sample.inlines_files (by decide +kernel) rfl, ?_⟩
  obtain ⟨t, built, once⟩ := Sample.buildTree_files (Sample.importText ++ Sample.againText) ["x"] (by decide +kernel)
    (by decide +kernel) (by decide +kernel)
  obtain ⟨t', built', twice⟩ := Sample.buildTree_files (Sample.groupText ++ Sample.againText) ["xx"] (by decide +kernel)
    (by decide +kernel) (by decide +kernel)
  rw [built, built']
  rintro (_ | same)
  have builds : (t.targets.get? (key "Build")).map Target.anonymous = (t'.targets.get? (key "Build")).map Target.anonymous := by
    rw [← get?_anonymous, same.targets, get?_anonymous]
  have lists := congrArg (Option.map Target.prerequisites) builds
  rw [Option.map_map, Option.map_map] at lists
  exact absurd (once.symm.trans (lists.trans twice)) (by decide)

end SolutionGraph.Target
