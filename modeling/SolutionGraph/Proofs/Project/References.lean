import SolutionGraph.Path.Openable
import SolutionGraph.Project.Reader
import SolutionGraph.Proofs.OrderedMap
import SolutionGraph.Proofs.Path.Normal

/-!
# What a descriptor references

A project is evaluated once for each of its configurations, and what the evaluations find is put together. Warnings are
handed from one evaluation to the next, but nothing else is: two evaluations that start with different warnings stay alike
(`State.Alike`), step by step.

An item counts in a configuration if its condition and that of its group hold, with the properties that the groups before
have set (`Descriptor.TakesIn`). An evaluation finds the references of those items and nothing else (`mentions_evaluate`), so
a project references what its descriptor declares in some configuration (`Descriptor.Declares`), each once:
`ofDescriptor_references`, `ofDescriptor_referencePaths`.
-/

namespace SolutionGraph

/-- Whether a warning is about a condition without a truth value. -/
def Warning.isCondition : Warning → Bool
  | .condition .. => true
  | _ => false

namespace Project

open Markup (Element)

/-- How a project references another one. -/
inductive Reference where
  /-- By its id. -/
  | byId (id : ProjectId)
  /-- By the path of its descriptor. -/
  | byPath (path : Path)
  deriving DecidableEq

/-- A reference as it is told in a warning. -/
def Reference.text : Reference → Text
  | .byId id => id.text
  | .byPath path => path.text

/-! ## Evaluations that differ in their warnings -/

/-- Two states differ in their warnings only. All warnings of the first one are about conditions, and the descriptors that
it references have tidy paths. -/
structure State.Alike (s t : State) : Prop where
  same : ∃ warnings, t = { s with warnings := warnings }
  noted : ∀ w ∈ s.warnings, w.isCondition
  tidy : ∀ p ∈ s.items.referencePaths, p.IsTidy

namespace Descriptor

variable {d : Descriptor} {s t : State}

theorem isCondition_noteOnce {site : Condition.Site} {bag : PropertyBag} {text? : Option Text} {warnings : List Warning}
    (noted : ∀ w ∈ warnings, w.isCondition) :
    ∀ w ∈ Condition.noteOnce warnings (site.check bag text?).2, w.isCondition := by
  intro w hw
  unfold Condition.noteOnce at hw
  split at hw
  · rename_i found told
    rcases mem_insertNew.1 hw with old | rfl
    · exact noted w old
    · unfold Condition.Site.check at told
      split at told
      · cases told
      · split at told <;> cases told
        rfl
  · exact noted w hw

/-- A visit keeps states alike. -/
def KeepsAlike (visit : State → Element → State) : Prop :=
  ∀ s t e, s.Alike t → (visit s e).Alike (visit t e)

theorem KeepsAlike.foldl {visit : State → Element → State} (h : KeepsAlike visit) (es : List Element)
    (alike : s.Alike t) : (es.foldl visit s).Alike (es.foldl visit t) := by
  induction es generalizing s t with
  | nil => exact alike
  | cons e es ih => exact ih (h s t e alike)

theorem KeepsAlike.guard {visit : State → Element → State} (h : KeepsAlike visit) : KeepsAlike (d.guard visit) := by
  rintro s _ e ⟨⟨warnings, rfl⟩, noted, tidy⟩
  have noted' : ∀ w ∈ Condition.noteOnce s.warnings (d.site.check s.bag (e.attribute? "Condition")).2, w.isCondition :=
    isCondition_noteOnce noted
  unfold Descriptor.guard
  simp only
  split
  · exact h _ _ e ⟨⟨_, rfl⟩, noted', tidy⟩
  · exact ⟨⟨_, rfl⟩, noted', tidy⟩

theorem keepsAlike_applyProperty : KeepsAlike applyProperty := by
  rintro s _ e ⟨⟨warnings, rfl⟩, noted, tidy⟩
  exact ⟨⟨warnings, rfl⟩, noted, tidy⟩

theorem keepsAlike_applyProperties : KeepsAlike d.applyProperties :=
  fun _ _ group => keepsAlike_applyProperty.guard.foldl group.elements

theorem keepsAlike_applyOption : KeepsAlike applyOption := by
  rintro s _ e ⟨⟨warnings, rfl⟩, noted, tidy⟩
  unfold applyOption
  simp only
  split
  · exact ⟨⟨warnings, rfl⟩, noted, tidy⟩
  · split
    · exact ⟨⟨warnings, rfl⟩, noted, tidy⟩
    · split <;> exact ⟨⟨warnings, rfl⟩, noted, tidy⟩

theorem keepsAlike_applyDefinitions : KeepsAlike d.applyDefinitions := by
  have definition : KeepsAlike d.applyDefinition := fun _ _ e => keepsAlike_applyOption.guard.foldl e.elements
  exact fun _ _ group => definition.guard.foldl (group.elementsNamed "ClCompile")

theorem keepsAlike_collectItem : KeepsAlike d.collectItem := by
  rintro s _ e ⟨⟨warnings, rfl⟩, noted, tidy⟩
  unfold collectItem
  simp only
  split
  · exact ⟨⟨warnings, rfl⟩, noted, tidy⟩
  · split
    · exact ⟨⟨warnings, rfl⟩, noted, tidy⟩
    · split
      · split
        · exact ⟨⟨warnings, rfl⟩, noted, tidy⟩
        · -- the paths of a reference without an id are seen from the descriptor
          refine ⟨⟨warnings, rfl⟩, noted, List.forall_mem_append.2 ⟨tidy, ?_⟩⟩
          intro p hp
          obtain ⟨raw, _, rfl⟩ := List.mem_map.1 hp
          exact Path.isTidy_normalize _
      · exact ⟨⟨warnings, rfl⟩, noted, tidy⟩

theorem keepsAlike_applyGroup : KeepsAlike d.applyGroup := by
  intro s t e alike
  unfold applyGroup
  split
  · exact keepsAlike_applyProperties s t e alike
  · split
    · exact keepsAlike_applyDefinitions s t e alike
    · split
      · exact keepsAlike_collectItem.guard.foldl e.elements alike
      · exact alike

/-- **An evaluation does not depend on the warnings before it.** -/
theorem evaluate_alike (d : Descriptor) (name : ConfigurationName) {warnings : List Warning}
    (noted : ∀ w ∈ warnings, w.isCondition) : (d.evaluate name warnings).Alike (d.evaluate name []) :=
  keepsAlike_applyGroup.guard.foldl d.element.elements ⟨⟨[], rfl⟩, noted, nofun⟩

theorem isCondition_defaultConfiguration (d : Descriptor) (declared : List ConfigurationName) :
    ∀ w ∈ (d.defaultConfiguration declared []).2, w.isCondition := by
  have alike : (start (d.baseProperties none) []).Alike (start (d.baseProperties none) []) :=
    ⟨⟨[], rfl⟩, nofun, nofun⟩
  exact (keepsAlike_applyProperties.guard.foldl (d.element.elementsNamed "PropertyGroup") alike).noted

/-! ## All configurations together -/

/-- The configurations in which a descriptor is evaluated. -/
def evaluated (d : Descriptor) : List ConfigurationName :=
  if d.declaredConfigurations.isEmpty then [(d.defaultConfiguration d.declaredConfigurations []).1]
  else d.declaredConfigurations

/-- The ids that items of the descriptor reference, in all configurations. -/
def declaredIds (d : Descriptor) : List ProjectId :=
  d.evaluated.flatMap fun name => (d.evaluate name []).items.references

/-- The paths that items of the descriptor reference without an id, in all configurations. -/
def declaredPaths (d : Descriptor) : List Path :=
  d.evaluated.flatMap fun name => (d.evaluate name []).items.referencePaths

/-! ## Items that are taken in -/

/-- The condition of an element holds. -/
def Admits (d : Descriptor) (bag : PropertyBag) (e : Element) : Prop :=
  (d.site.check bag (e.attribute? "Condition")).1 = true

/-- In a configuration an item counts, with some properties: it stands in a group of items, the conditions of both hold,
and the properties are those that the groups before have set. -/
def TakesIn (d : Descriptor) (name : ConfigurationName) (bag : PropertyBag) (item : Element) : Prop :=
  ∃ (before : List Element) (group : Element) (after : List Element),
    d.element.elements = before ++ group :: after ∧
    bag = (before.foldl (d.guard d.applyGroup) (start (d.baseProperties (some name)) [])).bag ∧
    group.name = "ItemGroup" ∧ d.Admits bag group ∧ item ∈ group.elements ∧ d.Admits bag item

/-- The references that an item makes: by its id, or by each path in its list if it has none. -/
def referencesOf (d : Descriptor) (bag : PropertyBag) (item : Element) : List Reference :=
  if item.name = "ProjectReference" then
    match referencedId? item with
    | some id => [.byId id]
    | none => (splitList (bag.expand ((item.attribute? "Include").getD []))).map fun raw =>
        .byPath (Path.absolutize d.root raw)
  else []

/-- A descriptor declares a reference: some item makes it that counts in some configuration. -/
def Declares (d : Descriptor) (r : Reference) : Prop :=
  ∃ name ∈ d.evaluated, ∃ bag item, d.TakesIn name bag item ∧ r ∈ d.referencesOf bag item

end Descriptor

/-- What holds after a run of steps held before them, or one of the steps has brought it about. -/
theorem foldl_iff_exists_append {σ ε : Type} {f : σ → ε → σ} {P : σ → Prop} {added : σ → ε → Prop}
    (step : ∀ s e, P (f s e) ↔ P s ∨ added s e) (es : List ε) (s : σ) : P (es.foldl f s) ↔
      P s ∨ ∃ before e after, es = before ++ e :: after ∧ added (before.foldl f s) e := by
  induction es generalizing s with
  | nil => simp
  | cons e es ih =>
    rw [List.foldl_cons, ih, step, or_assoc]
    refine or_congr_right ⟨?_, ?_⟩
    · rintro (here | ⟨before, e', after, rfl, later⟩)
      · exact ⟨[], e, es, rfl, here⟩
      · exact ⟨e :: before, e', after, rfl, later⟩
    · rintro ⟨before, e', after, split, h⟩
      cases before with
      | nil =>
        cases split
        exact .inl h
      | cons _ before =>
        cases split
        exact .inr ⟨before, e', after, rfl, h⟩

/-- Items have a reference. -/
def Items.Mentions (items : Items) : Reference → Prop
  | .byId id => id ∈ items.references
  | .byPath path => path ∈ items.referencePaths

namespace Descriptor

variable {d : Descriptor} {s : State} {e : Element} {r : Reference}

theorem mentions_collectItem :
    (d.collectItem s e).items.Mentions r ↔ s.items.Mentions r ∨ r ∈ d.referencesOf s.bag e := by
  unfold collectItem referencesOf
  by_cases reference : e.name = "ProjectReference"
  · have noSource : e.name ≠ "ClCompile" := reference ▸ by decide
    have noHeader : e.name ≠ "ClInclude" := reference ▸ by decide
    simp only [if_neg noSource, if_neg noHeader, if_pos reference]
    cases referencedId? e <;> cases r <;> simp [Items.Mentions, eq_comm]
  · simp only [if_neg reference, List.not_mem_nil, or_false]
    split
    · cases r <;> rfl
    · split
      · cases r <;> rfl
      · rfl

theorem bag_collectItem : (d.collectItem s e).bag = s.bag := by
  unfold collectItem
  simp only
  split
  · rfl
  · split
    · rfl
    · split
      · split <;> rfl
      · rfl

/-- What a visit adds, it adds behind a guard if the condition of the element holds. -/
theorem mentions_guard {visit : State → Element → State} (added : PropertyBag → Element → Prop)
    (step : ∀ s e, (visit s e).items.Mentions r ↔ s.items.Mentions r ∨ added s.bag e) (s : State) (e : Element) :
    (d.guard visit s e).items.Mentions r ↔ s.items.Mentions r ∨ d.Admits s.bag e ∧ added s.bag e := by
  unfold guard Admits
  simp only
  split
  · rename_i holds
    simp only [step, holds, true_and]
  · rename_i fails
    simp only [fails, Bool.false_eq_true, false_and, or_false]

/-- A group of items adds the references of those that count. -/
theorem mentions_collectGroup (s : State) (group : Element) : (d.collectGroup s group).items.Mentions r ↔
    s.items.Mentions r ∨ ∃ item ∈ group.elements, d.Admits s.bag item ∧ r ∈ d.referencesOf s.bag item := by
  -- items do not set properties, so the whole group is read with those at its start
  have bag : ∀ s e, (d.guard d.collectItem s e).bag = s.bag := by
    intro s e
    unfold guard
    simp only
    split
    · exact bag_collectItem
    · rfl
  have item : ∀ s e, (d.guard d.collectItem s e).items.Mentions r ↔
      s.items.Mentions r ∨ d.Admits s.bag e ∧ r ∈ d.referencesOf s.bag e :=
    mentions_guard (fun bag e => r ∈ d.referencesOf bag e) fun _ _ => mentions_collectItem
  unfold collectGroup
  induction group.elements generalizing s with
  | nil => simp
  | cons e es ih =>
    simp only [List.foldl_cons, ih, bag, item, List.mem_cons, or_and_right, exists_or, exists_eq_left, or_assoc]

theorem items_foldl {visit : State → Element → State} (step : ∀ s e, (visit s e).items = s.items) (es : List Element)
    (s : State) : (es.foldl (d.guard visit) s).items = s.items := by
  induction es generalizing s with
  | nil => rfl
  | cons e es ih =>
    rw [List.foldl_cons, ih]
    unfold guard
    simp only
    split
    · exact step _ e
    · rfl

theorem items_applyProperty (s : State) (e : Element) : (applyProperty s e).items = s.items := rfl

theorem items_applyOption (s : State) (e : Element) : (applyOption s e).items = s.items := by
  unfold applyOption
  simp only
  split
  · rfl
  · split
    · rfl
    · split <;> rfl

theorem mentions_applyGroup (s : State) (group : Element) : (d.applyGroup s group).items.Mentions r ↔
    s.items.Mentions r ∨ group.name = "ItemGroup" ∧
      ∃ item ∈ group.elements, d.Admits s.bag item ∧ r ∈ d.referencesOf s.bag item := by
  unfold applyGroup
  by_cases items : group.name = "ItemGroup"
  · have noProperties : group.name ≠ "PropertyGroup" := items ▸ by decide
    have noDefinitions : group.name ≠ "ItemDefinitionGroup" := items ▸ by decide
    rw [if_neg noProperties, if_neg noDefinitions, if_pos items, mentions_collectGroup]
    simp only [items, true_and]
  · simp only [items, false_and, or_false]
    have properties : (d.applyProperties s group).items = s.items := items_foldl items_applyProperty _ s
    have definitions : (d.applyDefinitions s group).items = s.items :=
      items_foldl (fun s e => items_foldl items_applyOption e.elements s) _ s
    split
    · rw [properties]
    · split
      · rw [definitions]
      · rfl

/-- **An evaluation finds the references of the items that count.** -/
theorem mentions_evaluate (d : Descriptor) (name : ConfigurationName) (r : Reference) :
    (d.evaluate name []).items.Mentions r ↔ ∃ bag item, d.TakesIn name bag item ∧ r ∈ d.referencesOf bag item := by
  have empty : ¬(start (d.baseProperties (some name)) []).items.Mentions r := by
    cases r <;> exact List.not_mem_nil
  have group : ∀ s e, (d.guard d.applyGroup s e).items.Mentions r ↔ s.items.Mentions r ∨ d.Admits s.bag e ∧
      e.name = "ItemGroup" ∧ ∃ item ∈ e.elements, d.Admits s.bag item ∧ r ∈ d.referencesOf s.bag item :=
    mentions_guard (fun bag e => e.name = "ItemGroup" ∧
      ∃ item ∈ e.elements, d.Admits bag item ∧ r ∈ d.referencesOf bag item) mentions_applyGroup
  have run := foldl_iff_exists_append (P := fun s => s.items.Mentions r) group d.element.elements
    (start (d.baseProperties (some name)) [])
  refine run.trans ((or_iff_right empty).trans ⟨?_, ?_⟩)
  · rintro ⟨before, e, after, split, admits, isGroup, item, mem, admits', makes⟩
    exact ⟨_, item, ⟨before, e, after, split, rfl, isGroup, admits, mem, admits'⟩, makes⟩
  · rintro ⟨_, item, ⟨before, e, after, split, rfl, isGroup, admits, mem, admits'⟩, makes⟩
    exact ⟨before, e, after, split, admits, isGroup, item, mem, admits', makes⟩

theorem mem_declaredIds {id : ProjectId} : id ∈ d.declaredIds ↔ d.Declares (.byId id) := by
  rw [declaredIds, List.mem_flatMap]
  exact exists_congr fun name => and_congr_right fun _ => mentions_evaluate d name (.byId id)

theorem mem_declaredPaths {path : Path} : path ∈ d.declaredPaths ↔ d.Declares (.byPath path) := by
  rw [declaredPaths, List.mem_flatMap]
  exact exists_congr fun name => and_congr_right fun _ => mentions_evaluate d name (.byPath path)

end Descriptor

/-- Tidy paths are the same place only if they are equal. -/
theorem unionPaths_eq_union {xs ys : List Path} (hx : ∀ p ∈ xs, p.IsTidy) (hy : ∀ p ∈ ys, p.IsTidy) :
    unionPaths xs ys = union xs ys := by
  unfold unionPaths union
  induction ys generalizing xs with
  | nil => rfl
  | cons y ys ih =>
    rw [List.forall_mem_cons] at hy
    have here : (if xs.any y.same then xs else xs ++ [y]) = insertNew xs y := by
      rw [insertNew]
      congr 1
      rw [eq_iff_iff, List.any_eq_true, List.contains_iff_mem]
      constructor
      · rintro ⟨x, mem, same⟩
        exact hy.1.eq_of_same (hx x mem) same ▸ mem
      · exact fun mem => ⟨y, mem, Path.same_refl y⟩
    rw [List.foldl_cons, List.foldl_cons, here]
    -- the list stays tidy with its new path
    refine ih (fun p hp => ?_) hy.2
    rcases mem_insertNew.1 hp with old | rfl
    · exact hx p old
    · exact hy.1

/-- What some configurations add up to. -/
structure Totals.Sums (d : Descriptor) (names : List ConfigurationName) (t : Totals) : Prop where
  noted : ∀ w ∈ t.warnings, w.isCondition
  references : t.items.references = union [] (names.flatMap fun name => (d.evaluate name []).items.references)
  paths : t.items.referencePaths = union [] (names.flatMap fun name => (d.evaluate name []).items.referencePaths)

/-- One more configuration adds what it declares. -/
theorem Totals.Sums.add {d : Descriptor} {names : List ConfigurationName} {t : Totals} (h : t.Sums d names)
    (name : ConfigurationName) : (t.add d name).Sums d (names ++ [name]) := by
  have alike := d.evaluate_alike name h.noted
  obtain ⟨warnings, same⟩ := alike.same
  have items : (d.evaluate name []).items = (d.evaluate name t.warnings).items := by rw [same]
  have tidy : ∀ p ∈ t.items.referencePaths, p.IsTidy := by
    intro p hp
    rw [h.paths, union, mem_foldl_insertNew] at hp
    obtain ⟨other, _, mem⟩ := List.mem_flatMap.1 (hp.resolve_left List.not_mem_nil)
    exact (d.evaluate_alike other (List.forall_mem_nil _)).tidy p mem
  refine ⟨alike.noted, ?_, ?_⟩
  · rw [List.flatMap_append, List.flatMap_singleton, items, union, List.foldl_append]
    exact congrArg (union · _) h.references
  · rw [List.flatMap_append, List.flatMap_singleton, items, union, List.foldl_append]
    exact (unionPaths_eq_union tidy alike.tidy).trans (congrArg (union · _) h.paths)

theorem Totals.Sums.foldl {d : Descriptor} {names : List ConfigurationName} {t : Totals} (h : t.Sums d names)
    (more : List ConfigurationName) : (more.foldl (Totals.add d) t).Sums d (names ++ more) := by
  induction more generalizing names t with
  | nil => simpa using h
  | cons name more ih => simpa using ih (h.add name)

section OfDescriptor

variable (d : Descriptor) (id : ProjectId) (name : Text)

theorem sums_evaluated : Totals.Sums d d.evaluated (d.evaluated.foldl (Totals.add d)
    ⟨.empty, ⟨[], [], [], []⟩, (d.defaultConfiguration d.declaredConfigurations []).2⟩) := by
  have start : Totals.Sums d [] ⟨.empty, ⟨[], [], [], []⟩, (d.defaultConfiguration d.declaredConfigurations []).2⟩ :=
    ⟨d.isCondition_defaultConfiguration d.declaredConfigurations, rfl, rfl⟩
  exact start.foldl d.evaluated

theorem ofDescriptor_references : (ofDescriptor d id name).project.references = union [] d.declaredIds :=
  (sums_evaluated d).references

theorem ofDescriptor_referencePaths : (ofDescriptor d id name).unresolvedReferencePaths = union [] d.declaredPaths :=
  (sums_evaluated d).paths

theorem isCondition_ofDescriptor : ∀ w ∈ (ofDescriptor d id name).warnings, w.isCondition := (sums_evaluated d).noted

end OfDescriptor

/-- The descriptor at a path, if there is one. -/
def Descriptor.read? (tree : FileTree) (options : Options) (path : Path) : Option Descriptor :=
  if tree.isFile path then
    match tree.readText path with
    | .ok source =>
      match Markup.parse? source with
      | some element =>
        if element.name = "Project" then some ⟨tree, path, path.parent?.getD ⟨[]⟩, element, options⟩ else none
      | none => none
    | .error _ => none
  else none

/-- Reading a project is reading its descriptor. -/
theorem toOption_parse (tree : FileTree) (options : Options) (path : Path) (id : ProjectId) (name : Text) :
    (parse tree options path id name).toOption =
      (Descriptor.read? tree options path).map fun d => ofDescriptor d id name := by
  unfold parse parseText Descriptor.read?
  by_cases isFile : tree.isFile path
  · rw [if_pos isFile, if_pos isFile]
    cases tree.readText path with
    | error cause => rfl
    | ok source =>
      simp only
      cases Markup.parse? source with
      | none => rfl
      | some element =>
        simp only
        split <;> rfl
  · rw [if_neg isFile, if_neg isFile]
    rfl

end Project

end SolutionGraph
