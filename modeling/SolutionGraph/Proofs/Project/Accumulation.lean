import SolutionGraph.Proofs.Project.Settings
import SolutionGraph.Proofs.Project.Substitution

/-!
# Compiler options that add up

The options that count in a configuration are those whose conditions hold, with the conditions of their definitions and
groups. They are listed in the order of the text (`Descriptor.optionsIn`), and an evaluation takes in these and no others
(`compiler_evaluate`).

A list option adds up over them: its new value is put together from its text and the value before (`ListOption.AddsUp`).
**`addsUp_settings`** says so of every configuration of a project, and what the last value stands for in the settings.
-/

namespace SolutionGraph.Project

open Markup (Element)

/-! ## All options -/

/-- An option with the properties that are set where it stands. -/
abbrev PlacedOption := PropertyBag × Element

/-- The compiler options with one more option taken in. -/
def CompilerOptions.take (o : CompilerOptions) (placed : PlacedOption) : CompilerOptions :=
  (Descriptor.applyOption ⟨placed.1, o, ⟨[], [], [], []⟩, []⟩ placed.2).compiler

/-- What options set, one after the other. -/
def CompilerOptions.setBy (placed : List PlacedOption) : CompilerOptions := placed.foldl take ⟨[], [], none⟩

namespace Descriptor

variable {d : Descriptor} {s : State} {e : Element}

/-- Whether the condition of an element holds. -/
def admits (d : Descriptor) (bag : PropertyBag) (e : Element) : Bool := (d.site.check bag (e.attribute? "Condition")).1

/-- The options of a group that count: those of its definitions, where all conditions hold. -/
def optionsOf (d : Descriptor) (bag : PropertyBag) (group : Element) : List Element :=
  ((group.elementsNamed "ClCompile").filter (d.admits bag)).flatMap fun definition =>
    definition.elements.filter (d.admits bag)

/-- The options that count when groups are visited from a state on. -/
def optionsFrom (d : Descriptor) (s : State) : List Element → List PlacedOption
  | [] => []
  | group :: rest =>
    (if d.admits s.bag group ∧ group.name = "ItemDefinitionGroup" then (d.optionsOf s.bag group).map (s.bag, ·)
      else []) ++ d.optionsFrom (d.guard d.applyGroup s group) rest

/-- **The options that count in a configuration**, in the order of the text. -/
def optionsIn (d : Descriptor) (name : ConfigurationName) : List PlacedOption :=
  d.optionsFrom (start (d.baseProperties (some name)) []) d.element.elements

/-- A guarded visit changes nothing but the warnings before it asks for the condition. -/
theorem exists_guard_eq (d : Descriptor) (visit : State → Element → State) (s : State) (e : Element) :
    ∃ warnings, d.guard visit s e =
      if d.admits s.bag e then visit { s with warnings := warnings } e else { s with warnings := warnings } :=
  ⟨_, rfl⟩

/-- A visit sets the options that `f` lists, and no properties. -/
structure Sets (visit : State → Element → State) (f : PropertyBag → Element → List Element) : Prop where
  bag : ∀ s e, (visit s e).bag = s.bag
  compiler : ∀ s e, (visit s e).compiler = ((f s.bag e).map (s.bag, ·)).foldl CompilerOptions.take s.compiler

theorem sets_applyOption : Sets applyOption fun _ e => [e] := by
  constructor <;> intro s e
  · unfold applyOption
    simp only
    split
    · rfl
    · split
      · rfl
      · split <;> rfl
  · rw [List.map_singleton, List.foldl_cons, List.foldl_nil, CompilerOptions.take]
    unfold applyOption
    simp only
    split
    · rfl
    · split
      · rfl
      · split <;> rfl

/-- Visits behind guards set the options of the elements whose conditions hold. -/
theorem Sets.foldl {visit : State → Element → State} {f : PropertyBag → Element → List Element} (h : Sets visit f)
    (es : List Element) (s : State) : (es.foldl (d.guard visit) s).bag = s.bag ∧
      (es.foldl (d.guard visit) s).compiler =
        (((es.filter (d.admits s.bag)).flatMap (f s.bag)).map (s.bag, ·)).foldl CompilerOptions.take s.compiler := by
  induction es generalizing s with
  | nil => exact ⟨rfl, rfl⟩
  | cons e es ih =>
    obtain ⟨bag, compiler⟩ := ih (d.guard visit s e)
    obtain ⟨warnings, step⟩ := d.exists_guard_eq visit s e
    rw [List.foldl_cons, bag, compiler, step]
    cases holds : d.admits s.bag e with
    | true =>
      rw [if_pos rfl, h.bag, h.compiler, List.filter_cons_of_pos holds, List.flatMap_cons, List.map_append,
        List.foldl_append]
      exact ⟨rfl, rfl⟩
    | false =>
      rw [if_neg Bool.false_ne_true, List.filter_cons_of_neg (by simp [holds])]
      exact ⟨rfl, rfl⟩

theorem sets_applyDefinition :
    Sets d.applyDefinition fun bag definition => definition.elements.filter (d.admits bag) := by
  constructor <;> intro s definition
  · exact (sets_applyOption.foldl definition.elements s).1
  · have options := (sets_applyOption.foldl (d := d) definition.elements s).2
    rw [List.flatMap_singleton'] at options
    exact options

/-- Visits that set no options leave them alone. -/
theorem compiler_foldl {visit : State → Element → State} (step : ∀ s e, (visit s e).compiler = s.compiler)
    (es : List Element) (s : State) : (es.foldl (d.guard visit) s).compiler = s.compiler := by
  induction es generalizing s with
  | nil => rfl
  | cons e es ih =>
    obtain ⟨warnings, here⟩ := d.exists_guard_eq visit s e
    rw [List.foldl_cons, ih, here]
    split
    · exact step _ e
    · rfl

theorem compiler_applyProperty (s : State) (e : Element) : (applyProperty s e).compiler = s.compiler := rfl

theorem compiler_collectItem (s : State) (item : Element) : (d.collectItem s item).compiler = s.compiler := by
  unfold collectItem
  simp only
  split
  · rfl
  · split
    · rfl
    · split
      · split <;> rfl
      · rfl

/-- A group of definitions sets the options of it that count, and no other group sets any. -/
theorem compiler_applyGroup (s : State) (group : Element) : (d.applyGroup s group).compiler =
    if group.name = "ItemDefinitionGroup" then
      ((d.optionsOf s.bag group).map (s.bag, ·)).foldl CompilerOptions.take s.compiler
    else s.compiler := by
  unfold applyGroup
  by_cases definitions : group.name = "ItemDefinitionGroup"
  · have noProperties : group.name ≠ "PropertyGroup" := definitions ▸ by decide
    rw [if_neg noProperties, if_pos definitions, if_pos definitions]
    exact (sets_applyDefinition.foldl (group.elementsNamed "ClCompile") s).2
  · rw [if_neg definitions, if_neg definitions]
    split
    · exact compiler_foldl compiler_applyProperty group.elements s
    · split
      · exact compiler_foldl compiler_collectItem group.elements s
      · rfl

/-- A run over groups takes in the options that count. -/
theorem compiler_foldl_applyGroup (groups : List Element) (s : State) :
    (groups.foldl (d.guard d.applyGroup) s).compiler =
      (d.optionsFrom s groups).foldl CompilerOptions.take s.compiler := by
  induction groups generalizing s with
  | nil => rfl
  | cons group rest ih =>
    rw [List.foldl_cons, ih, optionsFrom, List.foldl_append]
    congr 1
    obtain ⟨warnings, step⟩ := d.exists_guard_eq d.applyGroup s group
    rw [step]
    by_cases holds : d.admits s.bag group
    · rw [if_pos holds, compiler_applyGroup]
      by_cases definitions : group.name = "ItemDefinitionGroup"
      · rw [if_pos definitions, if_pos ⟨holds, definitions⟩]
      · rw [if_neg definitions, if_neg fun both => definitions both.2, List.foldl_nil]
    · rw [if_neg holds, if_neg fun both => holds both.1, List.foldl_nil]

/-- **The options of an evaluation** are set by those that count in the configuration. -/
theorem compiler_evaluate (d : Descriptor) (name : ConfigurationName) :
    (d.evaluate name []).compiler = .setBy (d.optionsIn name) :=
  compiler_foldl_applyGroup d.element.elements _

end Descriptor

/-! ## Options that are lists -/

/-- The options that add up. -/
inductive ListOption where
  | includeDirs
  | defines

namespace ListOption

/-- The name of the option. -/
def name : ListOption → Text
  | .includeDirs => "AdditionalIncludeDirectories"
  | .defines => "PreprocessorDefinitions"

/-- The value of the option. -/
def value : ListOption → CompilerOptions → Text
  | .includeDirs, o => o.includeDirs
  | .defines, o => o.defines

/-- What the value stands for in the settings of a configuration: the directories of its entries, seen from the
descriptor, or the definitions that it lists. -/
def StandsFor (d : Descriptor) (s : Settings) (value : Text) : ListOption → Prop
  | .includeDirs => s.includeDirs =
      (((Text.splitOn ';' value).map Text.trim).filter fun entry => !entry.isEmpty).map (Path.absolutize d.root)
  | .defines => s.defines = parseDefines value

/-- Among options that count, those of the name have texts in which it is referred to. -/
def IsShaped (option : ListOption) (placed : List PlacedOption) : Prop :=
  ∀ p ∈ placed, p.2.name = option.name → ∃ t : Template, t.IsFor option.name ∧ p.2.text?.getD [] = t.text

/-- **How an option adds up** over the options that count. The value before one of them is that which those before it
set. -/
structure AddsUp (option : ListOption) (placed : List PlacedOption) : Prop where
  /-- At first there is no value. -/
  start : option.value (.setBy []) = []
  /-- A text that refers to the option makes the new value of the one before. -/
  next : ∀ before p (t : Template), before ++ [p] <+: placed → p.2.name = option.name → t.IsFor option.name →
    p.2.text?.getD [] = t.text →
    t.Makes option.name (option.value (.setBy before)) (option.value (.setBy (before ++ [p])))
  /-- Other options leave the value alone. -/
  other : ∀ before p, before ++ [p] <+: placed → p.2.name ≠ option.name →
    option.value (.setBy (before ++ [p])) = option.value (.setBy before)

variable {option : ListOption}

theorem semicolon_not_mem_name (option : ListOption) : ';' ∉ option.name := by
  cases option <;> decide

/-- An option of the name is accumulated. -/
theorem value_take_self {p : PlacedOption} (named : p.2.name = option.name) (o : CompilerOptions) :
    option.value (o.take p) = Descriptor.accumulate p.1 option.name (option.value o) (p.2.text?.getD []) := by
  cases option with
  | includeDirs =>
    have named' : p.2.name = "AdditionalIncludeDirectories" := named
    simp only [CompilerOptions.take, Descriptor.applyOption, if_pos named']
    rw [named]
    rfl
  | defines =>
    have named' : p.2.name = "PreprocessorDefinitions" := named
    have other : p.2.name ≠ "AdditionalIncludeDirectories" := by
      rw [named']
      decide
    simp only [CompilerOptions.take, Descriptor.applyOption, if_neg other, if_pos named']
    rw [named]
    rfl

/-- Any other option leaves the value alone. -/
theorem value_take_other {p : PlacedOption} (named : p.2.name ≠ option.name) (o : CompilerOptions) :
    option.value (o.take p) = option.value o := by
  unfold CompilerOptions.take Descriptor.applyOption
  simp only
  split
  · rename_i dirs
    cases option with
    | includeDirs => exact absurd dirs named
    | defines => rfl
  · split
    · rename_i defines
      cases option with
      | includeDirs => rfl
      | defines => exact absurd defines named
    · split <;> cases option <;> rfl

theorem setBy_concat (before : List PlacedOption) (p : PlacedOption) :
    CompilerOptions.setBy (before ++ [p]) = (CompilerOptions.setBy before).take p := by
  rw [CompilerOptions.setBy, List.foldl_append]
  rfl

theorem IsShaped.of_prefix {placed before : List PlacedOption} (h : option.IsShaped placed) (start : before <+: placed) :
    option.IsShaped before := fun p mem => h p (start.mem mem)

/-- The value has no references in it, whatever options have set it. -/
theorem IsShaped.isFree_value {placed : List PlacedOption} (h : option.IsShaped placed) :
    PropertyBag.IsFree (option.value (.setBy placed)) := by
  induction placed using List.reverseRecOn with
  | nil => cases option <;> exact fun _ => nofun
  | append_singleton before p ih =>
    have free := ih (h.of_prefix (List.prefix_append before [p]))
    rw [setBy_concat]
    by_cases named : p.2.name = option.name
    · obtain ⟨t, isFor, text⟩ := h p (by simp) named
      rw [value_take_self named, text, Descriptor.accumulate_template p.1 isFor free]
      exact isFor.isFree_fill free
    · rw [value_take_other named]
      exact free

theorem IsShaped.addsUp {placed : List PlacedOption} (h : option.IsShaped placed) : option.AddsUp placed := by
  refine ⟨by cases option <;> rfl, fun before p t start named isFor text => ?_, fun before p _ named => ?_⟩
  · have free := (h.of_prefix ((List.prefix_append before [p]).trans start)).isFree_value
    rw [setBy_concat, value_take_self named, text, Descriptor.accumulate_template p.1 isFor free]
    exact Descriptor.makes_fill option.semicolon_not_mem_name isFor _
  · rw [setBy_concat, value_take_other named]

theorem standsFor_settingsIn (d : Descriptor) (c : ConfigurationName) (option : ListOption) :
    option.StandsFor d (d.settingsIn c) (option.value (.setBy (d.optionsIn c))) := by
  rw [← d.compiler_evaluate]
  cases option <;> rfl

end ListOption

/-- **Options add up exactly.** In each configuration of a project the value of a list option is put together from the texts
that count, in which it is referred to in any case, and the settings are what the last value stands for. -/
theorem addsUp_settings {d : Descriptor} {id : ProjectId} {name : Text} {c : ConfigurationName} {s : Settings}
    {option : ListOption} (configured : (c, s) ∈ (ofDescriptor d id name).project.configurations.entries)
    (shaped : option.IsShaped (d.optionsIn c)) :
    option.AddsUp (d.optionsIn c) ∧ option.StandsFor d s (option.value (.setBy (d.optionsIn c))) := by
  rw [entries_configurations] at configured
  obtain ⟨_, _, same⟩ := List.mem_map.1 configured
  obtain ⟨rfl, rfl⟩ := Prod.mk.inj same
  exact ⟨shaped.addsUp, ListOption.standsFor_settingsIn d _ option⟩

namespace AccumulationSample

/-- A definition that sets the list of directories. -/
def definition (text : Text) : Markup.Node :=
  .element "ClCompile" [] 1 [.element "AdditionalIncludeDirectories" [] 1 [.text text]]

/-- A descriptor with two definitions, the second of which refers to what the first has set. -/
def descriptor : Descriptor where
  tree := ⟨.dir [], []⟩
  path := "/w/App.vcxproj"
  root := "/w"
  element := ⟨"Project", [], 1, [.element "ItemDefinitionGroup" [] 1
    [definition "inc;größe(", definition "a; %(additionalincludeDIRECTORIES) ;b"]]⟩
  options := ⟨none, []⟩

/-- The one configuration of the project. -/
def configuration : ConfigurationName := Descriptor.implicitConfiguration

/-- The text of the first definition, which refers to nothing. -/
def plain : Template := ⟨"inc;größe(", []⟩

/-- The text of the second definition. -/
def referring : Template := ⟨"a; ", [("%(additionalincludeDIRECTORIES)", " ;b")]⟩

theorem texts_options : (descriptor.optionsIn configuration).map (fun p => (p.2.name, p.2.text?.getD [])) =
    [(ListOption.includeDirs.name, plain.text), (ListOption.includeDirs.name, referring.text)] := by
  decide +kernel

theorem configured : (configuration, descriptor.settingsIn configuration) ∈
    (ofDescriptor descriptor ⟨List.replicate 32 ⟨3, by decide⟩, rfl⟩ "App").project.configurations.entries := by
  rw [entries_configurations]
  exact List.mem_singleton.2 rfl

theorem isShaped : ListOption.includeDirs.IsShaped (descriptor.optionsIn configuration) := by
  have plainFor : plain.IsFor ListOption.includeDirs.name :=
    ⟨by decide, nofun, nofun⟩
  have referringFor : referring.IsFor ListOption.includeDirs.name :=
    ⟨by decide, by decide, by decide⟩
  intro p mem _
  have text : (p.2.name, p.2.text?.getD []) ∈ _ := texts_options ▸ List.mem_map_of_mem mem
  simp only [List.mem_cons, List.not_mem_nil, or_false, Prod.mk.injEq] at text
  obtain ⟨_, text⟩ | ⟨_, text⟩ := text
  · exact ⟨plain, plainFor, text⟩
  · exact ⟨referring, referringFor, text⟩

end AccumulationSample

/-- The second definition of the sample puts its own directories around those of the first one. -/
theorem addsUp_sample :
    (AccumulationSample.configuration, AccumulationSample.descriptor.settingsIn AccumulationSample.configuration) ∈
        (ofDescriptor AccumulationSample.descriptor ⟨List.replicate 32 ⟨3, by decide⟩, rfl⟩
          "App").project.configurations.entries ∧
      ListOption.includeDirs.IsShaped (AccumulationSample.descriptor.optionsIn AccumulationSample.configuration) ∧
      ListOption.includeDirs.AddsUp (AccumulationSample.descriptor.optionsIn AccumulationSample.configuration) ∧
      (AccumulationSample.descriptor.settingsIn AccumulationSample.configuration).includeDirs =
        [⟨"/w/a"⟩, ⟨"/w/inc"⟩, ⟨"/w/größe("⟩, ⟨"/w/b"⟩] := by
  obtain ⟨adds, stands⟩ := addsUp_settings AccumulationSample.configured AccumulationSample.isShaped
  refine ⟨AccumulationSample.configured, AccumulationSample.isShaped, adds, stands.trans ?_⟩
  decide +kernel

end SolutionGraph.Project
