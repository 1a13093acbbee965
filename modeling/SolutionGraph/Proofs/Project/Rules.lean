import SolutionGraph.Proofs.Project.Settings
import SolutionGraph.SearchRules

/-!
# Every project has rules

A project that was read from a descriptor has the configurations in which the descriptor is evaluated (`Follows`): those that
are listed in it, each under the spelling that comes first (`declaredConfigurations_eq`), or else a default one. The default
configuration is found among them, though it is put together from properties and may be spelled in another way
(`exists_mem_evaluated_standIn`).

So no request for rules is left without an answer (`HasRules`), and **`parseText_hasRules`** says so of every text that is the
text of a descriptor.
-/

namespace SolutionGraph

theorem ConfigurationName.beq_iff_key {a b : ConfigurationName} : a == b ↔ a.key = b.key :=
  show (a.key == b.key) = true ↔ a.key = b.key from beq_iff_eq

/-- The rules that settings stand for. -/
def Settings.rules (s : Settings) (policy : CasePolicy) : SearchRules :=
  ⟨s.orderedDirectories policy, s.defines, s.appendSystemPaths⟩

namespace Project

open Markup (Element)

/-! ## Configurations and requests -/

/-- A project with the configurations of a descriptor, each with settings of its own. -/
structure Follows (p : Project) (d : Descriptor) (settings : ConfigurationName → Settings) : Prop where
  configurations : p.configurations.entries = d.evaluated.map fun c => (c, settings c)
  standIn : p.defaultConfiguration = some d.standIn

theorem follows_ofDescriptor (d : Descriptor) (id : ProjectId) (name : Text) :
    (ofDescriptor d id name).project.Follows d d.settingsIn :=
  ⟨entries_configurations d id name, rfl⟩

section Follows

variable {p : Project} {d : Descriptor} {settings : ConfigurationName → Settings}

theorem Follows.keys (h : p.Follows d settings) : p.configurations.keys = d.evaluated := by
  rw [OrderedMap.keys, h.configurations, List.map_map]
  exact List.map_id _

theorem Follows.get? (h : p.Follows d settings) (name : ConfigurationName) :
    p.configurations.get? name = (d.evaluated.find? (· == name)).map settings := by
  rw [OrderedMap.get?, h.configurations, List.find?_map, Option.map_map]
  rfl

theorem Follows.entry? (h : p.Follows d settings) (name : ConfigurationName) :
    p.entry? name = (d.evaluated.find? (· == name)).map fun c => (c, settings c) := by
  rw [ Project.entry?, h.configurations, List.find?_map]
  rfl

theorem Follows.entry?_eq_some (h : p.Follows d settings) {c name : ConfigurationName} (mem : c ∈ d.evaluated)
    (same : c == name) : p.entry? name = some (c, settings c) := by
  rw [h.entry?, find?_eq_some_of_pairwise d.pairwise_evaluated mem same]
  rfl

/-- A configuration is selected by any request that spells its name. -/
theorem Follows.select (h : p.Follows d settings) {c : ConfigurationName} (mem : c ∈ d.evaluated) {requested : Text}
    (spells : c == .ofText requested) : p.select requested = (some (c, settings c), []) := by
  rw [Project.select, h.entry?_eq_some mem spells]

/-- A request that spells no name selects the default configuration, and is told of. -/
theorem Follows.select_default (h : p.Follows d settings) {c : ConfigurationName} (mem : c ∈ d.evaluated)
    (same : c == d.standIn) {requested : Text} (unknown : ∀ c ∈ d.evaluated, ¬ c == .ofText requested) :
    p.select requested = (some (c, settings c), [.configurationNotFound p.name requested (some c.text)]) := by
  have missed : p.entry? (.ofText requested) = none := by
    rw [h.entry?, List.find?_eq_none.2 unknown]
    rfl
  have fallback : p.defaultConfiguration.bind p.entry? = some (c, settings c) := by
    rw [h.standIn, Option.bind_some, h.entry?_eq_some mem same]
  rw [Project.select, missed]
  simp only [fallback, Option.map_some]

end Follows

/-! ## What a descriptor lists -/

/-- The names that the items of a descriptor give to configurations, in the order of the text. -/
def listedConfigurations (element : Element) : List ConfigurationName :=
  ((element.elementsNamed "ItemGroup").flatMap fun group => group.elementsNamed "ProjectConfiguration").filterMap fun item =>
    (item.attribute? "Include").map .ofText

namespace Descriptor

variable (d : Descriptor)

/-- Of the names that are the same, the first is declared. -/
theorem declaredConfigurations_eq : d.declaredConfigurations = (listedConfigurations d.element).eraseDups := by
  rw [declaredConfigurations, ← List.foldl_map, List.map_filterMap, foldl_insertNew_nil]
  rfl

theorem evaluated_eq : d.evaluated =
    if (listedConfigurations d.element).isEmpty then [d.standIn] else (listedConfigurations d.element).eraseDups := by
  have same : d.declaredConfigurations.isEmpty = (listedConfigurations d.element).isEmpty := by
    rw [declaredConfigurations_eq]
    cases listedConfigurations d.element with
    | nil => rfl
    | cons c rest => rw [List.eraseDups_cons, List.isEmpty_cons, List.isEmpty_cons]
  rw [evaluated, same, declaredConfigurations_eq, standIn, declaredConfigurations_eq]

/-- A default configuration is declared, if any is. -/
theorem exists_mem_defaultConfiguration {declared : List ConfigurationName} (some : declared ≠ [])
    (warnings : List Warning) : ∃ c ∈ declared, c == (d.defaultConfiguration declared warnings).1 := by
  unfold defaultConfiguration
  simp only
  split
  · exact absurd rfl some
  · exact absurd rfl some
  · rename_i name first rest _
    split
    · rename_i known
      obtain ⟨c, mem, same⟩ := List.contains_iff_exists_mem_beq.1 known
      exact ⟨c, mem, BEq.symm same⟩
    · exact ⟨first, List.mem_cons_self, BEq.rfl⟩
  · rename_i first rest _
    exact ⟨first, List.mem_cons_self, BEq.rfl⟩

/-- **The default configuration** is one of those in which the descriptor is evaluated. -/
theorem exists_mem_evaluated_standIn : ∃ c ∈ d.evaluated, c == d.standIn := by
  unfold evaluated
  split
  · exact ⟨d.standIn, List.mem_singleton.2 rfl, BEq.rfl⟩
  · rename_i some
    exact d.exists_mem_defaultConfiguration (mt List.isEmpty_iff.2 some) []

theorem nodup_key_evaluated : (d.evaluated.map ConfigurationName.key).Nodup := by
  rw [List.nodup_iff_pairwise_ne, List.pairwise_map]
  refine d.pairwise_evaluated.imp fun apart same => ?_
  rw [ConfigurationName.beq_iff_key.2 same.symm] at apart
  cases apart

end Descriptor

/-! ## Every request is met -/

section Requests

/-- A request names a configuration of a project; blanks around it and the case of the letters `A` to `Z` do not count. -/
def Names (p : Project) (requested : Text) : Prop :=
  Text.asciiLower (Text.trim requested) ∈ p.configurations.keys.map ConfigurationName.key

/-- Every request for rules is met. -/
structure HasRules (p : Project) : Prop where
  /-- There are configurations. -/
  nonempty : p.configurations.keys ≠ []
  /-- No two of them have the same name. -/
  nodup : (p.configurations.keys.map ConfigurationName.key).Nodup
  /-- One of them is the default one. -/
  default : ∃ c, p.defaultConfiguration = some c ∧ c.key ∈ p.configurations.keys.map ConfigurationName.key
  /-- A request that names a configuration is met by its rules. -/
  named : ∀ policy requested, p.Names requested → ∃ c settings, (c, settings) ∈ p.configurations.entries ∧
    c.key = Text.asciiLower (Text.trim requested) ∧ p.searchRules policy requested = ⟨settings.rules policy, some c, []⟩
  /-- Any other request is met by the rules of the default one, and is told of. -/
  unnamed : ∀ policy requested, ¬ p.Names requested → ∃ c settings, (c, settings) ∈ p.configurations.entries ∧
    p.defaultConfiguration.map ConfigurationName.key = some c.key ∧ p.searchRules policy requested =
      ⟨settings.rules policy, some c, [.configurationNotFound p.name requested (some c.text)]⟩

variable {p : Project} {d : Descriptor} {settings : ConfigurationName → Settings}

theorem searchRules_of_select {requested : Text} {c : ConfigurationName} {s : Settings} {warnings : List Warning}
    (h : p.select requested = (some (c, s), warnings)) (policy : CasePolicy) :
    p.searchRules policy requested = ⟨s.rules policy, some c, warnings⟩ := by
  rw [searchRules, h]
  rfl

theorem Follows.mem_entries (h : p.Follows d settings) {c : ConfigurationName} (mem : c ∈ d.evaluated) :
    (c, settings c) ∈ p.configurations.entries := by
  rw [h.configurations]
  exact List.mem_map_of_mem mem

theorem Follows.names_iff (h : p.Follows d settings) {requested : Text} :
    p.Names requested ↔ ∃ c ∈ d.evaluated, c == .ofText requested := by
  rw [Names, h.keys, List.mem_map]
  exact exists_congr fun c => and_congr_right fun _ => ConfigurationName.beq_iff_key.symm

theorem Follows.hasRules (h : p.Follows d settings) : p.HasRules := by
  obtain ⟨standIn, mem, same⟩ := d.exists_mem_evaluated_standIn
  refine ⟨?_, ?_, ⟨d.standIn, h.standIn, ?_⟩, fun policy requested named => ?_, fun policy requested unnamed => ?_⟩
  · rw [h.keys]
    exact List.ne_nil_of_mem mem
  · rw [h.keys]
    exact d.nodup_key_evaluated
  · rw [h.keys, ← ConfigurationName.beq_iff_key.1 same]
    exact List.mem_map_of_mem mem
  · obtain ⟨c, mem, spells⟩ := h.names_iff.1 named
    exact ⟨c, settings c, h.mem_entries mem, ConfigurationName.beq_iff_key.1 spells,
      searchRules_of_select (h.select mem spells) policy⟩
  · have unknown : ∀ c ∈ d.evaluated, ¬ c == .ofText requested := fun c mem spells =>
      unnamed (h.names_iff.2 ⟨c, mem, spells⟩)
    refine ⟨standIn, settings standIn, h.mem_entries mem, ?_,
      searchRules_of_select (h.select_default mem same unknown) policy⟩
    rw [h.standIn, Option.map_some, ConfigurationName.beq_iff_key.1 same]

end Requests

section Parsing

variable {tree : FileTree} {options : Options} {path : Path} {id : ProjectId} {name source : Text} {parsed : Parsed}

/-- A project is read from the outermost element of its text. -/
theorem exists_element_of_parseText (read : parseText tree options path id name source = .ok parsed) :
    ∃ element, Markup.parse? source = some element ∧
      parsed = ofDescriptor ⟨tree, path, path.parent?.getD ⟨[]⟩, element, options⟩ id name := by
  unfold parseText at read
  split at read
  · cases read
  · rename_i element markup
    split at read
    · cases read
      exact ⟨element, markup, rfl⟩
    · cases read

theorem parseText_eq_ok (read : parseText tree options path id name source = .ok parsed) :
    ∃ d : Descriptor, Markup.parse? source = some d.element ∧ parsed = ofDescriptor d id name := by
  obtain ⟨element, markup, same⟩ := exists_element_of_parseText read
  exact ⟨_, markup, same⟩

/-- **A project that was read always has rules.** Its configurations are those that its descriptor lists, each once and where
it comes first, or else the default one alone. -/
theorem parseText_hasRules (read : parseText tree options path id name source = .ok parsed) :
    parsed.project.HasRules ∧
      ∃ element default, Markup.parse? source = some element ∧ parsed.project.defaultConfiguration = some default ∧
        parsed.project.configurations.keys =
          if (listedConfigurations element).isEmpty then [default] else (listedConfigurations element).eraseDups := by
  obtain ⟨d, markup, rfl⟩ := parseText_eq_ok read
  have follows := follows_ofDescriptor d id name
  exact ⟨follows.hasRules, d.element, d.standIn, markup, follows.standIn, follows.keys.trans d.evaluated_eq⟩

end Parsing

namespace RulesSample

/-- A descriptor with two configurations, the first of which is listed twice, and the second of which is the default one. -/
def source : Text :=
  "<Project><PropertyGroup><Configuration>release</Configuration><Platform>X64</Platform></PropertyGroup><ItemGroup>" ++
    "<ProjectConfiguration Include=\"Debug|x64\"/><ProjectConfiguration Include=\"Release|x64\"/>" ++
    "<ProjectConfiguration Include=\" DEBUG|X64\"/></ItemGroup></Project>"

def tree : FileTree := ⟨.dir [], []⟩

def id : ProjectId := ⟨List.replicate 32 ⟨7, by decide⟩, rfl⟩

/-- What is read from the descriptor. -/
def outcome : Except ProjectError Parsed := parseText tree ⟨none, []⟩ "/w/A.vcxproj" id "A" source

theorem keys_outcome :
    outcome.toOption.map (fun parsed => parsed.project.configurations.keys.map ConfigurationName.key) =
      some [String.toList "debug|x64", String.toList "release|x64"] := by
  decide +kernel

end RulesSample

/-- The sample has rules for a configuration that is spelled in another way, and for one that it does not have. -/
theorem hasRules_sample : ∃ parsed, RulesSample.outcome = .ok parsed ∧ parsed.project.HasRules ∧
    parsed.project.Names " debug|X64" ∧ ¬ parsed.project.Names "Debug" := by
  have keys := RulesSample.keys_outcome
  cases read : RulesSample.outcome with
  | error cause =>
    rw [read] at keys
    cases keys
  | ok parsed =>
    rw [read] at keys
    have known : parsed.project.configurations.keys.map ConfigurationName.key =
        [String.toList "debug|x64", String.toList "release|x64"] := Option.some.inj keys
    refine ⟨parsed, rfl, (parseText_hasRules read).1, ?_, ?_⟩
    · rw [Names, known]
      decide
    · rw [Names, known]
      decide

end Project

end SolutionGraph
