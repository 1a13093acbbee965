import SolutionGraph.Proofs.Project.References
import SolutionGraph.Proofs.Text.Lines

/-!
# What a descriptor says about directories

A project has settings for each configuration in which its descriptor is evaluated, and they are those of that evaluation
alone (`entries_configurations`). The directories in them are the normal forms of what the descriptor lists
(`map_normalize_written`).
-/

namespace SolutionGraph

instance : EquivBEq ConfigurationName where
  rfl {a} := beq_self_eq_true a.key
  symm {a b} (h : a.key == b.key) := show b.key == a.key from BEq.symm h
  trans {a b c} (h : a.key == b.key) (h' : b.key == c.key) := show a.key == c.key from BEq.trans h h'

/-- The text of a name spells the name. -/
theorem ConfigurationName.ofText_text (raw : Text) : ofText (ofText raw).text = ofText raw :=
  congrArg ConfigurationName.mk (Text.trim_trim raw)

namespace Project

namespace Descriptor

variable (d : Descriptor) (name : ConfigurationName)

/-! ## Directories as they are written -/

/-- The directories of a list, seen from the descriptor and spelled as in the list. -/
def written (raw : Text) : List Path := (splitList raw).map fun dir => d.root.join ⟨Path.withSlashes (Text.trim dir)⟩

/-- The directories of a property in a configuration. -/
def propertyDirs (property : Text) : List Path := d.written (((d.evaluate name []).bag.get? property).getD [])

/-- The directories of `AdditionalIncludeDirectories` in a configuration. -/
def additionalDirs : List Path := d.written (d.evaluate name []).compiler.includeDirs

/-- Whether `IgnoreStandardIncludePath` is true in a configuration. -/
def ignoresStandardPath : Bool := (d.evaluate name []).compiler.ignoreStandardPath == some true

/-- The public directories of a configuration: those of `PublicIncludeDirectories`, after the project's own if
`AllProjectIncludesArePublic` is true. -/
def publicDirs : List Path :=
  (if ((d.evaluate name []).bag.get? "AllProjectIncludesArePublic").bind truth? == some true then d.additionalDirs name
    else []) ++ d.propertyDirs name "PublicIncludeDirectories"

theorem map_normalize_written (raw : Text) : (d.written raw).map Path.normalize = d.directories raw := by
  rw [written, List.map_map]
  rfl

/-! ## Settings -/

/-- The settings of one configuration. -/
def settingsIn : Settings := d.settingsOf (d.evaluate name []).bag (d.evaluate name []).compiler

theorem includeDirs_settingsIn : (d.settingsIn name).includeDirs = (d.additionalDirs name).map Path.normalize :=
  (d.map_normalize_written _).symm

theorem publicIncludeDirs_settingsIn : (d.settingsIn name).publicIncludeDirs = (d.publicDirs name).map Path.normalize := by
  rw [publicDirs, List.map_append, propertyDirs, map_normalize_written]
  simp only [settingsIn, settingsOf]
  split
  · rw [additionalDirs, map_normalize_written]
  · rfl

theorem systemIncludeDirs_settingsIn : (d.settingsIn name).systemIncludeDirs =
    (d.propertyDirs name "IncludePath").map Path.normalize ++ d.options.systemIncludeDirs := by
  rw [propertyDirs, map_normalize_written]
  rfl

theorem appendSystemPaths_settingsIn : (d.settingsIn name).appendSystemPaths = !d.ignoresStandardPath name := rfl

/-! ## All configurations -/

/-- The configuration that stands in for one that the descriptor does not have. -/
def standIn : ConfigurationName := (d.defaultConfiguration d.declaredConfigurations []).1

theorem pairwise_evaluated : d.evaluated.Pairwise fun a b => (b == a) = false := by
  unfold evaluated
  split
  · exact List.pairwise_singleton _ _
  · unfold declaredConfigurations
    rw [← List.foldl_map]
    exact pairwise_foldl_insertNew .nil

/-- A descriptor that declares no configuration is evaluated in one with two parts. -/
theorem exists_ofText_defaultConfiguration (warnings : List Warning) :
    ∃ raw, (d.defaultConfiguration [] warnings).1 = .ofText raw := by
  unfold defaultConfiguration
  simp only
  split
  · rename_i name candidate _
    split at candidate
    · cases candidate
      exact ⟨_, rfl⟩
    · cases candidate
  · exact ⟨_, rfl⟩
  · rename_i declared
    cases declared
  · rename_i declared
    cases declared

/-- The names of the configurations are spelled by their texts. -/
theorem ofText_text_of_mem_evaluated {c : ConfigurationName} (mem : c ∈ d.evaluated) : .ofText c.text = c := by
  obtain ⟨raw, rfl⟩ : ∃ raw, c = .ofText raw := by
    unfold evaluated at mem
    split at mem
    · rename_i none
      obtain rfl := List.mem_singleton.1 mem
      rw [List.isEmpty_iff.1 none]
      exact d.exists_ofText_defaultConfiguration []
    · unfold declaredConfigurations at mem
      rw [← List.foldl_map] at mem
      obtain ⟨raw, _, rfl⟩ := List.mem_map.1 ((mem_of_mem_foldl_insertNew mem).resolve_left List.not_mem_nil)
      exact ⟨raw, rfl⟩
  exact ConfigurationName.ofText_text raw

end Descriptor

/-- One more configuration has the settings of its evaluation, whatever was noted before. -/
theorem Totals.configurations_add {d : Descriptor} {t : Totals} {name : ConfigurationName}
    (noted : ∀ w ∈ t.warnings, w.isCondition) (new : t.configurations.contains name = false) :
    (t.add d name).configurations.entries = t.configurations.entries ++ [(name, d.settingsIn name)] := by
  -- evaluations after different notes differ in their notes only
  obtain ⟨warnings, same⟩ := (d.evaluate_alike name noted).same
  have settings : d.settingsIn name =
      d.settingsOf (d.evaluate name t.warnings).bag (d.evaluate name t.warnings).compiler := by
    rw [Descriptor.settingsIn, same]
  rw [Totals.add, OrderedMap.insert, new, settings]
  rfl

theorem Totals.configurations_foldl {d : Descriptor} {names : List ConfigurationName} {t : Totals}
    (noted : ∀ w ∈ t.warnings, w.isCondition) (apart : names.Pairwise fun a b => (b == a) = false)
    (new : ∀ name ∈ names, t.configurations.contains name = false) :
    (names.foldl (Totals.add d) t).configurations.entries =
      t.configurations.entries ++ names.map fun name => (name, d.settingsIn name) := by
  induction names generalizing t with
  | nil => simp
  | cons name names ih =>
    rw [List.pairwise_cons] at apart
    rw [List.forall_mem_cons] at new
    have here := configurations_add (d := d) noted new.1
    have later : ∀ other ∈ names, (t.add d name).configurations.contains other = false := by
      intro other mem
      rw [OrderedMap.contains, here, List.any_append, ← OrderedMap.contains, new.2 other mem]
      simpa using BEq.symm_false (apart.1 other mem)
    rw [List.foldl_cons, ih (d.evaluate_alike name noted).noted apart.2 later, here, List.map_cons, List.append_assoc]
    rfl

/-- **The configurations of a project** are those in which its descriptor is evaluated, each with the settings of its own
evaluation. -/
theorem entries_configurations (d : Descriptor) (id : ProjectId) (name : Text) :
    (ofDescriptor d id name).project.configurations.entries = d.evaluated.map fun c => (c, d.settingsIn c) :=
  Totals.configurations_foldl (d.isCondition_defaultConfiguration d.declaredConfigurations) d.pairwise_evaluated
    fun _ _ => rfl

end Project

end SolutionGraph
