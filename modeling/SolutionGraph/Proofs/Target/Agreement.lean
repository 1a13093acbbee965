import SolutionGraph.Proofs.Target.Assembly
import SolutionGraph.Proofs.Target.Lockstep
import SolutionGraph.Proofs.Target.ThisFile

/-!
# Loadings that agree

Two states of loading agree (`Agree`) if they have the same properties, the same targets up to the scripts that declare
them, and the same failed imports. Some properties may be left open, and one script may be tried in one of them only.

Elements keep the agreement as long as they refer to no property that is left open: groups of properties
(`Agree.applyProperties`) and targets (`Agree.declare`) do, from whatever scripts. If no property is left open, all
loading keeps it (`lockstep_agree`), in two trees that differ in one script that is tried in both.
-/

namespace SolutionGraph.Target

open Markup (Element Redaction)

/-- The lines of elements do not count. -/
def unplaced : Redaction := ⟨false, fun _ => false⟩

/-- A state that differs from another one by warnings about the texts of scripts only. -/
def Quiet (s s' : Loading) : Prop :=
  ∃ ws : List Warning, (∀ w ∈ ws, w.isOfScript = true) ∧ s' = { s with findings := s.findings ++ ws.map .noted }

theorem Quiet.refl (s : Loading) : Quiet s s := ⟨[], nofun, by simp⟩

theorem quiet_check (site : Site) (s : Loading) (script : Path) (e : Element) : Quiet s (s.check site script e).2 := by
  unfold Loading.check Loading.noteOnce
  simp only
  split
  · rename_i w told
    split
    · exact .refl s
    · refine ⟨[w], fun w' mem => ?_, rfl⟩
      rw [List.mem_singleton.1 mem]
      exact isOfScript_of_check told
  · exact .refl s

/-- Two states of loading agree, but for the properties that are `free`, the scripts of targets, and whether the script
at `path` was tried. The script at `entry` was tried in the first one. -/
structure Agree (free : Text → Bool) (entry path : Path) (s s' : Loading) : Prop where
  values : ∀ name, free name = false → s.bag.get? name = s'.bag.get? name
  globals : ∀ name, s.bag.isGlobal name = s'.bag.isGlobal name
  targets : s.targets.map Declared.anonymous = s'.targets.map Declared.anonymous
  warnings : ((s.findings.map Finding.warning).filter fun w => !w.isOfScript) =
    (s'.findings.map Finding.warning).filter fun w => !w.isOfScript
  fatal : s.findings.filterMap Finding.fatal? = s'.findings.filterMap Finding.fatal?
  tried : ∀ p, p.same path = false → s.hasTried p = s'.hasTried p
  entered : entry ∈ s.visited

/-- The names of the properties that the condition of an element refers to. -/
def conditionReferences (e : Element) : List Text := ((e.attribute? "Condition").map Condition.textReferences).getD []

/-- The names of the properties that an element inside a group refers to. -/
def propertyReferences (e : Element) : List Text :=
  conditionReferences e ++ PropertyBag.references (e.text?.getD [])

namespace Agree

variable {free : Text → Bool} {entry path : Path} {s s' : Loading}

theorem refl (entered : entry ∈ s.visited) : Agree free entry path s s where
  values := fun _ _ => rfl
  globals := fun _ => rfl
  targets := rfl
  warnings := rfl
  fatal := rfl
  tried := fun _ _ => rfl
  entered := entered

theorem quiet {t t' : Loading} (h : Agree free entry path s s') (left : Quiet s t) (right : Quiet s' t') :
    Agree free entry path t t' := by
  have dropped {ws : List Warning} (ofScript : ∀ w ∈ ws, w.isOfScript = true) :
      (((ws.map Finding.noted).map Finding.warning).filter fun w => !w.isOfScript) = [] := by
    refine List.filter_eq_nil_iff.2 fun w mem => ?_
    obtain ⟨f, noted, rfl⟩ := List.mem_map.1 mem
    obtain ⟨w, told, rfl⟩ := List.mem_map.1 noted
    simp [Finding.warning, ofScript w told]
  have lenient (ws : List Warning) : (ws.map Finding.noted).filterMap Finding.fatal? = [] := by
    refine List.filterMap_eq_nil_iff.2 fun f mem => ?_
    obtain ⟨w, _, rfl⟩ := List.mem_map.1 mem
    rfl
  obtain ⟨ws, ofScript, rfl⟩ := left
  obtain ⟨ws', ofScript', rfl⟩ := right
  refine { h with warnings := ?_, fatal := ?_ }
  · simp only [List.map_append, List.filter_append, dropped ofScript, dropped ofScript', List.append_nil, h.warnings]
  · simp only [List.filterMap_append, lenient, List.append_nil, h.fatal]

theorem note (h : Agree free entry path s s') (f : Finding) : Agree free entry path (s.note f) (s'.note f) := by
  refine { h with warnings := ?_, fatal := ?_ }
  · simp only [Loading.note, List.map_append, List.filter_append, h.warnings]
  · simp only [Loading.note, List.filterMap_append, h.fatal]

theorem expand (h : Agree free entry path s s') {t : Text}
    (avoids : ∀ name ∈ PropertyBag.references t, free name = false) : s.bag.expand t = s'.bag.expand t :=
  PropertyBag.expand_congr fun name mem => h.values name (avoids name mem)

theorem declare (h : Agree free entry path s s') {inGroup : Bool} {e e' : Element}
    (same : Element.SameUpTo unplaced inGroup e e') (script script' : Path) :
    Agree free entry path (s.declare script e) (s'.declare script' e') := by
  have parse (s : Loading) (script : Path) (message : Text) : Quiet s (s.note (.noted (.parse script message))) :=
    ⟨[.parse script message], by simp [Warning.isOfScript], rfl⟩
  unfold Loading.declare
  simp only [same.attribute?]
  split
  · exact h.quiet (parse s script _) (parse s' script' _)
  · refine { h with targets := ?_ }
    simp only [List.map_append, h.targets, same.attributesBelow]
    rfl

section Trees

variable {R : List Text → List UInt8 → List UInt8 → Prop} {tree tree' : FileTree} {e e' : Element} {inGroup : Bool}
  (alike : tree.Alike R tree') (options : Options)
include alike

theorem check (h : Agree free entry path s s') (same : Element.SameUpTo unplaced inGroup e e')
    (avoids : ∀ name ∈ conditionReferences e, free name = false) (script script' : Path) :
    (s.check (siteOf tree options entry) script e).1 = (s'.check (siteOf tree' options entry) script' e').1 ∧
      Agree free entry path (s.check (siteOf tree options entry) script e).2
        (s'.check (siteOf tree' options entry) script' e').2 := by
  refine ⟨?_, h.quiet (quiet_check _ s script e) (quiet_check _ s' script' e')⟩
  unfold Loading.check siteOf
  simp only [← same.attribute?]
  rw [Condition.Site.check_fst _ _ script script']
  refine congrArg Prod.fst (Condition.Site.check_congr alike.holds_eq fun text found name mem => ?_)
  exact h.values name (avoids name (by rwa [conditionReferences, found]))

theorem applyProperty (h : Agree free entry path s s') (same : Element.SameUpTo unplaced inGroup e e')
    (avoids : ∀ name ∈ propertyReferences e, free name = false) (script script' : Path) :
    Agree free entry path (s.applyProperty (siteOf tree options entry) script e)
      (s'.applyProperty (siteOf tree' options entry) script' e') := by
  obtain ⟨holds, checked⟩ := h.check alike options same (fun name mem => avoids name (List.mem_append_left _ mem)) script script'
  have text : e.text? = e'.text? := same.text? (by simp [unplaced])
  have value : s.bag.expand (e.text?.getD []) = s'.bag.expand (e'.text?.getD []) :=
    text ▸ h.expand fun name mem => avoids name (List.mem_append_right _ mem)
  rw [applyProperty_eq, applyProperty_eq, holds]
  split
  · refine { checked with values := fun name open_ => ?_, globals := fun name => ?_ }
    · rw [PropertyBag.get?_set, PropertyBag.get?_set, same.name, value, h.globals, h.values name open_]
    · rw [PropertyBag.isGlobal_set, PropertyBag.isGlobal_set, h.globals]
  · exact checked

theorem applyProperties (h : Agree free entry path s s') {es es' : List Element}
    (same : List.Forall₂ (Element.SameUpTo unplaced true) es es') (avoids : ∀ e ∈ es, ∀ name ∈ propertyReferences e, free name = false)
    (script script' : Path) :
    Agree free entry path (es.foldl (Loading.applyProperty (siteOf tree options entry) script) s)
      (es'.foldl (Loading.applyProperty (siteOf tree' options entry) script') s') := by
  induction same generalizing s s' with
  | nil => exact h
  | @cons e e' es es' first _ ih =>
    refine ih (h.applyProperty alike options first (avoids e List.mem_cons_self) script script') fun e mem => ?_
    exact avoids e (List.mem_cons_of_mem _ mem)

end Trees

end Agree

/-! ## Going on together -/

/-- Nothing is free. -/
def nothing : Text → Bool := fun _ => false

/-- What may be loaded while two states go on together: not the script that is tried in one of them only, and the entry
script by its own path only. -/
def Apart (tree : FileTree) (entry path p : Path) : Prop :=
  p.same path = false ∧ (tree.place p = tree.place entry → p.same entry = true)

/-- Trees that differ in the entry script only are loaded alike. -/
theorem lockstep_agree {tree tree' : FileTree} (entry path : Path)
    (alike : tree.Alike (fun place bytes bytes' => place ≠ tree.place entry → bytes = bytes') tree') (options : Options) :
    Lockstep (siteOf tree options entry) (siteOf tree' options entry) unplaced (Apart tree entry path)
      (Agree nothing entry path) where
  resolve := resolveImport_alike alike _ _
  expand := fun h t => h.expand fun _ _ => rfl
  check := fun script h same => h.check alike options same (fun _ _ => rfl) script script
  assign := fun h same => h.applyProperty alike options same (fun _ _ => rfl) _ _
  declare := fun script h same => h.declare same script script
  note := fun f h => h.note f
  tried := fun h apart => h.tried _ apart.1
  read := by
    intro s s' p h apart new
    refine readScript_alike alike fun bytes bytes' related => ?_
    have elsewhere : tree.place p ≠ tree.place entry := by
      intro there
      have old : s.hasTried p = true := List.any_eq_true.2 ⟨entry, h.entered, apart.2 there⟩
      rw [new] at old
      cases old
    obtain rfl := related elsewhere
    cases scriptOf bytes with
    | error fault => exact .broken fault
    | ok root => exact .read (.refl root)
  visited := by
    intro s s' p h
    refine { h with tried := fun q other => ?_, entered := List.mem_cons_of_mem _ h.entered }
    have rest := h.tried q other
    simp only [Loading.hasTried, List.any_cons] at rest ⊢
    rw [rest]
  scripts := fun p h => { h with }
  enter := by
    intro s s' script h
    refine { h with values := fun name _ => ?_, globals := fun name => ?_ }
    · exact PropertyBag.get?_setGlobals_congr fun _ => h.values name rfl
    · exact PropertyBag.isGlobal_setGlobals_congr (h.globals name)

/-- Builds whose loadings agree have the same outcome. -/
theorem buildTree_agree {R : List Text → List UInt8 → List UInt8 → Prop} {tree tree' : FileTree} {options : Options}
    {path : Path} {loaded loaded' : Loaded} (alike : tree.Alike R tree')
    (loads : load tree options (entryPath tree options) = .ok loaded)
    (loads' : load tree' options (entryPath tree options) = .ok loaded')
    (states : Agree nothing (entryPath tree options) path loaded.state loaded'.state)
    (defaults : loaded.defaultTargets = loaded'.defaultTargets) :
    SameOutcome (buildTree tree options) (buildTree tree' options) := by
  obtain ⟨s, defaultTargets⟩ := loaded
  obtain ⟨s', _⟩ := loaded'
  obtain rfl := defaults
  have firstFatal (fs : List Finding) : Finding.firstFatal? fs = (fs.filterMap Finding.fatal?).head? :=
    List.head?_filterMap.symm
  have expand (t : Text) : s.bag.expand t = s'.bag.expand t := states.expand fun _ _ => rfl
  unfold buildTree
  rw [← entryPath_alike alike]
  simp only [← alike.isFile_eq, loads, loads', firstFatal, states.fatal]
  split
  · split
    · exact .error _
    · refine assemble_alike expand (tableOf_alike expand (fun path text? => ?_) states.targets) states.warnings
      exact congrArg Prod.fst (Condition.Site.check_congr alike.holds_eq fun _ _ name _ => states.values name rfl)
  · exact .error _

end SolutionGraph.Target
