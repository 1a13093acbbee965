import SolutionGraph.Proofs.Include.Exact
import SolutionGraph.Proofs.Include.Parallel

/-!
# Directives without a file are warned about

A directive that is computed, that leads to no file, or that leads to a file which cannot be read has a warning on behalf
of the file that it stands in. The warnings of a graph about such directives are those of its files, one for each
directive, however often the files are included:

* **`Grows.unresolved`**: what grows below a file adds the warnings of its directives and of the new files. It matters that
  open files are readable (`Readable`), as a directive that leads back to one has no warning of this kind;
* **`includeGraph_unresolved`**: so a graph warns about the directives that were read under the keys of its files. These
  are the directives of the files at their paths, if keys tell the files apart.

If they do not, a file may be warned about for what is in another one: `kelvin_warned`.
-/

namespace SolutionGraph

/-- Whether a warning is about a directive without a file. -/
def Warning.isUnresolvedInclude : Warning → Bool
  | .unresolvedInclude .. => true
  | _ => false

/-- Why a file cannot be read. -/
def FileTree.failure? (tree : FileTree) (p : Path) : Option DiskError :=
  match tree.readLossy p with
  | .ok _ => none
  | .error cause => some cause

namespace Include

/-- Why a directive has no file that can be read, by where it leads. -/
def Resolution.reason? (failure? : Path → Option DiskError) : Resolution → Option Text
  | .found file => (failure? file).map unreadableReason
  | .excluded _ => none
  | .missing searched => some (missingReason searched)
  | .computed => some computedReason

/-- The warnings about directives of a file that have no file that can be read. -/
def unresolvedOf (failure? : Path → Option DiskError) (file : Path) (includes : List Included) : List Warning :=
  includes.filterMap fun i => (i.resolution.reason? failure?).map (i.directive.warning file)

/-- The warnings about the directives of a file on disk. -/
def Search.unresolved (s : Search) (file : Path) : List Warning :=
  match s.tree.readLossy file with
  | .ok text => unresolvedOf s.tree.failure? file (s.resolveAll file (scanDirectives text))
  | .error _ => []

namespace Reading

/-- Why the file with the key of a path could not be read. -/
def failure? (r : Reading) (p : Path) : Option DiskError :=
  match r.includes? (p.key r.policy) with
  | some (.error cause) => some cause
  | _ => none

/-- The warnings about the directives that were read under the key of a path. -/
def unresolved (r : Reading) (file : Path) : List Warning :=
  match r.contents (file.key r.policy) with
  | .ok includes => unresolvedOf r.failure? file includes
  | .error _ => []

end Reading

/-- The warnings of a graph about directives without a file are those of its files, in some order. -/
def Graph.WarnsOf (g : Graph) (unresolved : Path → List Warning) : Prop :=
  (g.warnings.filter Warning.isUnresolvedInclude).Perm
    ((g.nodes.filter fun n => n.kind.isFile).flatMap fun n => unresolved n.path)

/-! ## Growing -/

section Growing

variable {r : Reading} {stack : List Frame} {including : Path} {next : Nat} {finished : Finished} {i : Included}
  {includes : List Included}

theorem unresolvedOf_cons (failure? : Path → Option DiskError) (file : Path) (i : Included) (includes : List Included) :
    unresolvedOf failure? file (i :: includes) =
      ((i.resolution.reason? failure?).map (i.directive.warning file)).toList ++ unresolvedOf failure? file includes := by
  unfold unresolvedOf
  rw [List.filterMap_cons]
  cases (i.resolution.reason? failure?).map (i.directive.warning file) <;> rfl

theorem Reading.failure?_eq_none (read : r.contents (including.key r.policy) = .ok includes) :
    r.failure? including = none := by
  unfold Reading.contents at read
  unfold Reading.failure?
  split
  · rename_i cause unread
    rw [unread] at read
    cases read
  · rfl

theorem Reading.unresolved_eq (read : r.contents (including.key r.policy) = .ok includes) :
    r.unresolved including = unresolvedOf r.failure? including includes := by
  rw [Reading.unresolved, read]

theorem Reading.failure?_eq_some {file : Path} {cause : DiskError}
    (unread : r.includes? (file.key r.policy) = some (.error cause)) : r.failure? file = some cause := by
  rw [Reading.failure?, unread]

/-- The warning about a file that cannot be read is the one about the directive that leads there. -/
theorem Reading.filter_unreadableWarnings {file : Path} (leads : i.resolution = .found file) :
    (r.unreadableWarnings including i.directive (file.key r.policy)).filter Warning.isUnresolvedInclude =
      ((i.resolution.reason? r.failure?).map (i.directive.warning including)).toList := by
  rw [leads, Resolution.reason?, Reading.failure?, Reading.unreadableWarnings]
  cases r.includes? (file.key r.policy) with
  | none => rfl
  | some read => cases read <;> rfl

/-- The open files could be read. -/
def Readable (r : Reading) (stack : List Frame) : Prop :=
  ∀ f ∈ stack, ∀ file : Path, file.key r.policy = f.key → r.failure? file = none

theorem Readable.push (h : Readable r stack) {file : Path} {inner : List Included}
    (read : r.contents (file.key r.policy) = .ok inner) : Readable r (⟨file.key r.policy, next, file⟩ :: stack) := by
  refine List.forall_mem_cons.2 ⟨fun other same => ?_, h⟩
  apply Reading.failure?_eq_none
  rw [same]
  exact read

theorem GrowsLeaf.unresolved {node : Node} {warnings : List Warning}
    (h : GrowsLeaf r stack finished including i node warnings) (readable : Readable r stack) :
    warnings.filter Warning.isUnresolvedInclude =
      ((i.resolution.reason? r.failure?).map (i.directive.warning including)).toList := by
  cases h with
  | excluded leads | missing leads =>
    rw [leads]
    rfl
  | back leads _ opened =>
    -- a directive that leads back to an open file has no warning of this kind, and needs none
    obtain ⟨inner, outer, rfl, same, _⟩ := cycleTo?_eq_some opened
    have fine := readable _ (List.mem_append_right _ List.mem_cons_self) _ same.symm
    rw [leads, Resolution.reason?, fine]
    rfl

theorem GrowsLeaf.not_isFile {node : Node} {warnings : List Warning}
    (h : GrowsLeaf r stack finished including i node warnings) : node.kind.isFile = false := by
  cases h <;> rfl

/-- **What grows below a file** warns about its directives and about those of the new files. -/
theorem Grows.unresolved {g : Growth} (h : Grows r stack including next finished includes g) (readable : Readable r stack) :
    (g.warnings.filter Warning.isUnresolvedInclude).Perm
      (unresolvedOf r.failure? including includes ++
        (g.nodes.filter fun n => n.kind.isFile).flatMap fun n => r.unresolved n.path) := by
  induction h with
  | done => exact .nil
  | computed leads _ ih =>
    rw [unresolvedOf_cons, leads, Growth.cons_warnings, List.filter_append, List.append_assoc]
    exact (ih readable).append_left _
  | shared leads _ _ ih =>
    rw [unresolvedOf_cons, Growth.cons_warnings, List.filter_append, Reading.filter_unreadableWarnings leads,
      List.append_assoc]
    exact (ih readable).append_left _
  | leaf here _ ih =>
    rw [unresolvedOf_cons, Growth.cons_warnings, List.filter_append, here.unresolved readable, Growth.cons_nodes,
      List.singleton_append, List.filter_cons_of_neg, List.append_assoc]
    · exact (ih readable).append_left _
    · simp [here.not_isFile]
  | unreadable leads _ _ unread _ ih =>
    rw [unresolvedOf_cons, leads, Resolution.reason?, Reading.failure?_eq_some unread, Growth.cons_warnings,
      List.filter_append, List.append_assoc]
    exact (ih readable).append_left _
  | @file _ including _ _ i includes inner g below file leads _ _ read _ _ ihDown ihRest =>
    have below_perm := ihDown (readable.push read)
    have rest_perm := ihRest readable
    have quiet : ((i.resolution.reason? r.failure?).map (i.directive.warning including)).toList = [] := by
      rw [leads, Resolution.reason?, Reading.failure?_eq_none read]
      rfl
    rw [unresolvedOf_cons, quiet, List.nil_append, Growth.cons_warnings, List.filter_append, Growth.cons_nodes,
      List.cons_append, List.filter_cons_of_pos rfl, List.filter_append, List.flatMap_cons, List.flatMap_append,
      Reading.unresolved_eq read]
    -- the warnings of the file that was gone through come before those of the including one
    refine (below_perm.append rest_perm).trans ?_
    have swap := List.perm_append_comm_assoc (unresolvedOf r.failure? file inner ++
      (below.nodes.filter fun n => n.kind.isFile).flatMap fun n => r.unresolved n.path)
    simpa only [List.append_assoc] using swap _ _

/-- A graph that is made from what was read warns about the directives that were read under the keys of its files. -/
theorem warnsOf_ofReading {resolved : ResolvedRules} {source : Path} {g : Graph}
    (made : Graph.ofReading r resolved source = .ok g)
    (quiet : resolved.warnings.filter Warning.isUnresolvedInclude = []) : g.WarnsOf r.unresolved := by
  obtain ⟨includes, growth, read, grows, rfl⟩ := ofReading_eq_ok made
  have nothing : Readable r [] := nofun
  have perm := grows.unresolved (nothing.push read)
  rw [Graph.WarnsOf, List.filter_append, quiet, List.nil_append, List.filter_cons_of_pos rfl, List.flatMap_cons,
    Reading.unresolved_eq read]
  exact perm

end Growing

/-! ## What was read, and what is on disk -/

section Disk

variable {s : Search} {source p : Path} {table : List ScannedFile}

theorem Search.Covers.failure?_eq (h : s.Covers source table) (apart : s.TellsApart source)
    (reach : s.Reaches source p) : Reading.failure? ⟨s.policy, table⟩ p = s.tree.failure? p := by
  have read := (h.includes?_eq_some_iff apart).2 ⟨p, reach, rfl, rfl⟩
  rw [Reading.failure?, read, FileTree.failure?]
  cases on_disk : s.tree.readLossy p with
  | error cause => rw [Search.includesOf_eq_error_iff.2 on_disk]
  | ok text => rw [Search.includesOf_eq_ok_iff.2 ⟨text, on_disk, rfl⟩]

/-- If keys tell the files apart, what was read under the key of a file is what is at its path. -/
theorem Search.Covers.unresolved_eq (h : s.Covers source table) (apart : s.TellsApart source)
    (reach : s.Reaches source p) : Reading.unresolved ⟨s.policy, table⟩ p = s.unresolved p := by
  have read := (h.includes?_eq_some_iff apart).2 ⟨p, reach, rfl, rfl⟩
  rw [Reading.unresolved, Reading.contents, read, Option.getD_some, Search.unresolved]
  cases on_disk : s.tree.readLossy p with
  | error cause => rw [Search.includesOf_eq_error_iff.2 on_disk]
  | ok text =>
    rw [Search.includesOf_eq_ok_iff.2 ⟨text, on_disk, rfl⟩]
    apply List.filterMap_congr
    intro i mem
    cases leads : i.resolution with
    | found q =>
      have includes := Search.includes_iff.2 ⟨_, Search.includesOf_eq_ok_iff.2 ⟨text, on_disk, rfl⟩, i, mem, leads⟩
      rw [Resolution.reason?, Resolution.reason?, h.failure?_eq apart (reach.tail includes)]
    | excluded | missing | computed => rfl

theorem filter_isUnresolvedInclude_searchRules (project : Project) (policy : CasePolicy) (requested : Text) :
    (project.searchRules policy requested).warnings.filter Warning.isUnresolvedInclude = [] := by
  have quiet : (project.select requested).2.filter Warning.isUnresolvedInclude = [] := by
    unfold Project.select
    split <;> rfl
  unfold Project.searchRules
  split <;> simp_all

end Disk

section Warnings

variable {project : Project} {tree : FileTree} {options : Options} {source : Path} {configuration : Text} {g : Graph}

theorem warnsOf_of_covers {table : List ScannedFile}
    (covers : (project.headerSearch tree options configuration).Covers (project.listedPath source) table)
    (built : project.graphOf tree options table source configuration = .ok g) :
    g.WarnsOf (Reading.unresolved ⟨options.policy, table⟩) ∧
      ((project.headerSearch tree options configuration).TellsApart (project.listedPath source) →
        g.WarnsOf (project.headerSearch tree options configuration).unresolved) := by
  obtain ⟨_, _, made⟩ := Project.graphOf_eq_ok built
  have warns := warnsOf_ofReading made (filter_isUnresolvedInclude_searchRules _ _ _)
  refine ⟨warns, fun apart => ?_⟩
  obtain ⟨finished, charts⟩ := charts_ofReading covers made
  refine warns.trans (List.Perm.of_eq (List.flatMap_congr fun n mem => ?_))
  obtain ⟨mem, kind⟩ := List.mem_filter.1 mem
  obtain ⟨id, stands⟩ := List.mem_iff_getElem?.1 mem
  exact covers.unresolved_eq apart (charts.reaches stands (.inl kind))

/-- **The warnings about directives without a file are exact.** They are, in some order, those of the files of the graph, one
for each directive that was read under the key of the file; and if keys tell the files apart, one for each directive of
the file at the path of the node. So it is whether the files are read one after the other or by workers. -/
theorem includeGraph_unresolved :
    ((project.includeGraph tree options none source configuration).1 = .ok g →
      g.WarnsOf (Reading.unresolved ⟨options.policy,
        ((project.headerSearch tree options configuration).discover none (project.listedPath source)).1⟩) ∧
      ((project.headerSearch tree options configuration).TellsApart (project.listedPath source) →
        g.WarnsOf (project.headerSearch tree options configuration).unresolved)) ∧
    ∀ d, (project.headerSearch tree options configuration).Run
        ((project.headerSearch tree options configuration).start (project.listedPath source)) d →
      d.visits = [] → project.graphOf tree options d.table source configuration = .ok g →
      g.WarnsOf (Reading.unresolved ⟨options.policy, d.table⟩) ∧
      ((project.headerSearch tree options configuration).TellsApart (project.listedPath source) →
        g.WarnsOf (project.headerSearch tree options configuration).unresolved) := by
  constructor
  · intro built
    rw [Project.includeGraph_eq_graphOf] at built
    exact warnsOf_of_covers (Search.discover_covers _ _) built
  · intro d run last built
    have sound := (Search.sound_start _ _).run run
    exact warnsOf_of_covers (sound.covers last) built

end Warnings

/-- The graph of the sample warns about the header that does not exist. -/
theorem unresolved_sample : ∃ g, (Sample.project.includeGraph Sample.tree .standard none "m.c" []).1 = .ok g ∧
    g.WarnsOf (Sample.project.headerSearch Sample.tree .standard []).unresolved ∧
    (Sample.project.headerSearch Sample.tree .standard []).unresolved "/w/m.c" =
      [.unresolvedInclude "/w/m.c" 2 "x.h" "not found in 1 searched directories"] := by
  obtain ⟨g, built⟩ := Sample.exists_includeGraph []
  have apart := Search.tellsApart_of_sensitive (s := Sample.project.headerSearch Sample.tree .standard []) rfl
    (Sample.project.listedPath "m.c")
  exact ⟨g, built, (includeGraph_unresolved.1 built).2 apart, by decide +kernel⟩

/-! ## A file that is warned about for another -/

section Steps

variable {r : Reading} {stack : List Frame} {including file : Path} {finished : Finished} {i : Included}

theorem place_eq_inner {includes : List Included} (leads : i.resolution = .found file)
    (new : finished.node? (file.key r.policy) = none) (closed : cycleTo? (file.key r.policy) stack = none)
    (read : r.includes? (file.key r.policy) = some (.ok includes)) :
    place r stack finished including i = .inner file includes := by
  rw [place, leads]
  simp only [placeFile, new, closed, read]

theorem place_eq_shared (includes : List Included) {id : Nat} (leads : i.resolution = .found file)
    (known : finished.node? (file.key r.policy) = some id) (read : r.includes? (file.key r.policy) = some (.ok includes)) :
    place r stack finished including i = .shared id [] := by
  rw [place, leads]
  simp only [placeFile, known, read]

end Steps

end Include

namespace Sample

open Include

/-- A disk with two headers whose names differ in a letter of two scripts, one of them in the source and the other in a
header before it. -/
def kelvinBelow : FileTree :=
  ⟨.dir [("w", .dir [("m.c", .file (Text.encode "#include \"x.h\"\n#include \"k.h\"")),
    ("x.h", .file (Text.encode "#include \"\u212a.h\"")), ("\u212a.h", .file (Text.encode "#include \"one.h\"")),
    ("k.h", .file (Text.encode "#include \"two.h\""))])], ["w"]⟩

/-- The files in the order in which they are read, without the one whose key has been claimed. -/
def kelvinTable : List ScannedFile :=
  [⟨"/w/m.c", .ok [⟨⟨1, "x.h", .quoted⟩, .found "/w/x.h"⟩, ⟨⟨2, "k.h", .quoted⟩, .found "/w/k.h"⟩]⟩,
    ⟨"/w/x.h", .ok [⟨⟨1, "\u212a.h", .quoted⟩, .found "/w/\u212a.h"⟩]⟩,
    ⟨"/w/k.h", .ok [⟨⟨1, "two.h", .quoted⟩, .missing 1⟩]⟩]

theorem discover_kelvinBelow :
    ((project.headerSearch kelvinBelow ignoringCase []).discover none (project.listedPath "m.c")).1 = kelvinTable := by
  have source := (project.headerSearch kelvinBelow ignoringCase []).discoverFrom_none_cons ["/w/m.c"]
    ⟨"/w/m.c", .ok [⟨⟨1, "x.h", .quoted⟩, .found "/w/x.h"⟩, ⟨⟨2, "k.h", .quoted⟩, .found "/w/k.h"⟩]⟩ []
    ["/w/x.h", "/w/k.h"] (by decide +kernel) (by decide +kernel)
  have above := (project.headerSearch kelvinBelow ignoringCase []).discoverFrom_none_cons ["/w/x.h", "/w/k.h", "/w/m.c"]
    ⟨"/w/x.h", .ok [⟨⟨1, "\u212a.h", .quoted⟩, .found "/w/\u212a.h"⟩]⟩ ["/w/k.h"] [] (by decide +kernel)
    (by decide +kernel)
  have last := (project.headerSearch kelvinBelow ignoringCase []).discoverFrom_none_cons ["/w/x.h", "/w/k.h", "/w/m.c"]
    ⟨"/w/k.h", .ok [⟨⟨1, "two.h", .quoted⟩, .missing 1⟩]⟩ [] [] (by decide +kernel) (by decide +kernel)
  have start : project.listedPath "m.c" = "/w/m.c" := by decide
  rw [Search.discover, start]
  refine source.trans (congrArg _ (above.trans (congrArg _ (last.trans (congrArg _ ?_)))))
  rw [List.append_nil, Search.discoverFrom]

/-- The node of the other header gets the directives that were read under its key. -/
theorem grow_kelvinBelow :
    grow ⟨.insensitive, kelvinTable⟩ [⟨"/w/m.c", 0, "/w/m.c"⟩] "/w/m.c" 1 []
        [⟨⟨1, "x.h", .quoted⟩, .found "/w/x.h"⟩, ⟨⟨2, "k.h", .quoted⟩, .found "/w/k.h"⟩] =
      ⟨[1, 2], [⟨"/w/x.h", .resolved, some ⟨1, "x.h", .quoted⟩, [2]⟩,
        ⟨"/w/\u212a.h", .resolved, some ⟨1, "\u212a.h", .quoted⟩, [3]⟩,
        ⟨"two.h", .unresolved (missingReason 1), some ⟨1, "two.h", .quoted⟩, []⟩],
        [.unresolvedInclude "/w/\u212a.h" 1 "two.h" (missingReason 1)],
        [("/w/x.h", 1), ("/w/k.h", 2)]⟩ := by
  have small : Path.key .insensitive "/w/\u212a.h" = "/w/k.h" := by decide +kernel
  have same : Path.key .insensitive "/w/x.h" = "/w/x.h" := by decide +kernel
  have sign : place ⟨.insensitive, kelvinTable⟩ [⟨"/w/x.h", 1, "/w/x.h"⟩, ⟨"/w/m.c", 0, "/w/m.c"⟩] [] "/w/x.h"
      ⟨⟨1, "\u212a.h", .quoted⟩, .found "/w/\u212a.h"⟩ =
      .inner "/w/\u212a.h" [⟨⟨1, "two.h", .quoted⟩, .missing 1⟩] :=
    place_eq_inner rfl rfl (by decide +kernel) (by decide +kernel)
  have above : place ⟨.insensitive, kelvinTable⟩ [⟨"/w/m.c", 0, "/w/m.c"⟩] [] "/w/m.c"
      ⟨⟨1, "x.h", .quoted⟩, .found "/w/x.h"⟩ =
      .inner "/w/x.h" [⟨⟨1, "\u212a.h", .quoted⟩, .found "/w/\u212a.h"⟩] :=
    place_eq_inner rfl rfl (by decide +kernel) (by decide +kernel)
  have letter : place ⟨.insensitive, kelvinTable⟩ [⟨"/w/m.c", 0, "/w/m.c"⟩] [("/w/x.h", 1), ("/w/k.h", 2)] "/w/m.c"
      ⟨⟨2, "k.h", .quoted⟩, .found "/w/k.h"⟩ = .shared 2 [] :=
    place_eq_shared [⟨⟨1, "two.h", .quoted⟩, .missing 1⟩] rfl (by decide +kernel) (by decide +kernel)
  have inSign : grow ⟨.insensitive, kelvinTable⟩
      [⟨"/w/k.h", 2, "/w/\u212a.h"⟩, ⟨"/w/x.h", 1, "/w/x.h"⟩, ⟨"/w/m.c", 0, "/w/m.c"⟩] "/w/\u212a.h" 3 []
      [⟨⟨1, "two.h", .quoted⟩, .missing 1⟩] =
      ⟨[3], [⟨"two.h", .unresolved (missingReason 1), some ⟨1, "two.h", .quoted⟩, []⟩],
        [.unresolvedInclude "/w/\u212a.h" 1 "two.h" (missingReason 1)], []⟩ := by
    rw [grow_of_leaf rfl, grow]
    rfl
  have inAbove : grow ⟨.insensitive, kelvinTable⟩ [⟨"/w/x.h", 1, "/w/x.h"⟩, ⟨"/w/m.c", 0, "/w/m.c"⟩] "/w/x.h" 2 []
      [⟨⟨1, "\u212a.h", .quoted⟩, .found "/w/\u212a.h"⟩] =
      ⟨[2], [⟨"/w/\u212a.h", .resolved, some ⟨1, "\u212a.h", .quoted⟩, [3]⟩,
        ⟨"two.h", .unresolved (missingReason 1), some ⟨1, "two.h", .quoted⟩, []⟩],
        [.unresolvedInclude "/w/\u212a.h" 1 "two.h" (missingReason 1)], [("/w/k.h", 2)]⟩ := by
    rw [← small] at inSign
    rw [grow_of_inner sign inSign, grow, small]
    rfl
  rw [← same] at inAbove
  rw [grow_of_inner above inAbove, same, grow_of_shared letter, grow]
  rfl

end Sample

/-- **A file is warned about for a directive of another one**: a node has the path of the header with the Kelvin sign, and
what is told about it is in the other header, which was read first. -/
theorem Include.kelvin_warned : Sample.kelvinBelow.IsCaseDistinct ∧ ∃ g,
    (Sample.project.includeGraph Sample.kelvinBelow Sample.ignoringCase none "m.c" []).1 = .ok g ∧
      ¬ g.WarnsOf (Sample.project.headerSearch Sample.kelvinBelow Sample.ignoringCase []).unresolved := by
  have start : Sample.project.listedPath "m.c" = "/w/m.c" := by decide
  have key : Path.key .insensitive "/w/m.c" = "/w/m.c" := by decide +kernel
  have read : Reading.includes? ⟨.insensitive, Sample.kelvinTable⟩ "/w/m.c" =
      some (.ok [⟨⟨1, "x.h", .quoted⟩, .found "/w/x.h"⟩, ⟨⟨2, "k.h", .quoted⟩, .found "/w/k.h"⟩]) := by decide +kernel
  have quiet := filter_isUnresolvedInclude_searchRules Sample.project .insensitive []
  refine ⟨by decide, ?_⟩
  rw [Project.includeGraph_eq_graphOf, Project.graphOf_eq_ofReading (by decide) (by decide), Sample.discover_kelvinBelow,
    start]
  simp only [Graph.ofReading, Sample.ignoringCase, key, read, Option.getD_some, Sample.grow_kelvinBelow, Except.ok.injEq,
    exists_eq_left']
  intro warns
  rw [Graph.WarnsOf, List.filter_append, quiet] at warns
  have told := warns.mem_iff.1 List.mem_cons_self
  revert told
  decide +kernel

end SolutionGraph
