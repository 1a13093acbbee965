import SolutionGraph.Proofs.Include.Exact

/-!
# When a graph keeps files apart

A search that ignores case finds files by their ASCII letters and tells them apart by the small letters of all scripts. So
a file is lost if its path differs from that of another in a letter that is not ASCII, and only then:

* **`Charts.keepsApart_iff`**: a graph keeps the files apart (`Graph.KeepsApart`) exactly if their keys do;
* **`Search.tellsApart_iff`**: on a disk where no directory has two names that agree up to case, keys tell apart what is
  reached exactly if they agree for no other paths than those that agree up to case;
* **`includeGraph_keepsApart_iff`** puts this together, and `kelvin_conflated` has two files that are not kept apart.
-/

namespace SolutionGraph

namespace Include

/-- A graph keeps the files apart that a source reaches: each of them has a node of its own, and the children of a node
stand for the directives of the file at its path. -/
structure Graph.KeepsApart (g : Graph) (s : Search) (source : Path) : Prop where
  single : ∀ {p : Path}, s.Reaches source p → ∃! id, g.IsNodeOf p id
  children : ∀ {id : Nat} {n : Node}, g.nodes[id]? = some n → n.kind.isFile →
    ∃ text, s.tree.readLossy n.path = .ok text ∧
      List.Forall₂ (g.Draws s n.path) ((scanDirectives text).filter fun d => d.style != .computed) n.children

theorem Charts.keepsApart_iff {s : Search} {source : Path} {table : List ScannedFile} {g : Graph} {finished : Finished}
    (h : Charts s source table g.nodes finished) (tidy : source.IsTidy) :
    g.KeepsApart s source ↔ s.TellsApart source := by
  constructor
  · intro keeps p q reach reach' same
    obtain ⟨id, ⟨n, stands, rfl, kind⟩, _⟩ := keeps.single reach
    obtain ⟨other, ⟨m, stands', rfl, kind'⟩, _⟩ := keeps.single reach'
    -- there is one node under a key
    have known := h.known stands kind
    have known' := h.known stands' kind'
    rw [same] at known
    cases known.symm.trans known'
    cases stands.symm.trans stands'
    rfl
  · intro apart
    have exact := h.isExact apart tidy
    exact ⟨exact.single, exact.children⟩

theorem Search.tellsApart_iff {s : Search} {source : Path} (distinct : s.tree.IsCaseDistinct)
    (isFile : s.tree.isFile source) :
    s.TellsApart source ↔ ∀ p q, s.Reaches source p → s.Reaches source q → p.key s.policy = q.key s.policy →
      Text.eqIgnoringCase p.text q.text := by
  constructor
  · intro apart p q reach reach' same
    rw [apart p q reach reach' same]
    exact Text.eqIgnoringCase_iff.2 rfl
  · intro agree p q reach reach' same
    have found := reach.isFile isFile
    have found' := reach'.isFile isFile
    exact FileTree.eq_of_eqIgnoringCase distinct found found' (agree p q reach reach' same)

section Keys

variable {project : Project} {tree : FileTree} {options : Options} {source : Path} {configuration : Text} {g : Graph}

theorem keepsApart_iff_of_covers {table : List ScannedFile} (insensitive : options.policy = .insensitive)
    (distinct : tree.IsCaseDistinct)
    (covers : (project.headerSearch tree options configuration).Covers (project.listedPath source) table)
    (built : project.graphOf tree options table source configuration = .ok g) :
    g.KeepsApart (project.headerSearch tree options configuration) (project.listedPath source) ↔
      ∀ p q, (project.headerSearch tree options configuration).Reaches (project.listedPath source) p →
        (project.headerSearch tree options configuration).Reaches (project.listedPath source) q →
        Text.lower p.text = Text.lower q.text → Text.eqIgnoringCase p.text q.text := by
  obtain ⟨isFile, _, made⟩ := Project.graphOf_eq_ok built
  obtain ⟨finished, charts⟩ := charts_ofReading covers made
  have policy : (project.headerSearch tree options configuration).policy = .insensitive := insensitive
  have apart := Search.tellsApart_iff (s := project.headerSearch tree options configuration) distinct isFile
  rw [charts.keepsApart_iff (Path.isTidy_normalize _), apart]
  simp only [policy, Path.key]

end Keys

/-! ## Samples -/

/-- A source stays among files whose includes are among them. -/
theorem Search.mem_of_reaches {s : Search} {source p : Path} {files : List Path} (mem : source ∈ files)
    (closed : ∀ f ∈ files, ∀ q ∈ (s.scanned f).files, q ∈ files) (h : s.Reaches source p) : p ∈ files := by
  induction h with
  | refl => exact mem
  | tail _ step ih => exact closed _ ih _ (mem_files_scanned.2 step)

end Include

open Include

namespace Sample

/-- A disk with a header that is written in other letters than its name. -/
def mixedCase : FileTree :=
  ⟨.dir [("w", .dir [("m.c", .file (Text.encode "#include \"a.h\"\n#include \"A.H\"")),
    ("A.h", .file (Text.encode "#include \"M.C\""))])], ["w"]⟩

/-- A disk with two headers whose names differ in a letter of two scripts: the Kelvin sign, and a small k. -/
def kelvin : FileTree :=
  ⟨.dir [("w", .dir [("m.c", .file (Text.encode "#include \"\u212a.h\"\n#include \"k.h\"")),
    ("\u212a.h", .file (Text.encode "#include \"one.h\"")), ("k.h", .file (Text.encode "#include \"two.h\""))])], ["w"]⟩

end Sample

namespace Include

section Keys

variable {project : Project} {tree : FileTree} {options : Options} {source : Path} {configuration : Text} {g : Graph}

/-- **A graph that ignores case keeps files apart** exactly if no two that are reached have paths with the same small
letters that differ in more than the case of ASCII letters, whether the files are read one after the other or by workers. -/
theorem includeGraph_keepsApart_iff (insensitive : options.policy = .insensitive) (distinct : tree.IsCaseDistinct) :
    ((project.includeGraph tree options none source configuration).1 = .ok g →
      (g.KeepsApart (project.headerSearch tree options configuration) (project.listedPath source) ↔
        ∀ p q, (project.headerSearch tree options configuration).Reaches (project.listedPath source) p →
          (project.headerSearch tree options configuration).Reaches (project.listedPath source) q →
          Text.lower p.text = Text.lower q.text → Text.eqIgnoringCase p.text q.text)) ∧
    ∀ d, (project.headerSearch tree options configuration).Run
        ((project.headerSearch tree options configuration).start (project.listedPath source)) d →
      d.visits = [] → project.graphOf tree options d.table source configuration = .ok g →
      (g.KeepsApart (project.headerSearch tree options configuration) (project.listedPath source) ↔
        ∀ p q, (project.headerSearch tree options configuration).Reaches (project.listedPath source) p →
          (project.headerSearch tree options configuration).Reaches (project.listedPath source) q →
          Text.lower p.text = Text.lower q.text → Text.eqIgnoringCase p.text q.text) := by
  constructor
  · intro built
    rw [Project.includeGraph_eq_graphOf] at built
    exact keepsApart_iff_of_covers insensitive distinct (Search.discover_covers _ _) built
  · intro d run last built
    have sound := (Search.sound_start _ _).run run
    exact keepsApart_iff_of_covers insensitive distinct (sound.covers last) built

end Keys

/-- The header is written in three ways, and it has one node with its own children. -/
theorem keepsApart_mixedCase : ∃ g,
    (Sample.project.includeGraph Sample.mixedCase Sample.ignoringCase none "m.c" []).1 = .ok g ∧
      g.KeepsApart (Sample.project.headerSearch Sample.mixedCase Sample.ignoringCase [])
        (Sample.project.listedPath "m.c") := by
  have exists_graph : ∃ g, (Sample.project.includeGraph Sample.mixedCase Sample.ignoringCase none "m.c" []).1 = .ok g :=
    Project.exists_includeGraph_iff.2 ⟨by decide, by decide, "#include \"a.h\"\n#include \"A.H\"", rfl⟩
  obtain ⟨g, built⟩ := exists_graph
  refine ⟨g, built, ((includeGraph_keepsApart_iff rfl (by decide)).1 built).2 ?_⟩
  intro p q reach reach' same
  have closed : ∀ f ∈ (["/w/m.c", "/w/A.h"] : List Path),
      ∀ q ∈ ((Sample.project.headerSearch Sample.mixedCase Sample.ignoringCase []).scanned f).files,
      q ∈ (["/w/m.c", "/w/A.h"] : List Path) := by decide +kernel
  have apart : ∀ p ∈ (["/w/m.c", "/w/A.h"] : List Path), ∀ q ∈ (["/w/m.c", "/w/A.h"] : List Path),
      Text.lower p.text = Text.lower q.text → Text.eqIgnoringCase p.text q.text := by decide +kernel
  have start : Sample.project.listedPath "m.c" ∈ (["/w/m.c", "/w/A.h"] : List Path) := by decide
  exact apart p (Search.mem_of_reaches start closed reach) q (Search.mem_of_reaches start closed reach') same

/-- **Two files are taken for one** though no directory has two names that agree up to case: the names differ in the Kelvin
sign and a small k, which have the same small letter. -/
theorem kelvin_conflated : Sample.kelvin.IsCaseDistinct ∧ ∃ g,
    (Sample.project.includeGraph Sample.kelvin Sample.ignoringCase none "m.c" []).1 = .ok g ∧
      ¬ g.KeepsApart (Sample.project.headerSearch Sample.kelvin Sample.ignoringCase [])
        (Sample.project.listedPath "m.c") := by
  have distinct : Sample.kelvin.IsCaseDistinct := by decide
  have exists_graph : ∃ g, (Sample.project.includeGraph Sample.kelvin Sample.ignoringCase none "m.c" []).1 = .ok g :=
    Project.exists_includeGraph_iff.2
      ⟨by decide, by decide, "#include \"\u212a.h\"\n#include \"k.h\"", by decide +kernel⟩
  obtain ⟨g, built⟩ := exists_graph
  refine ⟨distinct, g, built, fun keeps => ?_⟩
  rw [Project.includeGraph_eq_graphOf] at built
  have agree := (keepsApart_iff_of_covers rfl distinct (Search.discover_covers _ _) built).1 keeps
  have sign : (Sample.project.headerSearch Sample.kelvin Sample.ignoringCase []).Includes
      (Sample.project.listedPath "m.c") "/w/\u212a.h" := Search.mem_files_scanned.1 (by decide +kernel)
  have letter : (Sample.project.headerSearch Sample.kelvin Sample.ignoringCase []).Includes
      (Sample.project.listedPath "m.c") "/w/k.h" := Search.mem_files_scanned.1 (by decide +kernel)
  exact absurd (agree _ _ (.single sign) (.single letter) (by decide)) (by decide)

end Include

end SolutionGraph
