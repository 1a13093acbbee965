import SolutionGraph.Proofs.Path.Normal

/-!
# What is left of a path when dots are folded away

* an absolute path becomes the root and a list of names (`normalComponents_of_isAbsolute`), and such a path is written by
  `Path.ofNames`;
* a relative path becomes a block of `..` and a list of names (`normalComponents_of_relative`);
* a path is **canonical** when folding leaves it alone (`Path.IsCanonical`), which is so of every path that has been folded,
  and of every path with canonical components (`isCanonical_ofComponents`).
-/

namespace SolutionGraph

namespace Path

/-! ## Names -/

/-- A text that can stand as a name between two slashes. -/
def IsName (name : Text) : Prop := (Component.name name).IsPlain

theorem IsName.innerComponent {name : Text} (h : IsName name) : innerComponent name = some (.name name) := h.1

theorem IsName.isSilent {name : Text} (h : IsName name) : isSilent name = false := by
  have inner := h.innerComponent
  unfold Path.innerComponent at inner
  split at inner
  · cases inner
  · rename_i loud
    exact Bool.eq_false_iff.2 loud

theorem IsName.ne_dots {name : Text} (h : IsName name) : name ≠ ".." := by
  rintro rfl
  cases h.innerComponent

theorem isPlain_of_mem_map_name {names : List Text} (h : ∀ name ∈ names, IsName name) :
    ∀ c ∈ names.map Component.name, c.IsPlain := by
  intro c mem
  obtain ⟨name, listed, rfl⟩ := List.mem_map.1 mem
  exact h name listed

theorem map_name_inj {names names' : List Text} : names.map Component.name = names'.map .name ↔ names = names' :=
  List.map_inj_right fun _ _ => Component.name.inj

/-! ## Shapes -/

/-- Folding leaves names, and below them the root or a block of `..`. -/
theorem IsFolded.exists_names {done : List Component} (h : IsFolded done) :
    ∃ names : List Text, done = names.map .name ++ [.root] ∨ ∃ n, done = names.map .name ++ List.replicate n .parent := by
  induction h with
  | root => exact ⟨[], .inl rfl⟩
  | above n => exact ⟨[], .inr ⟨n, rfl⟩⟩
  | name text h ih =>
    obtain ⟨names, rfl | ⟨n, rfl⟩⟩ := ih
    · exact ⟨text :: names, .inl rfl⟩
    · exact ⟨text :: names, .inr ⟨n, rfl⟩⟩

/-- An absolute path starts with the root, and goes on by plain components. -/
theorem components_of_isAbsolute {p : Path} (absolute : p.isAbsolute) :
    ∃ rest, p.components = .root :: rest ∧ ∀ c ∈ rest, c.IsPlain := by
  obtain ⟨t⟩ := p
  cases t with
  | nil => cases absolute
  | cons c body =>
    obtain rfl : c = '/' := by simpa [isAbsolute] using absolute
    exact ⟨_, rfl, fun c mem => isPlain_of_mem_inner (fun t ht => Text.not_mem_of_mem_splitOn ht) mem⟩

/-- What goes on from an absolute path is absolute. -/
theorem isAbsolute_join {d : Path} (absolute : d.isAbsolute) (p : Path) : (d.join p).isAbsolute := by
  unfold join
  split
  · rename_i anew
    rcases Bool.or_eq_true_iff.1 anew with own | empty
    · exact own
    · rw [isAbsolute, List.isEmpty_iff.1 empty] at absolute
      cases absolute
  · have start : d.text.head? = some '/' := by simpa [isAbsolute] using absolute
    split <;> simp [isAbsolute, List.head?_append, start]

/-- The directory of an absolute path is absolute. -/
theorem isAbsolute_parent? {d p : Path} (absolute : p.isAbsolute) (h : p.parent? = some d) : d.isAbsolute := by
  obtain ⟨t⟩ := p
  cases t with
  | nil => cases absolute
  | cons c body =>
    obtain rfl : c = '/' := by simpa [isAbsolute] using absolute
    obtain ⟨kept, _, rfl⟩ := Option.map_eq_some_iff.1 h
    rfl

theorem innerComponent_ne_root (segment : Text) : innerComponent segment ≠ some .root := by
  unfold innerComponent
  split
  · exact nofun
  · split <;> exact nofun

/-- A relative path does not come to the root. -/
theorem root_not_mem_components {p : Path} (relative : p.isAbsolute = false) : .root ∉ p.components := by
  unfold components
  split
  · rename_i body text
    simp [isAbsolute, text] at relative
  · split
    · exact List.not_mem_nil
    · rename_i first rest _
      rw [List.mem_append, Option.mem_toList, firstComponent, List.mem_filterMap]
      rintro (start | ⟨segment, _, inner⟩)
      · split at start
        · cases start
        · exact innerComponent_ne_root first start
      · exact innerComponent_ne_root segment inner

theorem isAbsolute_of_components {p : Path} {rest : List Component} (h : p.components = .root :: rest) :
    p.isAbsolute := by
  cases absolute : p.isAbsolute with
  | true => rfl
  | false => exact absurd (h ▸ List.mem_cons_self) (root_not_mem_components absolute)

/-- **What is left of an absolute path**: the root and names. -/
theorem normalComponents_of_isAbsolute {p : Path} (absolute : p.isAbsolute) :
    ∃ names : List Text, p.normalComponents = .root :: names.map .name := by
  obtain ⟨rest, start, plain⟩ := components_of_isAbsolute absolute
  obtain ⟨done, folded, plainDone⟩ := foldl_fold_isPlain [] (.inr rfl) (by simp) fun c hc => .inl (plain c hc)
  have whole : p.components.foldl fold [] = done ++ [.root] := by
    rw [start]
    exact folded
  obtain ⟨names, e | ⟨n, e⟩⟩ := (isFolded_components p).exists_names
  · exact ⟨names.reverse, by simp [normalComponents, e]⟩
  · -- the root has stayed at the bottom
    have root : .root ∈ names.map Component.name ++ List.replicate n .parent := by simp [← e, whole]
    simp at root

/-- **What is left of a relative path**: a block of `..`, and names. -/
theorem normalComponents_of_relative {p : Path} (relative : p.isAbsolute = false) :
    ∃ (n : Nat) (names : List Text), p.normalComponents = List.replicate n .parent ++ names.map .name := by
  have inner : ∀ c ∈ p.components, c.IsPlain ∨ c = .current := by
    rcases components_cases p with ⟨rest, start, _⟩ | inner
    · exact absurd (start ▸ List.mem_cons_self) (root_not_mem_components relative)
    · exact inner
  obtain ⟨done, folded, plainDone⟩ := foldl_fold_isPlain [] (.inl rfl) (by simp) inner
  rw [List.append_nil, List.append_nil] at folded
  obtain ⟨names, e | ⟨n, e⟩⟩ := (isFolded_components p).exists_names
  · have root : .root ∈ done := by simp [← folded, e]
    exact absurd (plainDone _ root) id
  · exact ⟨n, names.reverse, by simp [normalComponents, e]⟩

/-! ## Canonical paths -/

/-- Folding dots away leaves the path as it is spelled. -/
def IsCanonical (p : Path) : Prop := p.normalize = p

theorem isCanonical_normalize (p : Path) : p.normalize.IsCanonical := normalize_normalize p

theorem IsCanonical.isTidy {p : Path} (h : p.IsCanonical) : p.IsTidy := h ▸ isTidy_normalize p

/-- The components of a canonical path are those that folding leaves. -/
theorem IsCanonical.normalComponents_eq {p : Path} (h : p.IsCanonical) : p.normalComponents = p.components := by
  rw [← components_normalize, h]

/-- A path that is written from canonical components is canonical. -/
theorem isCanonical_ofComponents {cs : List Component} (normal : IsNormal cs) (folded : IsFolded cs.reverse) :
    (ofComponents cs).IsCanonical := by
  have same : (ofComponents cs).normalComponents = cs := by
    have left := folded.foldl_reverse
    rw [List.reverse_reverse] at left
    rw [normalComponents, components_ofComponents normal, left, List.reverse_reverse]
  rw [IsCanonical, normalize, same]

theorem IsCanonical.isFolded {p : Path} (h : p.IsCanonical) : IsFolded p.components.reverse := by
  rw [← h.normalComponents_eq, normalComponents, List.reverse_reverse]
  exact isFolded_components p

/-! ## Absolute canonical paths -/

/-- The path that goes from the root through names. -/
def ofNames (names : List Text) : Path := ofComponents (.root :: names.map .name)

section Names

variable {names : List Text}

theorem text_ofNames (h : ∀ name ∈ names, IsName name) : (ofNames names).text = '/' :: spell (names.map .name) :=
  text_ofComponents_root (isPlain_of_mem_map_name h)

theorem isAbsolute_ofNames (h : ∀ name ∈ names, IsName name) : (ofNames names).isAbsolute := by
  rw [isAbsolute, text_ofNames h]
  rfl

/-- Going on by a name. -/
theorem ofNames_concat (names : List Text) (name : Text) : ofNames (names ++ [name]) = (ofNames names).join ⟨name⟩ := by
  rw [ofNames, List.map_append, List.map_singleton, ← List.cons_append, ofComponents, List.foldl_append]
  rfl

/-- **An absolute path that is folded** goes from the root through names. -/
theorem exists_ofNames {p : Path} (absolute : p.isAbsolute) : ∃ names : List Text, (∀ name ∈ names, IsName name) ∧
    p.normalComponents = .root :: names.map .name ∧ p.normalize = ofNames names := by
  obtain ⟨names, shape⟩ := normalComponents_of_isAbsolute absolute
  refine ⟨names, ?_, shape, by rw [normalize, shape, ofNames]⟩
  obtain ⟨rest, e | e, plain⟩ := isNormal_normalComponents p
  · -- the root is no plain component
    have root : .root ∈ rest := by simp [← e, shape]
    exact absurd (plain _ root) id
  · obtain rfl : names.map Component.name = rest := (List.cons.inj (shape.symm.trans e)).2
    exact fun name mem => plain _ (List.mem_map_of_mem mem)

/-- An absolute canonical path is spelled by its names. -/
theorem IsCanonical.exists_ofNames {p : Path} (h : p.IsCanonical) (absolute : p.isAbsolute) :
    ∃ names : List Text, (∀ name ∈ names, IsName name) ∧ p.components = .root :: names.map .name ∧ p = ofNames names := by
  obtain ⟨names, plain, shape, spelled⟩ := Path.exists_ofNames absolute
  exact ⟨names, plain, h.normalComponents_eq ▸ shape, h ▸ spelled⟩

theorem isAbsolute_normalize {p : Path} (absolute : p.isAbsolute) : p.normalize.isAbsolute := by
  obtain ⟨names, plain, _, spelled⟩ := exists_ofNames absolute
  rw [spelled]
  exact isAbsolute_ofNames plain

theorem isAbsolute_absolutize {base : Path} (absolute : base.isAbsolute) (raw : Text) :
    (absolutize base raw).isAbsolute := isAbsolute_normalize (isAbsolute_join absolute _)

end Names

end Path

end SolutionGraph
