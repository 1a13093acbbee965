import Mathlib.Data.List.Forall2
import Mathlib.Data.List.Nodup
import SolutionGraph.FileTree.Find
import SolutionGraph.Proofs.Path.Normal

/-!
# What is found, and how it is spelled

A file that is found exists and has a tidy path (`findFile_eq_some`), also if its components had to be sought in listings:
`stepIgnoringCase` puts a component in place of one that it matches (`Component.Matches`), and so does the whole search
(`findIgnoringCase_eq_some`).

On a disk where no directory has two names that agree up to case (`FileTree.IsCaseDistinct`) a file has one spelling:
`eq_of_eqIgnoringCase`.
-/

namespace SolutionGraph

/-! ## Letters without case -/

namespace Text

/-- Whether a character is a letter from `A` to `Z` or from `a` to `z`. -/
def isAsciiLetter (c : Char) : Bool := (65 ≤ c.toNat && c.toNat ≤ 90) || (97 ≤ c.toNat && c.toNat ≤ 122)

theorem lowerAscii_of_not_isAsciiLetter {c : Char} (h : isAsciiLetter c = false) : lowerAscii c = c := by
  have lower : ¬ ('A' ≤ c ∧ c ≤ 'Z') := by
    rintro ⟨low, high⟩
    have low : 65 ≤ c.toNat := low
    have high : c.toNat ≤ 90 := high
    simp [isAsciiLetter, low, high] at h
  rw [lowerAscii, if_neg lower]

theorem isAsciiLetter_lowerAscii (c : Char) : isAsciiLetter (lowerAscii c) = isAsciiLetter c := by
  unfold lowerAscii
  split
  · rename_i capital
    have low : 65 ≤ c.toNat := capital.1
    have high : c.toNat ≤ 90 := capital.2
    have valid : (c.toNat + 32).isValidChar := .inl (by omega)
    have value : (Char.ofNat (c.toNat + 32)).toNat = c.toNat + 32 := by
      rw [Char.ofNat, dif_pos valid]
      rfl
    rw [Bool.eq_iff_iff]
    simp only [isAsciiLetter, value, Bool.or_eq_true, Bool.and_eq_true, decide_eq_true_eq]
    omega
  · rfl

/-- Only a character without case has the small letter of one. -/
theorem eq_of_lowerAscii_eq {c d : Char} (h : lowerAscii c = lowerAscii d) (plain : isAsciiLetter c = false) : c = d := by
  have plain' : isAsciiLetter d = false := by
    rw [← isAsciiLetter_lowerAscii, ← h, isAsciiLetter_lowerAscii]
    exact plain
  rwa [lowerAscii_of_not_isAsciiLetter plain, lowerAscii_of_not_isAsciiLetter plain'] at h

theorem eqIgnoringCase_iff {s t : Text} : eqIgnoringCase s t ↔ asciiLower s = asciiLower t := by simp [eqIgnoringCase]

theorem isAsciiLetter_of_dots {t : Text} (dots : t = "." ∨ t = "..") : ∀ c ∈ t, isAsciiLetter c = false := by
  intro c mem
  have dot : c = '.' := by
    rcases dots with rfl | rfl <;> simpa using mem
  rw [dot]
  rfl

/-- A text without letters agrees with itself only. -/
theorem eq_of_asciiLower_eq {s t : Text} (h : asciiLower s = asciiLower t) (plain : ∀ c ∈ s, isAsciiLetter c = false) :
    s = t := by
  induction s generalizing t with
  | nil => simpa [asciiLower] using h.symm
  | cons c s ih =>
    cases t with
    | nil => simp [asciiLower] at h
    | cons d t =>
      simp only [asciiLower, List.map_cons, List.cons.injEq] at h
      rw [eq_of_lowerAscii_eq h.1 (plain c List.mem_cons_self), ih h.2 fun x hx => plain x (List.mem_cons_of_mem _ hx)]

theorem mem_of_asciiLower_eq {s t : Text} (h : asciiLower s = asciiLower t) {c : Char}
    (plain : isAsciiLetter c = false) (mem : c ∈ s) : c ∈ t := by
  have lower : lowerAscii c ∈ asciiLower t := h ▸ List.mem_map_of_mem mem
  obtain ⟨d, hd, e⟩ := List.mem_map.1 lower
  exact eq_of_lowerAscii_eq e.symm plain ▸ hd

/-- A text is cut where it is cut in small letters, if the separator is no letter. -/
theorem splitOn_asciiLower {separator : Char} (plain : isAsciiLetter separator = false) (t : Text) :
    splitOn separator (asciiLower t) = (splitOn separator t).map asciiLower := by
  have lower := lowerAscii_of_not_isAsciiLetter plain
  induction t with
  | nil => rfl
  | cons c rest ih =>
    rw [asciiLower, List.map_cons, splitOn, splitOn]
    by_cases here : c = separator
    · rw [if_pos (by rw [here, lower]), if_pos here, List.map_cons, ← ih]
      rfl
    · have other : lowerAscii c ≠ separator := fun e =>
        here (eq_of_lowerAscii_eq (e.trans lower.symm).symm plain).symm
      rw [if_neg other, if_neg here, ← asciiLower, ih]
      cases splitOn separator rest <;> rfl

theorem join_cons_cons (separator : Char) (piece next : Text) (more : List Text) :
    join [separator] (piece :: next :: more) = piece ++ separator :: join [separator] (next :: more) := by
  simp [join]

/-- The pieces of a text put together again. -/
theorem join_splitOn (separator : Char) (t : Text) : join [separator] (splitOn separator t) = t := by
  induction t with
  | nil => rfl
  | cons c rest ih =>
    rw [splitOn]
    obtain ⟨piece, pieces, cut⟩ := List.exists_cons_of_ne_nil (splitOn_ne_nil separator rest)
    rw [cut] at ih ⊢
    split
    · rename_i here
      rw [join, ih, here]
      · rfl
      · simp
    · cases pieces with
      | nil => simpa [join] using ih
      | cons next more => simpa [join] using ih

end Text

/-! ## Components in place of others -/

/-- One component matches another: two names that agree up to case, or the same component twice. -/
def Component.Matches : Component → Component → Prop
  | .name a, .name b => Text.eqIgnoringCase a b
  | c, d => c = d

theorem Component.matches_refl (c : Component) : c.Matches c := by
  cases c <;> simp [Matches, Text.eqIgnoringCase_iff]

theorem Path.innerComponent_eq_name_iff {t : Text} :
    innerComponent t = some (.name t) ↔ t ≠ [] ∧ t ≠ "." ∧ t ≠ ".." := by
  constructor
  · intro h
    refine ⟨?_, ?_, ?_⟩ <;> rintro rfl <;> exact absurd h (by decide)
  · rintro ⟨some, notDot, notDots⟩
    simpa [innerComponent, isSilent, some] using And.intro notDot notDots

/-- What matches a plain component is plain. -/
theorem Component.IsPlain.of_matches {c d : Component} (h : c.IsPlain) (same : c.Matches d) : d.IsPlain := by
  cases c with
  | root | current => exact absurd h id
  | parent =>
    cases same
    trivial
  | name a =>
    cases d with
    | root | current | parent => cases same
    | name b =>
      have lower : Text.asciiLower b = Text.asciiLower a := (Text.eqIgnoringCase_iff.1 same).symm
      obtain ⟨text, noSlash⟩ := h
      obtain ⟨some, notDot, notDots⟩ := Path.innerComponent_eq_name_iff.1 text
      -- the texts that are no names, and the slash, have no letters
      refine ⟨Path.innerComponent_eq_name_iff.2 ⟨?_, ?_, ?_⟩, fun mem => noSlash ?_⟩
      · rintro rfl
        exact some (Text.eq_of_asciiLower_eq lower (by simp)).symm
      · rintro rfl
        exact notDot (Text.eq_of_asciiLower_eq lower (Text.isAsciiLetter_of_dots (.inl rfl))).symm
      · rintro rfl
        exact notDots (Text.eq_of_asciiLower_eq lower (Text.isAsciiLetter_of_dots (.inr rfl))).symm
      · exact Text.mem_of_asciiLower_eq lower (by decide) mem

theorem Path.IsNormal.of_matches {cs ds : List Component} (h : Path.IsNormal cs)
    (same : List.Forall₂ Component.Matches cs ds) : Path.IsNormal ds := by
  have plain : ∀ {xs ys : List Component}, List.Forall₂ Component.Matches xs ys → (∀ c ∈ xs, c.IsPlain) →
      ∀ d ∈ ys, d.IsPlain := by
    intro xs ys same plain
    induction same with
    | nil => simp
    | cons first _ ih =>
      rw [List.forall_mem_cons] at plain ⊢
      exact ⟨plain.1.of_matches first, ih plain.2⟩
  obtain ⟨rest, rfl | rfl, rest_plain⟩ := h
  · exact ⟨ds, .inl rfl, plain same rest_plain⟩
  · cases same with
    | @cons _ d _ ds first tail =>
      cases d with
      | root => exact ⟨ds, .inr rfl, plain tail rest_plain⟩
      | current | parent | name => cases first

/-! ## Searching -/

namespace FileTree

variable {tree : FileTree}

theorem stepIgnoringCase_eq_some {resolved p : Path} {c : Component} (h : tree.stepIgnoringCase resolved c = some p) :
    ∃ d, c.Matches d ∧ p = resolved.join ⟨d.text⟩ := by
  unfold stepIgnoringCase at h
  split at h
  · rename_i part
    simp only at h
    split at h
    · cases h
      exact ⟨.name part, Component.matches_refl _, rfl⟩
    · simp only [Option.bind_eq_bind, Option.bind_eq_some_iff, Option.pure_def, Option.some.injEq] at h
      obtain ⟨listing, _, found, listed, rfl⟩ := h
      have agrees := List.find?_some listed
      exact ⟨.name found, Text.eqIgnoringCase_iff.2 (Text.eqIgnoringCase_iff.1 agrees).symm, rfl⟩
  · cases h
    exact ⟨c, Component.matches_refl c, rfl⟩

theorem foldlM_stepIgnoringCase_eq_some {cs : List Component} {base p : Path}
    (h : cs.foldlM tree.stepIgnoringCase base = some p) :
    ∃ ds, List.Forall₂ Component.Matches cs ds ∧ p = ds.foldl (fun p c => p.join ⟨c.text⟩) base := by
  induction cs generalizing base with
  | nil =>
    cases h
    exact ⟨[], .nil, rfl⟩
  | cons c cs ih =>
    rw [List.foldlM_cons, Option.bind_eq_bind, Option.bind_eq_some_iff] at h
    obtain ⟨next, step, rest⟩ := h
    obtain ⟨d, first, rfl⟩ := stepIgnoringCase_eq_some step
    obtain ⟨ds, same, rfl⟩ := ih rest
    exact ⟨d :: ds, .cons first same, rfl⟩

/-- **What is sought in listings** is a file with components that match those of the candidate. -/
theorem findIgnoringCase_eq_some {candidate p : Path} (h : tree.findIgnoringCase candidate = some p) :
    tree.isFile p ∧ ∃ ds, List.Forall₂ Component.Matches candidate.components ds ∧ p = Path.ofComponents ds := by
  unfold findIgnoringCase at h
  rw [Option.bind_eq_bind, Option.bind_eq_some_iff] at h
  obtain ⟨resolved, searched, found⟩ := h
  split at found
  · rename_i isFile
    cases found
    exact ⟨isFile, foldlM_stepIgnoringCase_eq_some searched⟩
  · cases found

/-- **A file that is found** exists and has a tidy path. -/
theorem findFile_eq_some {policy : CasePolicy} {dir p : Path} {name : Text}
    (h : tree.findFile policy dir name = some p) : tree.isFile p ∧ p.IsTidy := by
  unfold findFile at h
  simp only at h
  split at h
  · rename_i isFile
    cases h
    exact ⟨isFile, Path.isTidy_normalize _⟩
  · split at h
    · cases h
    · obtain ⟨isFile, ds, same, rfl⟩ := findIgnoringCase_eq_some h
      rw [Path.absolutize, Path.components_normalize] at same
      exact ⟨isFile, ds, (Path.isNormal_normalComponents _).of_matches same, rfl⟩

end FileTree

/-! ## Disks on which case does not matter -/

namespace FileNode

mutual

/-- Whether no directory, from this node down, has two names that agree up to case. -/
def isCaseDistinct : FileNode → Bool
  | .dir entries => decide (entries.map fun e => Text.asciiLower e.1).Nodup && entriesCaseDistinct entries
  | _ => true

/-- Whether this is so from all of the entries down. -/
def entriesCaseDistinct : List (Text × FileNode) → Bool
  | [] => true
  | (_, child) :: rest => isCaseDistinct child && entriesCaseDistinct rest

end

variable {node child : FileNode} {name : Text}

theorem isCaseDistinct_of_mem {entries : List (Text × FileNode)} (distinct : entriesCaseDistinct entries)
    (mem : (name, child) ∈ entries) : child.isCaseDistinct := by
  induction entries with
  | nil => cases mem
  | cons e rest ih =>
    obtain ⟨first, node⟩ := e
    rw [entriesCaseDistinct, Bool.and_eq_true] at distinct
    rcases List.mem_cons.1 mem with e | mem
    · cases e
      exact distinct.1
    · exact ih distinct.2 mem

theorem mem_of_child?_eq_some (h : node.child? name = some child) : (name, child) ∈ node.entries := by
  obtain ⟨⟨found, node'⟩, listed, rfl⟩ := Option.map_eq_some_iff.1 h
  have same : found = name := by simpa using List.find?_some listed
  exact same ▸ List.mem_of_find?_eq_some listed

theorem isCaseDistinct_child (distinct : node.isCaseDistinct) (h : node.child? name = some child) :
    child.isCaseDistinct := by
  have mem := mem_of_child?_eq_some h
  cases node with
  | file | unreadable => cases mem
  | dir entries =>
    rw [isCaseDistinct, Bool.and_eq_true] at distinct
    exact isCaseDistinct_of_mem distinct.2 mem

/-- Entries whose names agree up to case are the same. -/
theorem name_eq_of_asciiLower_eq {name' : Text} {child' : FileNode} (distinct : node.isCaseDistinct)
    (h : node.child? name = some child) (h' : node.child? name' = some child')
    (same : Text.asciiLower name = Text.asciiLower name') : name = name' := by
  have mem := mem_of_child?_eq_some h
  have mem' := mem_of_child?_eq_some h'
  cases node with
  | file | unreadable => cases mem
  | dir entries =>
    rw [isCaseDistinct, Bool.and_eq_true, decide_eq_true_eq] at distinct
    exact congrArg Prod.fst (List.inj_on_of_nodup_map distinct.1 mem mem' same)

end FileNode

namespace FileTree

/-- No directory of the disk has two names that agree up to case. -/
def IsCaseDistinct (tree : FileTree) : Prop := tree.root.isCaseDistinct = true

instance (tree : FileTree) : Decidable tree.IsCaseDistinct := inferInstanceAs (Decidable (_ = true))

variable {chain next next' : List FileNode} {segment segment' : Text}

/-- Where one segment leads from a chain of nodes. -/
theorem follow_singleton_eq_ok (h : follow chain [segment] = .ok next) :
    ∃ node above, chain = node :: above ∧ (Path.isSilent segment ∧ next = chain ∨
      segment = ".." ∧ (next = [node] ∨ next = above) ∨
      ∃ child, node.child? segment = some child ∧ next = child :: chain) := by
  cases chain with
  | nil => simp [follow] at h
  | cons node above =>
    refine ⟨node, above, rfl, ?_⟩
    rw [follow] at h
    split at h
    · cases h
    · split at h
      · cases h
        exact .inl ⟨‹_›, rfl⟩
      · split at h
        · cases h
          refine .inr (.inl ⟨‹_›, ?_⟩)
          split
          · exact .inl rfl
          · exact .inr rfl
        · split at h
          · rename_i child found
            cases h
            exact .inr (.inr ⟨child, found, rfl⟩)
          · cases h

theorem follow_cons_eq_ok {rest : List Text} {reached : List FileNode}
    (h : follow chain (segment :: rest) = .ok reached) :
    ∃ next, follow chain [segment] = .ok next ∧ follow next rest = .ok reached := by
  cases chain with
  | nil => simp [follow] at h
  | cons node above =>
    rw [follow] at h ⊢
    split at h
    · cases h
    · rw [if_neg ‹_›]
      split at h
      · exact ⟨_, by rw [if_pos ‹_›, follow], h⟩
      · rw [if_neg ‹_›]
        split at h
        · exact ⟨_, by rw [if_pos ‹_›, follow], h⟩
        · rw [if_neg ‹_›]
          split at h
          · exact ⟨_, rfl, h⟩
          · cases h

/-- A step stays among nodes that are distinct up to case. -/
theorem isCaseDistinct_of_follow (distinct : ∀ node ∈ chain, node.isCaseDistinct)
    (h : follow chain [segment] = .ok next) : ∀ node ∈ next, node.isCaseDistinct := by
  obtain ⟨node, above, rfl, ⟨_, rfl⟩ | ⟨_, rfl | rfl⟩ | ⟨child, found, rfl⟩⟩ := follow_singleton_eq_ok h
  · exact distinct
  · exact List.forall_mem_singleton.2 (distinct _ List.mem_cons_self)
  · exact fun node mem => distinct node (List.mem_cons_of_mem _ mem)
  · exact List.forall_mem_cons.2 ⟨FileNode.isCaseDistinct_child (distinct _ List.mem_cons_self) found, distinct⟩

/-- Two segments that lead somewhere from the same place are the same if they agree up to case. -/
theorem segment_eq_of_follow (distinct : ∀ node ∈ chain, node.isCaseDistinct)
    (same : Text.asciiLower segment = Text.asciiLower segment') (h : follow chain [segment] = .ok next)
    (h' : follow chain [segment'] = .ok next') : segment = segment' := by
  -- a segment that is no name has no letters
  have silent : ∀ {t : Text}, Path.isSilent t → ∀ c ∈ t, Text.isAsciiLetter c = false := by
    intro t ht
    simp only [Path.isSilent, Bool.or_eq_true, List.isEmpty_iff, beq_iff_eq] at ht
    rcases ht with rfl | dot
    · simp
    · exact Text.isAsciiLetter_of_dots (.inl dot)
  obtain ⟨node, above, rfl, ⟨quiet, _⟩ | ⟨rfl, _⟩ | ⟨child, found, _⟩⟩ := follow_singleton_eq_ok h
  · exact Text.eq_of_asciiLower_eq same (silent quiet)
  · exact Text.eq_of_asciiLower_eq same (Text.isAsciiLetter_of_dots (.inr rfl))
  · obtain ⟨_, _, e, ⟨quiet, _⟩ | ⟨rfl, _⟩ | ⟨child', found', _⟩⟩ := follow_singleton_eq_ok h'
    · exact (Text.eq_of_asciiLower_eq same.symm (silent quiet)).symm
    · exact (Text.eq_of_asciiLower_eq same.symm (Text.isAsciiLetter_of_dots (.inr rfl))).symm
    · cases e
      exact FileNode.name_eq_of_asciiLower_eq (distinct _ List.mem_cons_self) found found' same

theorem segments_eq_of_follow {reached reached' : List FileNode} {segments segments' : List Text}
    (distinct : ∀ node ∈ chain, node.isCaseDistinct) (same : segments.map Text.asciiLower = segments'.map Text.asciiLower)
    (h : follow chain segments = .ok reached) (h' : follow chain segments' = .ok reached') : segments = segments' := by
  induction segments generalizing chain segments' with
  | nil => simpa using same.symm
  | cons segment rest ih =>
    cases segments' with
    | nil => simp at same
    | cons segment' rest' =>
      simp only [List.map_cons, List.cons.injEq] at same
      obtain ⟨next, step, later⟩ := follow_cons_eq_ok h
      obtain ⟨next', step', later'⟩ := follow_cons_eq_ok h'
      obtain rfl := segment_eq_of_follow distinct same.1 step step'
      cases step.symm.trans step'
      rw [ih (isCaseDistinct_of_follow distinct step) same.2 later later']

/-- A path that is not absolute starts with another character than a slash. -/
theorem segments?_eq_some {tree : FileTree} {p : Path} {segments : List Text} (h : tree.segments? p = some segments) :
    (∃ body, p.text = '/' :: body ∧ segments = Text.splitOn '/' body) ∨
      ∃ c rest, p.text = c :: rest ∧ c ≠ '/' ∧ segments = tree.workingDir ++ Text.splitOn '/' p.text := by
  unfold segments? at h
  split at h
  · cases h
  · rename_i body text
    cases h
    exact .inl ⟨body, text, rfl⟩
  · rename_i text some relative
    cases h
    cases text : p.text with
    | nil => exact absurd text some
    | cons c rest =>
      refine .inr ⟨c, rest, rfl, ?_, rfl⟩
      rintro rfl
      exact relative rest text

theorem exists_follow_of_isFile {tree : FileTree} {p : Path} (h : tree.isFile p) :
    ∃ segments reached, tree.segments? p = some segments ∧ follow [tree.root] segments = .ok reached := by
  cases named : tree.segments? p with
  | none => simp [isFile, get?, lookup, named, Except.toOption] at h
  | some segments =>
    cases followed : follow [tree.root] segments with
    | error cause => simp [isFile, get?, lookup, named, followed, Except.toOption] at h
    | ok reached => exact ⟨segments, reached, rfl, followed⟩

/-- **Files have one spelling** on a disk where no directory has two names that agree up to case. -/
theorem eq_of_eqIgnoringCase {tree : FileTree} (distinct : tree.IsCaseDistinct) {p q : Path} (hp : tree.isFile p)
    (hq : tree.isFile q) (same : Text.eqIgnoringCase p.text q.text) : p = q := by
  obtain ⟨segments, reached, named, followed⟩ := exists_follow_of_isFile hp
  obtain ⟨segments', reached', named', followed'⟩ := exists_follow_of_isFile hq
  have root : ∀ node ∈ [tree.root], node.isCaseDistinct := List.forall_mem_singleton.2 distinct
  have noLetter : Text.isAsciiLetter '/' = false := by decide
  -- texts that agree up to case are cut into segments that do
  have cut : ∀ {s t : Text}, Text.asciiLower s = Text.asciiLower t →
      (Text.splitOn '/' s).map Text.asciiLower = (Text.splitOn '/' t).map Text.asciiLower := by
    intro s t e
    rw [← Text.splitOn_asciiLower noLetter, ← Text.splitOn_asciiLower noLetter, e]
  have joined : ∀ {s t : Text}, Text.splitOn '/' s = Text.splitOn '/' t → s = t := by
    intro s t e
    rw [← Text.join_splitOn '/' s, e, Text.join_splitOn]
  have lower := Text.eqIgnoringCase_iff.1 same
  suffices p.text = q.text from congrArg Path.mk this
  rcases segments?_eq_some named with ⟨body, text, rfl⟩ | ⟨c, rest, text, relative, rfl⟩
  · rcases segments?_eq_some named' with ⟨body', text', rfl⟩ | ⟨c', rest', text', relative', _⟩
    · rw [text, text'] at lower ⊢
      have bodies : Text.asciiLower body = Text.asciiLower body' := (List.cons.inj lower).2
      rw [joined (segments_eq_of_follow root (cut bodies) followed followed')]
    · rw [text, text'] at lower
      exact absurd (Text.eq_of_lowerAscii_eq (List.cons.inj lower).1 noLetter).symm relative'
  · rcases segments?_eq_some named' with ⟨body', text', _⟩ | ⟨c', rest', text', relative', rfl⟩
    · rw [text, text'] at lower
      exact absurd (Text.eq_of_lowerAscii_eq (List.cons.inj lower).1.symm noLetter).symm relative
    · have segments : (tree.workingDir ++ Text.splitOn '/' p.text).map Text.asciiLower =
          (tree.workingDir ++ Text.splitOn '/' q.text).map Text.asciiLower := by
        rw [List.map_append, List.map_append, cut lower]
      exact joined (List.append_cancel_left (segments_eq_of_follow root segments followed followed'))

end FileTree

end SolutionGraph
