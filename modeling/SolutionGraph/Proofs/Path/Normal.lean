import SolutionGraph.Path.Normal

/-!
# Normal paths have one spelling

A normal path is written from its components, and reading it gives these components back (`components_normalize`). So two
such paths that name the same place are spelled alike (`IsTidy.eq_of_same`).

* **cutting**: a text is cut at the separators that were put between its pieces (`splitOn_append_cons`);
* **spelling**: `ofComponents` writes plain components with a slash between each two (`text_ofComponents`);
* **folding**: what `normalComponents` keeps is plain, but for the root that an absolute path starts with
  (`isNormal_normalComponents`).
-/

namespace SolutionGraph

/-! ## Cutting -/

namespace Text

theorem splitOn_ne_nil (separator : Char) (t : Text) : splitOn separator t ≠ [] := by
  cases t with
  | nil => simp [splitOn]
  | cons c rest =>
    rw [splitOn]
    split
    · simp
    · split <;> simp

theorem splitOn_of_not_mem {separator : Char} {t : Text} (h : separator ∉ t) : splitOn separator t = [t] := by
  induction t with
  | nil => rfl
  | cons c rest ih =>
    simp only [List.mem_cons, not_or] at h
    rw [splitOn, if_neg (Ne.symm h.1), ih h.2]

/-- The piece before the first separator. -/
theorem splitOn_append_cons {separator : Char} {t : Text} (h : separator ∉ t) (rest : Text) :
    splitOn separator (t ++ separator :: rest) = t :: splitOn separator rest := by
  induction t with
  | nil => simp [splitOn]
  | cons c t ih =>
    simp only [List.mem_cons, not_or] at h
    rw [List.cons_append, splitOn, if_neg (Ne.symm h.1), ih h.2]

/-- No piece has a separator in it. -/
theorem not_mem_of_mem_splitOn {separator : Char} {t piece : Text} (h : piece ∈ splitOn separator t) :
    separator ∉ piece := by
  induction t generalizing piece with
  | nil => simp_all [splitOn]
  | cons c rest ih =>
    rw [splitOn] at h
    split at h
    · rcases List.mem_cons.1 h with rfl | h
      · simp
      · exact ih h
    · rename_i other
      split at h
      · simp only [List.mem_singleton] at h
        simp [h, Ne.symm other]
      · rename_i first pieces cut
        rcases List.mem_cons.1 h with rfl | h
        · have noMore : separator ∉ first := ih (by rw [cut]; exact List.mem_cons_self)
          simp [Ne.symm other, noMore]
        · exact ih (by rw [cut]; exact List.mem_cons_of_mem _ h)

end Text

/-! ## Plain components -/

/-- A component that stands for itself between two slashes: the directory above, or a name. -/
def Component.IsPlain : Component → Prop
  | .parent => True
  | .name t => Path.innerComponent t = some (.name t) ∧ '/' ∉ t
  | _ => False

namespace Component

/-- A plain component is read back from its text. -/
theorem IsPlain.innerComponent_text {c : Component} (h : c.IsPlain) : Path.innerComponent c.text = some c := by
  cases c with
  | parent => rfl
  | name t => exact h.1
  | root | current => exact absurd h id

theorem IsPlain.slash_not_mem {c : Component} (h : c.IsPlain) : '/' ∉ c.text := by
  cases c with
  | parent => decide
  | name t => exact h.2
  | root | current => exact absurd h id

theorem IsPlain.text_ne_nil {c : Component} (h : c.IsPlain) : c.text ≠ [] := by
  intro e
  have := h.innerComponent_text
  rw [e] at this
  cases this

theorem IsPlain.text_ne_dot {c : Component} (h : c.IsPlain) : c.text ≠ "." := by
  intro e
  have := h.innerComponent_text
  rw [e] at this
  cases this

/-- A text that ends in a plain component does not end in a slash. -/
theorem IsPlain.getLast?_append_ne_slash {c : Component} (h : c.IsPlain) (before : Text) :
    (before ++ c.text).getLast? ≠ some '/' := by
  rw [List.getLast?_append, List.getLast?_eq_some_getLast h.text_ne_nil]
  simp only [Option.some_or, ne_eq, Option.some.injEq]
  intro e
  exact h.slash_not_mem (e ▸ List.getLast_mem h.text_ne_nil)

end Component

namespace Path

theorem isAbsolute_of_isPlain {c : Component} (h : c.IsPlain) : (⟨c.text⟩ : Path).isAbsolute = false := by
  cases text : c.text with
  | nil => rfl
  | cons x rest =>
    have : x ≠ '/' := by
      rintro rfl
      exact h.slash_not_mem (by rw [text]; exact List.mem_cons_self)
    simp [isAbsolute, this]

/-- What a segment without slashes stands for is plain. -/
theorem isPlain_of_innerComponent {segment : Text} {c : Component} (noSlash : '/' ∉ segment)
    (h : innerComponent segment = some c) : c.IsPlain := by
  have whole := h
  unfold innerComponent at h
  split at h
  · cases h
  · split at h
    · cases h; trivial
    · cases h; exact ⟨whole, noSlash⟩

theorem isPlain_of_mem_inner {segments : List Text} {c : Component} (noSlash : ∀ t ∈ segments, '/' ∉ t)
    (h : c ∈ segments.filterMap innerComponent) : c.IsPlain := by
  obtain ⟨t, mem, some⟩ := List.mem_filterMap.1 h
  exact isPlain_of_innerComponent (noSlash t mem) some

/-- Components that are plain, but for the root that an absolute path starts with. -/
def IsNormal (cs : List Component) : Prop :=
  ∃ rest, (cs = rest ∨ cs = .root :: rest) ∧ ∀ c ∈ rest, c.IsPlain

/-! ## Spelling -/

/-- Plain components with a slash between each two. -/
def spell : List Component → Text
  | [] => []
  | c :: rest => c.text ++ rest.flatMap fun c => '/' :: c.text

/-- Going on from a path that does not end in a slash puts one in between. -/
theorem foldl_join_text {cs : List Component} (plain : ∀ c ∈ cs, c.IsPlain) (base : Path)
    (start : base.text ≠ []) (last : base.text.getLast? ≠ some '/') :
    (cs.foldl (fun p c => p.join ⟨c.text⟩) base).text = base.text ++ cs.flatMap fun c => '/' :: c.text := by
  induction cs generalizing base with
  | nil => simp
  | cons c cs ih =>
    have hc := plain c List.mem_cons_self
    have joined : (base.join ⟨c.text⟩).text = base.text ++ '/' :: c.text := by
      simp [join, isAbsolute_of_isPlain hc, start, last]
    have last' : (base.join ⟨c.text⟩).text.getLast? ≠ some '/' := by
      rw [joined, List.append_cons]
      exact hc.getLast?_append_ne_slash _
    rw [List.foldl_cons, ih (fun d hd => plain d (List.mem_cons_of_mem _ hd)) _ (by simp [joined]) last', joined]
    simp

/-- How plain components are written. -/
theorem text_ofComponents {cs : List Component} (plain : ∀ c ∈ cs, c.IsPlain) : (ofComponents cs).text = spell cs := by
  cases cs with
  | nil => rfl
  | cons c rest =>
    have hc := plain c List.mem_cons_self
    have first : Path.join ⟨[]⟩ ⟨c.text⟩ = ⟨c.text⟩ := by simp [join]
    rw [ofComponents, List.foldl_cons, first, spell,
      foldl_join_text (fun d hd => plain d (List.mem_cons_of_mem _ hd)) ⟨c.text⟩ hc.text_ne_nil
        (by simpa using hc.getLast?_append_ne_slash [])]

theorem text_ofComponents_root {cs : List Component} (plain : ∀ c ∈ cs, c.IsPlain) :
    (ofComponents (.root :: cs)).text = '/' :: spell cs := by
  cases cs with
  | nil => rfl
  | cons c rest =>
    have hc := plain c List.mem_cons_self
    have first : Path.join ⟨['/']⟩ ⟨c.text⟩ = ⟨'/' :: c.text⟩ := by simp [join, isAbsolute_of_isPlain hc]
    have start : Path.join ⟨[]⟩ ⟨Component.root.text⟩ = ⟨['/']⟩ := rfl
    rw [ofComponents, List.foldl_cons, start, List.foldl_cons, first,
      foldl_join_text (fun d hd => plain d (List.mem_cons_of_mem _ hd)) ⟨'/' :: c.text⟩ (by simp)
        (by simpa using hc.getLast?_append_ne_slash ['/'])]
    simp [spell]

/-- Plain components are cut apart where they were joined. -/
theorem splitOn_spell {c : Component} {cs : List Component} (plain : ∀ d ∈ c :: cs, d.IsPlain) :
    Text.splitOn '/' (spell (c :: cs)) = (c :: cs).map Component.text := by
  induction cs generalizing c with
  | nil => simpa [spell] using Text.splitOn_of_not_mem (plain c List.mem_cons_self).slash_not_mem
  | cons d cs ih =>
    have split := Text.splitOn_append_cons (plain c List.mem_cons_self).slash_not_mem (spell (d :: cs))
    have rest := ih fun e he => plain e (List.mem_cons_of_mem _ he)
    have whole : spell (c :: d :: cs) = c.text ++ '/' :: spell (d :: cs) := by simp [spell]
    rw [whole, split, rest]
    rfl

theorem filterMap_innerComponent_text {cs : List Component} (plain : ∀ c ∈ cs, c.IsPlain) :
    (cs.map Component.text).filterMap innerComponent = cs := by
  induction cs with
  | nil => rfl
  | cons c cs ih =>
    rw [List.map_cons, List.filterMap_cons_some (plain c List.mem_cons_self).innerComponent_text,
      ih fun d hd => plain d (List.mem_cons_of_mem _ hd)]

/-- Normal components are read back from the path that is written from them. -/
theorem components_ofComponents {cs : List Component} (h : IsNormal cs) : (ofComponents cs).components = cs := by
  obtain ⟨rest, rfl | rfl, plain⟩ := h
  · rw [components, text_ofComponents plain]
    cases cs with
    | nil => rfl
    | cons c rest =>
      have hc := plain c List.mem_cons_self
      have first : firstComponent c.text = some c := by
        rw [firstComponent, if_neg hc.text_ne_dot, hc.innerComponent_text]
      -- the spelling of a plain component is no root
      have relative : ∀ body, spell (c :: rest) ≠ '/' :: body := by
        intro body e
        cases text : c.text with
        | nil => exact hc.text_ne_nil text
        | cons x tail =>
          rw [spell, text, List.cons_append, List.cons.injEq] at e
          exact hc.slash_not_mem (by rw [text, e.1]; exact List.mem_cons_self)
      split
      · rename_i body e
        exact absurd e (relative body)
      · rw [splitOn_spell plain]
        simp only [List.map_cons, first, Option.toList_some, List.singleton_append,
          filterMap_innerComponent_text fun d hd => plain d (List.mem_cons_of_mem _ hd)]
  · rw [components, text_ofComponents_root plain]
    cases rest with
    | nil => rfl
    | cons c rest => simp only [splitOn_spell plain, filterMap_innerComponent_text plain]

/-! ## Folding -/

/-- Folding a plain component or a dot onto plain ones, above what is kept below them, leaves plain ones. -/
theorem fold_isPlain {done : List Component} {base : List Component} {c : Component} (base_eq : base = [] ∨ base = [.root])
    (plain : ∀ d ∈ done, d.IsPlain) (hc : c.IsPlain ∨ c = .current) :
    ∃ done', fold (done ++ base) c = done' ++ base ∧ ∀ d ∈ done', d.IsPlain := by
  cases c with
  | root => exact absurd hc (by simp [Component.IsPlain])
  | current => exact ⟨done, rfl, plain⟩
  | name t => exact ⟨.name t :: done, rfl, by simpa using ⟨hc.resolve_right (by simp), plain⟩⟩
  | parent =>
    cases done with
    | nil =>
      rcases base_eq with rfl | rfl
      · exact ⟨[.parent], rfl, by simp [Component.IsPlain]⟩
      · exact ⟨[], rfl, by simp⟩
    | cons d above =>
      have plainAbove : ∀ e ∈ above, e.IsPlain := fun e he => plain e (List.mem_cons_of_mem _ he)
      cases d with
      | name t => exact ⟨above, rfl, plainAbove⟩
      | parent => exact ⟨.parent :: .parent :: above, rfl, by simpa [Component.IsPlain] using plainAbove⟩
      | root | current => exact absurd (plain _ List.mem_cons_self) id

theorem foldl_fold_isPlain {cs base : List Component} (done : List Component) (base_eq : base = [] ∨ base = [.root])
    (plain : ∀ d ∈ done, d.IsPlain) (hcs : ∀ c ∈ cs, c.IsPlain ∨ c = .current) :
    ∃ done', cs.foldl fold (done ++ base) = done' ++ base ∧ ∀ d ∈ done', d.IsPlain := by
  induction cs generalizing done with
  | nil => exact ⟨done, rfl, plain⟩
  | cons c cs ih =>
    obtain ⟨done', step, plain'⟩ := fold_isPlain base_eq plain (hcs c List.mem_cons_self)
    rw [List.foldl_cons, step]
    exact ih done' plain' fun d hd => hcs d (List.mem_cons_of_mem _ hd)

/-- A path starts at the root and goes on by plain components, or it is relative and may start with a dot. -/
theorem components_cases (p : Path) :
    (∃ rest, p.components = .root :: rest ∧ ∀ c ∈ rest, c.IsPlain) ∨ ∀ c ∈ p.components, c.IsPlain ∨ c = .current := by
  unfold components
  split
  · exact .inl ⟨_, rfl, fun c hc => isPlain_of_mem_inner (fun t ht => Text.not_mem_of_mem_splitOn ht) hc⟩
  · right
    split
    · simp
    · rename_i text _ first rest cut
      have noSlash : ∀ t ∈ first :: rest, '/' ∉ t := fun t ht => Text.not_mem_of_mem_splitOn (cut ▸ ht)
      intro c hc
      rcases List.mem_append.1 hc with hc | hc
      · rw [Option.mem_toList, firstComponent] at hc
        split at hc
        · exact .inr (Option.some.inj hc).symm
        · exact .inl (isPlain_of_innerComponent (noSlash first List.mem_cons_self) hc)
      · exact .inl (isPlain_of_mem_inner (fun t ht => noSlash t (List.mem_cons_of_mem _ ht)) hc)

/-- What folding leaves of a path is normal. -/
theorem isNormal_normalComponents (p : Path) : IsNormal p.normalComponents := by
  unfold normalComponents
  rcases components_cases p with ⟨rest, start, plain⟩ | plain
  · obtain ⟨done, folded, plainDone⟩ := foldl_fold_isPlain [] (.inr rfl) (by simp) fun c hc => .inl (plain c hc)
    rw [start, List.foldl_cons]
    refine ⟨done.reverse, .inr ?_, fun c hc => plainDone c (List.mem_reverse.1 hc)⟩
    show (rest.foldl fold ([] ++ [Component.root])).reverse = _
    rw [folded]
    simp
  · obtain ⟨done, folded, plainDone⟩ := foldl_fold_isPlain [] (.inl rfl) (by simp) plain
    refine ⟨done.reverse, .inl ?_, fun c hc => plainDone c (List.mem_reverse.1 hc)⟩
    show (p.components.foldl fold ([] ++ [])).reverse = _
    rw [folded]
    simp

/-- **The components of a normal path** are those that folding has left. -/
theorem components_normalize (p : Path) : p.normalize.components = p.normalComponents :=
  components_ofComponents (isNormal_normalComponents p)

theorem same_comm (p q : Path) : p.same q = q.same p := Bool.beq_comm

/-- A path is tidy if it is written from normal components. -/
def IsTidy (p : Path) : Prop := ∃ cs, IsNormal cs ∧ p = ofComponents cs

theorem isTidy_normalize (p : Path) : p.normalize.IsTidy := ⟨_, isNormal_normalComponents p, rfl⟩

theorem IsTidy.ofComponents_components {p : Path} (h : p.IsTidy) : ofComponents p.components = p := by
  obtain ⟨cs, normal, rfl⟩ := h
  rw [components_ofComponents normal]

/-- **One spelling**: tidy paths that name the same place are equal. -/
theorem IsTidy.eq_of_same {p q : Path} (hp : p.IsTidy) (hq : q.IsTidy) (h : p.same q) : p = q := by
  have same : p.components = q.components := by simpa [same] using h
  rw [← hp.ofComponents_components, same, hq.ofComponents_components]

/-! ## Folding twice -/

/-- Components that folding can leave, innermost first: names, and below them the root or a block of `..`. -/
inductive IsFolded : List Component → Prop
  | root : IsFolded [.root]
  | above (n : Nat) : IsFolded (List.replicate n .parent)
  | name (text : Text) {done : List Component} (h : IsFolded done) : IsFolded (.name text :: done)

theorem IsFolded.fold {done : List Component} (h : IsFolded done) {c : Component} (inner : c.IsPlain ∨ c = .current) :
    IsFolded (fold done c) := by
  cases c with
  | root => exact absurd inner (by simp [Component.IsPlain])
  | current => exact h
  | name text => exact .name text h
  | parent =>
    cases h with
    | root => exact .root
    | name text h => exact h
    | above n =>
      have deeper : Path.fold (List.replicate n .parent) .parent = List.replicate (n + 1) .parent := by
        cases n <;> rfl
      rw [deeper]
      exact .above (n + 1)

theorem IsFolded.foldl {cs done : List Component} (h : IsFolded done) (inner : ∀ c ∈ cs, c.IsPlain ∨ c = .current) :
    IsFolded (cs.foldl Path.fold done) := by
  induction cs generalizing done with
  | nil => exact h
  | cons c cs ih => exact ih (h.fold (inner c List.mem_cons_self)) fun d mem => inner d (List.mem_cons_of_mem _ mem)

/-- What folding has left is left alone. -/
theorem IsFolded.foldl_reverse {done : List Component} (h : IsFolded done) : done.reverse.foldl Path.fold [] = done := by
  induction h with
  | root => rfl
  | above n =>
    rw [List.reverse_replicate]
    induction n with
    | zero => rfl
    | succ n ih =>
      rw [List.replicate_succ', List.foldl_append, ih, ← List.replicate_succ']
      cases n <;> rfl
  | name text h ih => rw [List.reverse_cons, List.foldl_append, ih]; rfl

theorem isFolded_components (p : Path) : IsFolded (p.components.foldl fold []) := by
  rcases components_cases p with ⟨rest, start, plain⟩ | plain
  · rw [start]
    exact IsFolded.root.foldl fun c mem => .inl (plain c mem)
  · exact (IsFolded.above 0).foldl plain

/-- A normal path is its own normal form. -/
theorem normalize_normalize (p : Path) : p.normalize.normalize = p.normalize := by
  have again : p.normalize.normalComponents = p.normalComponents := by
    rw [normalComponents, components_normalize, normalComponents, (isFolded_components p).foldl_reverse]
  rw [normalize, again, ← normalize]

end Path

end SolutionGraph
