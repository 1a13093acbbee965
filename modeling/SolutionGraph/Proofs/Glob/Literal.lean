import SolutionGraph.Proofs.Glob.Search
import SolutionGraph.Proofs.Path.Below

/-!
# Literal text in patterns

A text without metacharacters is a pattern that stands for itself (`readFrom_literal`), and in front of a pattern it keeps
to itself: the rest is read as before (`readFrom_append_slash`), matches what it matched (`matchesText_literal_append`), and
is sought where the literal names lead (`lookUp_literals`, `expand_ofNames`).

`Glob.climbs` tells the components that can lead to the directory above: `..`, and wildcards that match it.
-/

namespace SolutionGraph.Glob

/-! ## Reading -/

/-- A character that a pattern takes for itself. -/
def isLiteral (c : Char) : Bool := c != '*' && c != '?' && c != '['

/-- The pattern that stands for a text. -/
def literal (t : Text) : Pattern := t.map .char

variable {t rest : Text} {p : Pattern}

theorem readFrom_cons {c : Char} (plain : isLiteral c) (atStart : Bool) (rest : Text) :
    readFrom atStart (c :: rest) = (readFrom (c = '/') rest).map (.char c :: ·) := by
  simp only [isLiteral, Bool.and_eq_true, bne_iff_ne] at plain
  obtain ⟨⟨star, mark⟩, bracket⟩ := plain
  rw [readFrom]
  · exact fun _ h _ => star h
  · exact star
  · exact mark
  · exact bracket

/-- A text without metacharacters stands for itself. -/
theorem readFrom_literal (plain : ∀ c ∈ t, isLiteral c) (atStart : Bool) : readFrom atStart t = some (literal t) := by
  induction t generalizing atStart with
  | nil => rw [readFrom]; rfl
  | cons c t ih =>
    obtain ⟨first, rest⟩ := List.forall_mem_cons.1 plain
    rw [readFrom_cons first, ih rest]
    rfl

/-- Behind literal text that ends in a slash a pattern is read as on its own. -/
theorem readFrom_append_slash (plain : ∀ c ∈ t, isLiteral c) (atStart : Bool) (rest : Text) :
    readFrom atStart (t ++ '/' :: rest) = (read rest).map (literal (t ++ ['/']) ++ ·) := by
  induction t generalizing atStart with
  | nil => exact readFrom_cons rfl atStart rest
  | cons c t ih =>
    obtain ⟨first, others⟩ := List.forall_mem_cons.1 plain
    rw [List.cons_append, readFrom_cons first, ih others, Option.map_map]
    rfl

/-- A class is read as a class. -/
theorem readClass_ne_char {t after : Text} {c : Char} (h : readClass t = some (.char c, after)) : False := by
  unfold readClass at h
  split at h
  · obtain ⟨_, _, token⟩ := Option.map_eq_some_iff.1 h
    cases token
  · cases h
  · obtain ⟨_, _, token⟩ := Option.map_eq_some_iff.1 h
    cases token
  · cases h

theorem exists_cons_of_literal {x : Option Pattern} {token : Token} {name : Text}
    (h : x.map (token :: ·) = some (literal name)) :
    ∃ c others, token = .char c ∧ name = c :: others ∧ x = some (literal others) := by
  obtain ⟨p, read, whole⟩ := Option.map_eq_some_iff.1 h
  cases name with
  | nil => cases whole
  | cons c others =>
    obtain ⟨same, rest⟩ := List.cons.inj whole
    exact ⟨c, others, same, rfl, read.trans (congrArg some rest)⟩

/-- Only the text itself is read as a literal pattern. -/
theorem eq_of_readFrom_eq_literal {atStart : Bool} {name : Text} (h : readFrom atStart t = some (literal name)) :
    t = name := by
  fun_induction readFrom atStart t generalizing name with
  | case1 =>
    cases name with
    | nil => rfl
    | cons => cases h
  | case2 =>
    cases name with
    | nil => cases h
    | cons => cases h
  | case4 | case5 | case8 | case10 => cases h
  | case3 | case6 | case7 =>
    obtain ⟨_, _, token, _⟩ := exists_cons_of_literal h
    cases token
  | case9 _ _ token after cut =>
    obtain ⟨_, _, token, _⟩ := exists_cons_of_literal h
    subst token
    exact (readClass_ne_char cut).elim
  | case11 _ c rest _ _ _ _ ih =>
    obtain ⟨_, others, token, rfl, read⟩ := exists_cons_of_literal h
    cases token
    rw [ih read]

theorem literal?_char_cons (c : Char) (p : Pattern) :
    Pattern.literal? (.char c :: p) = p.literal?.map (c :: ·) := by
  rw [Pattern.literal?, List.mapM_cons, ← Pattern.literal?]
  cases p.literal? <;> rfl

theorem literal?_eq_some {name : Text} : p.literal? = some name ↔ p = literal name := by
  induction p generalizing name with
  | nil => cases name <;> simp [Pattern.literal?, literal]
  | cons token p ih =>
    cases token with
    | char c =>
      rw [literal?_char_cons, Option.map_eq_some_iff]
      cases name with
      | nil => simp [literal]
      | cons d name => simp [ih, literal, and_comm]
    | anyChar | anyRun | anyDepth | within | outside => cases name <;> simp [Pattern.literal?, literal]

theorem isDeep_literal (t : Text) : (literal t).isDeep = false := by
  simp [Pattern.isDeep, literal]

/-! ## Matching -/

/-- A literal pattern matches its text. -/
theorem matchesText_literal (t s : Text) : (literal t).matchesText s = (s == t) := by
  induction t generalizing s with
  | nil => cases s <;> rfl
  | cons c t ih =>
    rw [literal, List.map_cons, ← literal, Pattern.matchesText]
    cases s with
    | nil => rfl
    | cons d s => rw [List.head?_cons, List.tail_cons, ih]; rfl

/-- Behind its literal text a pattern matches what it matches on its own. -/
theorem matchesText_literal_append (t : Text) (p : Pattern) (s : Text) :
    (literal t ++ p).matchesText (t ++ s) = p.matchesText s := by
  induction t with
  | nil => rfl
  | cons c t ih =>
    rw [literal, List.map_cons, List.cons_append, ← literal, Pattern.matchesText, List.cons_append, List.head?_cons,
      beq_self_eq_true, Bool.true_and, List.tail_cons, ih]

/-- What a pattern with literal text in front matches has this text in front. -/
theorem prefix_of_matchesText {s : Text} (h : (literal t ++ p).matchesText s) : t <+: s := by
  induction t generalizing s with
  | nil => exact List.nil_prefix
  | cons c t ih =>
    rw [literal, List.map_cons, List.cons_append, ← literal, Pattern.matchesText, Bool.and_eq_true, beq_iff_eq] at h
    cases s with
    | nil => cases h.1
    | cons d s =>
      cases h.1
      exact List.cons_prefix_cons.2 ⟨rfl, ih h.2⟩

/-! ## Seeking -/

theorem collapseDeep_literals (names : List Text) (ps : List Pattern) :
    collapseDeep (names.map literal ++ ps) = names.map literal ++ collapseDeep ps := by
  induction names with
  | nil => rfl
  | cons name names ih =>
    rw [List.map_cons, List.cons_append, collapseDeep, isDeep_literal, if_neg Bool.false_ne_true, ih, List.cons_append]

theorem mem_of_mem_collapseDeep {ps : List Pattern} (h : p ∈ collapseDeep ps) : p ∈ ps := by
  fun_induction collapseDeep ps with
  | case1 => exact h
  | case2 q rest _ ih =>
    rcases List.mem_cons.1 h with rfl | further
    · exact List.mem_cons_self
    · exact List.mem_cons_of_mem _ ((List.dropWhile_suffix _).subset (ih further))
  | case3 q rest _ ih =>
    rcases List.mem_cons.1 h with rfl | further
    · exact List.mem_cons_self
    · exact List.mem_cons_of_mem _ (ih further)

theorem collapseDeep_ne_nil {ps : List Pattern} (proper : ps ≠ []) : collapseDeep ps ≠ [] := by
  cases ps with
  | nil => exact absurd rfl proper
  | cons p rest =>
    rw [collapseDeep]
    split <;> exact List.cons_ne_nil _ _

section Seeking

variable {tree : FileTree} {node last : FileNode} {done names : List Text} {ps : List Pattern}

/-- **Literal names lead to what is below them**, where the rest of the pattern is sought. -/
theorem lookUp_literals (isDir : tree.root.isDir) (proper : ps ≠ []) (plain : ∀ name ∈ done ++ names, Path.IsName name)
    (here : tree.root.descend? done = some node) (there : node.descend? names = some last) :
    lookUp tree (names.map literal ++ ps) (Path.ofNames done) node =
      lookUp tree ps (Path.ofNames (done ++ names)) last := by
  induction names generalizing done node with
  | nil =>
    cases there
    rw [List.append_nil]
    rfl
  | cons name names ih =>
    obtain ⟨child, found, below⟩ := Option.bind_eq_some_iff.1 there
    have whole : done ++ name :: names = done ++ [name] ++ names := by simp
    rw [whole] at plain ⊢
    obtain ⟨plain', _⟩ := List.forall_mem_append.1 plain
    obtain ⟨before, isName⟩ := List.forall_mem_append.1 plain'
    have isName := isName name (List.mem_singleton.2 rfl)
    have here' : tree.root.descend? (done ++ [name]) = some child := by
      rw [FileNode.descend?_concat, here]
      exact found
    have next : tree.get? (Path.ofNames (done ++ [name])) = some child := by
      rw [FileTree.get?_ofNames isDir plain', here']
    have noDots : ¬ (name = "." ∨ name = "..") := by
      rintro (rfl | rfl)
      · cases isName.isSilent
      · exact isName.ne_dots rfl
    have more : (names.map literal ++ ps).isEmpty = false := by simp [proper]
    rw [List.map_cons, List.cons_append, lookUp, literal?_eq_some.2 rfl]
    simp only [step_of_isAbsolute (Path.isAbsolute_ofNames before), ← Path.ofNames_concat, FileTree.holds, next, more,
      noDots]
    simpa using ih plain here' below

theorem mapM_read_append (literals : ∀ name ∈ done, ∀ c ∈ name, isLiteral c) (names : List Text) :
    (done ++ names).mapM read = (names.mapM read).map (done.map literal ++ ·) := by
  induction done with
  | nil => exact Option.map_id'.symm
  | cons name done ih =>
    obtain ⟨first, others⟩ := List.forall_mem_cons.1 literals
    rw [List.cons_append, List.mapM_cons, read, readFrom_literal first, ih others]
    cases names.mapM read <;> rfl

theorem exists_of_mapM_read_cons {name : Text} (patterns : (name :: names).mapM read = some ps) :
    ∃ p others, read name = some p ∧ names.mapM read = some others ∧ ps = p :: others := by
  rw [List.mapM_cons] at patterns
  obtain ⟨p, reads, patterns⟩ := Option.bind_eq_some_iff.1 patterns
  obtain ⟨others, rest, whole⟩ := Option.bind_eq_some_iff.1 patterns
  cases whole
  exact ⟨p, others, reads, rest, rfl⟩

/-- Each pattern of a list is read from one of the names. -/
theorem exists_read_of_mem (patterns : names.mapM read = some ps) (mem : p ∈ ps) :
    ∃ name ∈ names, read name = some p := by
  induction names generalizing ps with
  | nil =>
    cases patterns
    cases mem
  | cons name names ih =>
    obtain ⟨q, others, reads, rest, rfl⟩ := exists_of_mapM_read_cons patterns
    rcases List.mem_cons.1 mem with rfl | further
    · exact ⟨name, List.mem_cons_self, reads⟩
    · obtain ⟨name', listed, reads'⟩ := ih rest further
      exact ⟨name', List.mem_cons_of_mem _ listed, reads'⟩

/-- **What a pattern stands for below a directory without metacharacters** is what the rest of it finds there. -/
theorem expand_ofNames (plain : ∀ name ∈ done ++ names, Path.IsName name) (proper : names ≠ [])
    (literals : ∀ c ∈ Path.slashed done, isLiteral c) (here : tree.get? (Path.ofNames done) = some node) :
    expand tree (Path.ofNames (done ++ names)) =
      match read (Text.join "/" names), names.mapM read with
      | some _, some ps => lookUp tree (collapseDeep ps) (Path.ofNames done) node
      | _, _ => [] := by
  have isDir := FileTree.isDir_root here
  have whole : done ++ names ≠ [] := List.append_ne_nil_of_right_ne_nil _ proper
  have text : (Path.ofNames (done ++ names)).text = Path.slashed done ++ '/' :: Text.join "/" names := by
    rw [Path.text_ofNames_slashed plain whole, Path.slashed_append, Path.slashed_eq_cons_join proper]
  have text' : (Path.ofNames (done ++ names)).text = '/' :: Text.join "/" (done ++ names) := by
    rw [Path.text_ofNames_slashed plain whole, Path.slashed_eq_cons_join whole]
  have segments : Text.splitOn '/' (Text.join "/" (done ++ names)) = done ++ names :=
    Text.splitOn_join (fun name mem => (plain name mem).2) whole
  have inside : ∀ name ∈ done, ∀ c ∈ name, isLiteral c := fun name mem c letter =>
    literals c (List.mem_flatMap.2 ⟨name, mem, List.mem_cons_of_mem _ letter⟩)
  have there : tree.root.descend? done = some node := by
    rw [← FileTree.get?_ofNames isDir fun name mem => plain name (List.mem_append_left _ mem), here]
  have start : tree.get? ⟨"/"⟩ = some tree.root := by
    change tree.get? (Path.ofNames []) = _
    exact FileTree.get?_ofNames isDir nofun
  have readWhole : read (Path.ofNames (done ++ names)).text =
      (read (Text.join "/" names)).map (literal (Path.slashed done ++ ['/']) ++ ·) := by
    rw [text]
    exact readFrom_append_slash literals true _
  unfold expand
  rw [readWhole, text']
  simp only [segments, mapM_read_append inside, start]
  cases read (Text.join "/" names) with
  | none => rfl
  | some =>
    cases patterns : names.mapM read with
    | none => rfl
    | some ps =>
      have proper' : ps ≠ [] := by
        obtain ⟨name, rest, rfl⟩ := List.exists_cons_of_ne_nil proper
        obtain ⟨_, _, _, _, rfl⟩ := exists_of_mapM_read_cons patterns
        exact List.cons_ne_nil _ _
      have plain' : ∀ name ∈ [] ++ done, Path.IsName name := fun name mem => plain name (List.mem_append_left _ mem)
      simp only [Option.map_some, collapseDeep_literals]
      exact lookUp_literals isDir (collapseDeep_ne_nil proper') plain' rfl there

end Seeking

/-! ## Names of dots -/

/-- Whether a component can lead to the directory above: it starts with a dot and matches `..`. -/
def climbs (segment : Text) : Bool := (read segment).any fun p => p.head? == some (.char '.') && p.matchesText ".."

theorem nil_mem_endings (t : Text) : [] ∈ endings t := by
  induction t with
  | nil => exact List.mem_cons_self
  | cons c t ih => exact List.mem_cons_of_mem _ ih

theorem nil_mem_deepEndings (t : Text) : [] ∈ deepEndings t := by
  refine List.mem_cons_of_mem _ ?_
  induction t with
  | nil => exact List.mem_cons_self
  | cons c t ih =>
    rw [deepEndings.afterSlashes]
    split
    · exact List.mem_cons_of_mem _ ih
    · exact ih

/-- A pattern that has tokens and matches nothing starts with a run, and so it matches anything. -/
theorem matchesText_of_matchesText_nil (proper : p ≠ []) (empty : p.matchesText []) (t : Text) : p.matchesText t := by
  cases p with
  | nil => exact absurd rfl proper
  | cons token p =>
    cases token with
    | char | anyChar | within | outside => simp [Pattern.matchesText] at empty
    | anyRun =>
      have rest : Pattern.matchesText p [] := by simpa [Pattern.matchesText, endings] using empty
      rw [Pattern.matchesText]
      exact List.any_eq_true.2 ⟨[], nil_mem_endings t, rest⟩
    | anyDepth =>
      have rest : Pattern.matchesText p [] := by
        simpa [Pattern.matchesText, deepEndings, deepEndings.afterSlashes] using empty
      rw [Pattern.matchesText]
      exact List.any_eq_true.2 ⟨[], nil_mem_deepEndings t, rest⟩

/-- **A name that does not climb asks for names only.** -/
theorem isName_of_asksFor {segment name : Text} (isName : Path.IsName segment) (stays : climbs segment = false)
    (reads : read segment = some p) (asks : p.AsksFor name) : Path.IsName name := by
  rcases asks with own | ⟨start, dots, matched⟩
  · rw [literal?_eq_some] at own
    rwa [← eq_of_readFrom_eq_literal (reads.trans (congrArg some own))]
  · exfalso
    have above : p.matchesText ".." = false := by
      simpa [climbs, reads, start] using stays
    cases p with
    | nil => cases start
    | cons token q =>
      cases start
      rcases List.mem_cons.1 dots with rfl | dots
      · exact Bool.false_ne_true (above.symm.trans matched)
      · obtain rfl := List.mem_singleton.1 dots
        by_cases alone : q = []
        · subst alone
          -- the dot alone is no name
          obtain rfl : segment = ['.'] := eq_of_readFrom_eq_literal reads
          cases isName.isSilent
        · have rest : Pattern.matchesText q [] := by simpa [Pattern.matchesText] using matched
          have more : Pattern.matchesText (.char '.' :: q) ".." = Pattern.matchesText q ['.'] := by
            simp [Pattern.matchesText]
          rw [more, matchesText_of_matchesText_nil alone rest] at above
          cases above

end SolutionGraph.Glob
