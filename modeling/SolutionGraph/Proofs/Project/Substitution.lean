import SolutionGraph.Project.Evaluate
import SolutionGraph.Proofs.FileTree.Find
import SolutionGraph.Proofs.Property.List
import SolutionGraph.Proofs.Text.Position

/-!
# Options that refer to themselves

A list option keeps its value so far where its text refers to the option itself, in any case. Text by text:

* **substitution**: the value comes in at each reference (`replaceReferences_reference`) and nothing else changes
  (`replaceReferences_append`);
* **positions**: the references are found in a copy in small letters, and what is cut out at their positions is the same
  (`substituteMetadata_eq`);
* **lists** are taken entry by entry (`splitList_replaceReferences`), so a reference that is an entry of its own brings in
  the entries of the value (`mem_splitList_replaceReferences`);
* **templates**: a `Template` is a text cut at its references, and `Template.Makes` says what becomes of a value in it.
  Pieces in which no reference can start are not expanded, nor is what they have brought in before (`accumulate_template`).
-/

namespace SolutionGraph.Project

namespace Descriptor

/-! ## Substitution -/

/-- How an option refers to its own value so far. -/
def selfReference (name : Text) : Text := "%(" ++ name ++ ")"

/-- Whether a text begins with a reference to an option, in any case. -/
def startsReference (name t : Text) : Bool := (Text.asciiLower (selfReference name)).isPrefixOf (Text.asciiLower t)

/-- A text with the value so far in place of each reference, put in where a reference is met. -/
def replaceReferences (name previous : Text) : Text → Text
  | [] => []
  | c :: rest =>
    if startsReference name (c :: rest) then
      previous ++ replaceReferences name previous ((c :: rest).drop (selfReference name).length)
    else c :: replaceReferences name previous rest
termination_by t => t.length
decreasing_by
  · have some : 0 < (selfReference name).length := Nat.zero_lt_succ _
    rw [List.length_drop, List.length_cons]
    omega
  · exact Nat.lt_succ_self rest.length

section Substitution

variable {name previous t : Text}

theorem lower_selfReference_ne_nil (name : Text) : Text.asciiLower (selfReference name) ≠ [] := List.cons_ne_nil _ _

theorem length_of_spelled {reference : Text} (spelled : Text.eqIgnoringCase reference (selfReference name)) :
    reference.length = (selfReference name).length := by
  have same := congrArg List.length (Text.eqIgnoringCase_iff.1 spelled)
  rwa [Text.asciiLower, Text.asciiLower, List.length_map, List.length_map] at same

theorem startsReference_iff : startsReference name t ↔
    ∃ reference behind, Text.eqIgnoringCase reference (selfReference name) ∧ t = reference ++ behind := by
  rw [startsReference, List.isPrefixOf_iff_prefix]
  constructor
  · intro starts
    refine ⟨t.take (selfReference name).length, t.drop (selfReference name).length, Text.eqIgnoringCase_iff.2 ?_,
      (List.take_append_drop _ t).symm⟩
    have length : (Text.asciiLower (selfReference name)).length = (selfReference name).length := List.length_map _
    rw [Text.asciiLower, List.map_take, ← length]
    exact (List.prefix_iff_eq_take.1 starts).symm
  · rintro ⟨reference, behind, spelled, rfl⟩
    rw [← Text.eqIgnoringCase_iff.1 spelled, Text.asciiLower, Text.asciiLower, List.map_append]
    exact List.prefix_append _ _

/-- A reference gives way to the value so far, whatever its case. -/
theorem replaceReferences_reference {reference : Text} (spelled : Text.eqIgnoringCase reference (selfReference name))
    (t : Text) : replaceReferences name previous (reference ++ t) = previous ++ replaceReferences name previous t := by
  have length := length_of_spelled spelled
  have starts : startsReference name (reference ++ t) := startsReference_iff.2 ⟨reference, t, spelled, rfl⟩
  cases reference with
  | nil => cases length
  | cons c rest =>
    rw [List.cons_append] at starts ⊢
    rw [replaceReferences, if_pos starts, ← length, ← List.cons_append, List.drop_left]

/-- A character that starts no reference stays. -/
theorem replaceReferences_cons {c : Char} (plain : c ≠ '%') (t : Text) :
    replaceReferences name previous (c :: t) = c :: replaceReferences name previous t := by
  have other : ¬ startsReference name (c :: t) := by
    intro starts
    have first := (List.cons_prefix_cons.1 (List.isPrefixOf_iff_prefix.1 starts)).1
    exact plain (Text.eq_of_lowerAscii_eq (d := c) (c := '%') first rfl).symm
  rw [replaceReferences, if_neg other]

theorem replaceReferences_append {piece : Text} (plain : '%' ∉ piece) (t : Text) :
    replaceReferences name previous (piece ++ t) = piece ++ replaceReferences name previous t := by
  induction piece with
  | nil => rfl
  | cons c piece ih =>
    rw [List.mem_cons, not_or] at plain
    rw [List.cons_append, replaceReferences_cons (Ne.symm plain.1), ih plain.2, List.cons_append]

/-- A text without some character cannot reach over it. -/
theorem isPrefixOf_append_cons {part : Text} {c : Char} (clear : c ∉ part) (a b : Text) :
    part.isPrefixOf (a ++ c :: b) = part.isPrefixOf a := by
  induction a generalizing part with
  | nil =>
    cases part with
    | nil => rfl
    | cons x part =>
      rw [List.mem_cons, not_or] at clear
      simp [List.isPrefixOf, Ne.symm clear.1]
  | cons y a ih =>
    cases part with
    | nil => rfl
    | cons x part =>
      rw [List.mem_cons, not_or] at clear
      rw [List.cons_append, List.isPrefixOf, List.isPrefixOf, ih clear.2]

theorem startsReference_append_cons (clear : ';' ∉ name) (a b : Text) :
    startsReference name (a ++ ';' :: b) = startsReference name a := by
  have inside : ';' ∉ Text.asciiLower (selfReference name) := by
    intro mem
    obtain ⟨c, mem, lower⟩ := List.mem_map.1 mem
    obtain rfl : ';' = c := Text.eq_of_lowerAscii_eq (c := ';') lower.symm rfl
    simp only [selfReference, List.mem_append, clear, or_false] at mem
    exact absurd mem (by decide)
  have lower : Text.asciiLower (a ++ ';' :: b) = Text.asciiLower a ++ ';' :: Text.asciiLower b := List.map_append
  rw [startsReference, lower, isPrefixOf_append_cons inside, startsReference]

/-- What stands on one side of a semicolon does not matter to the other side. -/
theorem replaceReferences_append_cons (clear : ';' ∉ name) (a b : Text) :
    replaceReferences name previous (a ++ ';' :: b) =
      replaceReferences name previous a ++ ';' :: replaceReferences name previous b := by
  fun_induction replaceReferences name previous a with
  | case1 => exact replaceReferences_cons (by decide) b
  | case2 c rest starts ih =>
    obtain ⟨reference, behind, spelled, whole⟩ := startsReference_iff.1 starts
    rw [whole, ← length_of_spelled spelled, List.drop_left] at ih
    rw [whole, ← length_of_spelled spelled, List.drop_left, List.append_assoc, replaceReferences_reference spelled, ih,
      List.append_assoc]
  | case3 c rest other ih =>
    rw [← startsReference_append_cons clear _ b] at other
    rw [List.cons_append] at other ⊢
    rw [replaceReferences, if_neg other, ih, List.cons_append]

/-! ### Positions -/

/-- Cutting at the positions that are left puts in the value as it is put in on the way. What is `finished` stands before the
end of the last reference, and `pending` behind it. -/
theorem foldl_substituteAt (finished pending t out : Text) :
    let raw := finished ++ pending ++ t
    let needle := Text.asciiLower (selfReference name)
    let state := (Text.matchesFrom needle (Text.byteLength (finished ++ pending)) 0 (Text.asciiLower t)).foldl
      (substituteAt raw needle previous) (out, Text.byteLength finished)
    state.1 ++ (Text.sliceFrom? raw state.2).getD [] = out ++ pending ++ replaceReferences name previous t := by
  fun_induction replaceReferences name previous t generalizing finished pending out with
  | case1 =>
    have none : Text.asciiLower [] = [] := rfl
    simp only [none, Text.matchesFrom, List.foldl_nil, List.append_nil, Text.sliceFrom?_append, Option.getD_some]
  | case2 c rest starts ih =>
    obtain ⟨reference, behind, spelled, whole⟩ := startsReference_iff.1 starts
    rw [whole, ← length_of_spelled spelled, List.drop_left] at ih ⊢
    have same : Text.asciiLower reference = Text.asciiLower (selfReference name) := Text.eqIgnoringCase_iff.1 spelled
    have lower : Text.asciiLower (reference ++ behind) = Text.asciiLower (selfReference name) ++ Text.asciiLower behind :=
      List.map_append.trans (congrArg (· ++ Text.asciiLower behind) same)
    have size : Text.byteLength (finished ++ pending) + Text.byteLength (Text.asciiLower (selfReference name)) =
        Text.byteLength (finished ++ pending ++ reference) := by
      rw [← same, Text.byteLength_asciiLower, Text.byteLength_append (finished ++ pending)]
    have step : substituteAt (finished ++ pending ++ (reference ++ behind)) (Text.asciiLower (selfReference name)) previous
        (out, Text.byteLength finished) (Text.byteLength (finished ++ pending)) =
          (out ++ pending ++ previous, Text.byteLength (finished ++ pending ++ reference)) := by
      rw [substituteAt, Text.slice?_append, Option.getD_some, size]
    have here := ih (finished ++ pending ++ reference) [] (out ++ pending ++ previous)
    simp only [List.append_nil] at here
    simp only [lower, Text.matchesFrom_append (lower_selfReference_ne_nil name), List.foldl_cons, step, size]
    rw [← List.append_assoc (finished ++ pending), here, List.append_assoc]
  | case3 c rest other ih =>
    have size : Text.byteLength (finished ++ pending) + (Text.encodeChar (Text.lowerAscii c)).length =
        Text.byteLength (finished ++ (pending ++ [c])) := by
      rw [← List.append_assoc, Text.byteLength_append (finished ++ pending), Text.byteLength_cons,
        Text.length_encodeChar_lowerAscii]
      rfl
    have none : Text.matchesFrom (Text.asciiLower (selfReference name)) (Text.byteLength (finished ++ pending)) 0
        (Text.asciiLower (c :: rest)) = Text.matchesFrom (Text.asciiLower (selfReference name))
          (Text.byteLength (finished ++ (pending ++ [c]))) 0 (Text.asciiLower rest) :=
      (Text.matchesFrom_cons other _).trans (by rw [size]; rfl)
    have here := ih finished (pending ++ [c]) out
    simp only [List.append_assoc, List.singleton_append] at here ⊢
    rw [none]
    exact here

/-- **The positions of a copy in small letters cut the text itself**, so that the value stands in place of each reference. -/
theorem substituteMetadata_eq (name previous raw : Text) :
    substituteMetadata name previous raw = replaceReferences name previous raw :=
  foldl_substituteAt [] [] raw []

/-! ### Lists -/

/-- The entries of a list come from its pieces, one by one. -/
theorem splitList_replaceReferences (clear : ';' ∉ name) (raw : Text) :
    splitList (replaceReferences name previous raw) =
      (Text.splitOn ';' raw).flatMap fun piece => splitList (replaceReferences name previous piece) := by
  suffices ∀ pieces, splitList (replaceReferences name previous (Text.join ";" pieces)) =
      pieces.flatMap fun piece => splitList (replaceReferences name previous piece) by
    rw [← this, show (";" : Text) = [';'] from rfl, Text.join_splitOn]
  intro pieces
  induction pieces with
  | nil => simp [Text.join, replaceReferences, splitList, Text.splitOn, Text.trim, Text.trimStart, Text.trimEnd]
  | cons piece pieces ih =>
    cases pieces with
    | nil => simp [Text.join]
    | cons next more =>
      have joined : Text.join ";" (piece :: next :: more) = piece ++ ';' :: Text.join ";" (next :: more) :=
        Text.join_cons_cons ';' piece next more
      rw [joined, replaceReferences_append_cons clear, splitList_append, ih]
      rfl

/-- **A reference that is an entry of its own** brings in the entries of the value so far. -/
theorem mem_splitList_replaceReferences (clear : ';' ∉ name) {raw reference entry : Text}
    (listed : reference ∈ splitList raw) (spelled : Text.eqIgnoringCase reference (selfReference name))
    (mem : entry ∈ splitList previous) : entry ∈ splitList (replaceReferences name previous raw) := by
  obtain ⟨_, piece, cut, trimmed⟩ := mem_splitList.1 listed
  obtain ⟨a, b, whole, before, after⟩ := Text.exists_append_trim piece
  rw [trimmed] at whole
  have here : replaceReferences name previous piece = a ++ (previous ++ b) := by
    have none : replaceReferences name previous [] = [] := by rw [replaceReferences]
    have rest : replaceReferences name previous (b ++ []) = b ++ replaceReferences name previous [] :=
      replaceReferences_append (Text.not_mem_of_blank rfl after) []
    rw [List.append_nil, none, List.append_nil] at rest
    rw [whole, List.append_assoc, replaceReferences_append (Text.not_mem_of_blank rfl before),
      replaceReferences_reference spelled, rest]
  rw [splitList_replaceReferences clear, List.mem_flatMap]
  refine ⟨piece, cut, ?_⟩
  rw [here, splitList_blank_append before, splitList_append_blank after]
  exact mem

end Substitution

end Descriptor

/-! ## One option -/

/-- A text in which an option refers to its own value: a piece, and then each reference with the piece behind it. -/
structure Template where
  first : Text
  rest : List (Text × Text)

namespace Template

/-- How it is written. -/
def text (t : Template) : Text := t.first ++ t.rest.flatMap fun part => part.1 ++ part.2

/-- The text with a value in place of each reference. -/
def fill (t : Template) (value : Text) : Text := t.first ++ t.rest.flatMap fun part => value ++ part.2

/-- The references are those of an option, in any case, and no other one starts in a piece. -/
structure IsFor (t : Template) (name : Text) : Prop where
  first : PropertyBag.IsFree t.first
  references : ∀ part ∈ t.rest, Text.eqIgnoringCase part.1 (Descriptor.selfReference name)
  pieces : ∀ part ∈ t.rest, PropertyBag.IsFree part.2

variable {t : Template} {name value : Text}

theorem IsFor.isFree_fill (h : t.IsFor name) (free : PropertyBag.IsFree value) : PropertyBag.IsFree (t.fill value) := by
  refine h.first.append fun c mem => ?_
  obtain ⟨part, listed, mem⟩ := List.mem_flatMap.1 mem
  exact free.append (h.pieces part listed) c mem

/-- A value stands in what it has filled, if there is a reference at all. -/
theorem infix_fill (some : t.rest ≠ []) : value <:+: t.fill value := by
  obtain ⟨part, rest, parts⟩ := List.exists_cons_of_ne_nil some
  rw [fill, parts, List.flatMap_cons]
  exact ⟨t.first, part.2 ++ rest.flatMap fun part => value ++ part.2, by simp⟩

/-- What a text that refers to an option makes of its value. -/
structure Makes (t : Template) (name before after : Text) : Prop where
  /-- The value before comes in at each reference. -/
  fills : after = t.fill before
  /-- With a reference no text is lost. -/
  keepsText : t.rest ≠ [] → before <:+: after
  /-- With a reference that is an entry of its own no entry is lost. -/
  keepsEntries : (∃ entry ∈ splitList t.text, Text.eqIgnoringCase entry (Descriptor.selfReference name)) →
    ∀ entry ∈ splitList before, entry ∈ splitList after
  /-- Without a reference nothing is kept. -/
  replaces : t.rest = [] → after = t.text

end Template

namespace Descriptor

theorem percent_not_mem {t : Text} (free : PropertyBag.IsFree t) : '%' ∉ t := fun mem => by
  have := free _ mem
  cases this

/-- **Each reference gives way** to the value so far, and nothing else changes. -/
theorem substituteMetadata_template {t : Template} {name : Text} (h : t.IsFor name) (previous : Text) :
    substituteMetadata name previous t.text = t.fill previous := by
  obtain ⟨first, rest⟩ := t
  obtain ⟨free, references, pieces⟩ := h
  rw [substituteMetadata_eq, Template.text, Template.fill, replaceReferences_append (percent_not_mem free)]
  congr 1
  clear free
  induction rest with
  | nil => rw [List.flatMap_nil, replaceReferences, List.flatMap_nil]
  | cons part rest ih =>
    rw [List.forall_mem_cons] at references pieces
    rw [List.flatMap_cons, List.flatMap_cons, List.append_assoc, replaceReferences_reference references.1,
      replaceReferences_append (percent_not_mem pieces.1), ih references.2 pieces.2, List.append_assoc]

theorem makes_fill {t : Template} {name : Text} (clear : ';' ∉ name) (h : t.IsFor name) (before : Text) :
    t.Makes name before (t.fill before) := by
  refine ⟨rfl, Template.infix_fill, ?_, fun none => by rw [Template.fill, Template.text, none]; rfl⟩
  rintro ⟨reference, listed, spelled⟩ entry mem
  rw [← substituteMetadata_template h, substituteMetadata_eq]
  exact mem_splitList_replaceReferences clear listed spelled mem

/-- **The new value of an option** whose value so far has no references in it. -/
theorem accumulate_template (bag : PropertyBag) {t : Template} {name previous : Text} (h : t.IsFor name)
    (free : PropertyBag.IsFree previous) : accumulate bag name previous t.text = t.fill previous := by
  rw [accumulate, substituteMetadata_template h, bag.expand_of_free (h.isFree_fill free)]

end Descriptor

end SolutionGraph.Project
