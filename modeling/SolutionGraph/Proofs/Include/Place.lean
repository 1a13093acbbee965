import SolutionGraph.Proofs.Include.LogicalLine
import SolutionGraph.Proofs.Text.Lines

/-!
# Comments taken out in parts

Comments are taken out of a line character by character, and `placeAfter` tells where that stands after a part of the
line. The rest of the line is then read from there (`stripFrom_append`), as long as the cut is not within the delimiter
of a comment.
-/

namespace SolutionGraph.Include

open Text (isBlank)

/-- Where a text that is read from a place on ends; there is no such place in a line comment. -/
def placeAfter : Place → Text → Option Place
  | .block, [] => some .block
  | .block, '*' :: '/' :: rest => placeAfter .code rest
  | .block, _ :: rest => placeAfter .block rest
  | .literal delimiter, [] => some (.literal delimiter)
  | .literal delimiter, '\\' :: _ :: rest => placeAfter (.literal delimiter) rest
  | .literal delimiter, c :: rest => placeAfter (if c = delimiter then .code else .literal delimiter) rest
  | .code, [] => some .code
  | .code, '/' :: '/' :: _ => none
  | .code, '/' :: '*' :: rest => placeAfter .block rest
  | .code, c :: rest => placeAfter (if c = '"' ∨ c = '\'' then .literal c else .code) rest

theorem placeAfter_nil (p : Place) : placeAfter p [] = some p := by cases p <;> rfl

/-- A cut before `rest` is not within the delimiter of a comment, where `text` has been read and `written` of it was
kept. -/
def Apart (place : Place) (written text rest : Text) : Prop :=
  match place with
  | .code => written.getLast? = some '/' → rest.head? ≠ some '/' ∧ rest.head? ≠ some '*'
  | .block => text.getLast? = some '*' → rest.head? ≠ some '/'
  | .literal _ => False

section Parts

variable {p p' : Place} {t r written : Text} {c d : Char}

/-- A cut stays where it was when less in front of it is looked at. -/
theorem Apart.of_append (a b : Text) (apart : Apart p (a ++ written) (b ++ t) r) : Apart p written t r := by
  cases p with
  | code => exact fun last => apart (by rw [List.getLast?_append, last, Option.some_or])
  | block => exact fun last => apart (by rw [List.getLast?_append, last, Option.some_or])
  | literal _ => exact apart

theorem code_ne_escape : Place.code ≠ .literal '\\' := nofun

theorem block_ne_escape : Place.block ≠ .literal '\\' := nofun

/-- **The rest of a line** is read from the place where its first part ends. -/
theorem stripFrom_append (notEscape : p ≠ .literal '\\') (place : placeAfter p t = some p')
    (apart : Apart p' (stripFrom p t).1 t r) :
    stripFrom p (t ++ r) = ((stripFrom p t).1 ++ (stripFrom p' r).1, (stripFrom p' r).2) ∧
      placeAfter p (t ++ r) = placeAfter p' r := by
  -- in each case what comes next is read the same with the rest behind it, by `apart` where the cut matters
  fun_induction placeAfter p t with
  | case1 =>
    obtain rfl := Option.some.inj place
    rw [stripFrom]
    exact ⟨rfl, rfl⟩
  | case2 rest ih =>
    rw [stripFrom] at apart ⊢
    obtain ⟨strip, after⟩ := ih code_ne_escape place (apart.of_append [' '] ['*', '/'])
    rw [List.cons_append, List.cons_append, stripFrom, placeAfter, strip, after]
    exact ⟨rfl, rfl⟩
  | case3 c rest inside ih =>
    -- a star at the end of the first part could end the comment
    have inside' : ∀ tail, c = '*' → rest ++ r = '/' :: tail → False := by
      rintro tail rfl cut
      rcases List.append_eq_cons_iff.1 cut with ⟨rfl, rfl⟩ | ⟨rest, rfl, -⟩
      · obtain rfl : Place.block = p' := Option.some.inj place
        exact apart rfl rfl
      · exact inside _ rfl rfl
    rw [stripFrom.eq_3 _ _ inside] at apart ⊢
    obtain ⟨strip, after⟩ := ih block_ne_escape place (apart.of_append [] [c])
    rw [List.cons_append, stripFrom.eq_3 _ _ inside', placeAfter.eq_3 _ _ inside']
    exact ⟨strip, after⟩
  | case4 =>
    obtain rfl := Option.some.inj place
    exact apart.elim
  | case5 d c rest ih =>
    rw [stripFrom.eq_5] at apart ⊢
    obtain ⟨strip, after⟩ := ih notEscape place (apart.of_append ['\\', c] ['\\', c])
    rw [List.cons_append, List.cons_append, stripFrom.eq_5, placeAfter.eq_5, strip, after]
    exact ⟨rfl, rfl⟩
  | case6 d c rest single ih =>
    -- a backslash at the end of the first part leaves it in the literal
    have single' : ∀ e tail, c = '\\' → rest ++ r = e :: tail → False := by
      rintro e tail rfl cut
      rcases List.append_eq_cons_iff.1 cut with ⟨rfl, rfl⟩ | ⟨rest, rfl, -⟩
      · rw [if_neg fun same => notEscape (congrArg Place.literal same.symm)] at place
        obtain rfl := Option.some.inj place
        exact apart
      · exact single _ _ rfl rfl
    have notEscape' : (if c = d then .code else Place.literal d) ≠ .literal '\\' := by
      split
      · exact code_ne_escape
      · exact notEscape
    rw [stripFrom.eq_6 _ _ _ single] at apart ⊢
    obtain ⟨strip, after⟩ := ih notEscape' place (apart.of_append [c] [c])
    rw [List.cons_append, stripFrom.eq_6 _ _ _ single', placeAfter.eq_6 _ _ _ single', strip, after]
    exact ⟨rfl, rfl⟩
  | case7 =>
    obtain rfl := Option.some.inj place
    rw [stripFrom]
    exact ⟨rfl, rfl⟩
  | case8 => cases place
  | case9 rest ih =>
    rw [stripFrom.eq_9] at apart ⊢
    obtain ⟨strip, after⟩ := ih block_ne_escape place (apart.of_append [] ['/', '*'])
    rw [List.cons_append, List.cons_append, stripFrom.eq_9, placeAfter.eq_9]
    exact ⟨strip, after⟩
  | case10 c rest notLine notBlock ih =>
    -- a slash at the end of the first part could begin a comment
    have alone : rest = [] → c = '/' → r.head? ≠ some '/' ∧ r.head? ≠ some '*' := by
      rintro rfl rfl
      rw [if_neg (by decide)] at place
      obtain rfl := Option.some.inj place
      exact apart rfl
    have notLine' : ∀ tail, c = '/' → rest ++ r = '/' :: tail → False := by
      rintro tail slash cut
      rcases List.append_eq_cons_iff.1 cut with ⟨rfl, rfl⟩ | ⟨rest, rfl, -⟩
      · exact (alone rfl slash).1 rfl
      · exact notLine _ slash rfl
    have notBlock' : ∀ tail, c = '/' → rest ++ r = '*' :: tail → False := by
      rintro tail slash cut
      rcases List.append_eq_cons_iff.1 cut with ⟨rfl, rfl⟩ | ⟨rest, rfl, -⟩
      · exact (alone rfl slash).2 rfl
      · exact notBlock _ slash rfl
    have notEscape' : (if c = '"' ∨ c = '\'' then .literal c else Place.code) ≠ .literal '\\' := by
      split
      · rename_i quote
        intro same
        obtain rfl := Place.literal.inj same
        exact absurd quote (by decide)
      · exact code_ne_escape
    rw [stripFrom.eq_10 _ _ notLine notBlock] at apart ⊢
    obtain ⟨strip, after⟩ := ih notEscape' place (apart.of_append [c] [c])
    rw [List.cons_append, stripFrom.eq_10 _ _ notLine' notBlock', placeAfter.eq_10 _ _ notLine' notBlock', strip, after]
    exact ⟨rfl, rfl⟩

/-- In code, something is kept of every text that is not empty. -/
theorem eq_nil_of_stripFrom_code (place : placeAfter p t = some .code) (none : (stripFrom p t).1 = []) :
    p = .code ∧ t = [] := by
  fun_induction placeAfter p t with
  | case1 => cases place
  | case2 =>
    rw [stripFrom] at none
    cases none
  | case3 c rest inside ih =>
    rw [stripFrom.eq_3 _ _ inside] at none
    cases (ih place none).1
  | case4 => cases place
  | case5 =>
    rw [stripFrom] at none
    cases none
  | case6 d c rest single =>
    rw [stripFrom.eq_6 _ _ _ single] at none
    cases none
  | case7 => exact ⟨rfl, rfl⟩
  | case8 => cases place
  | case9 rest ih =>
    rw [stripFrom.eq_9] at none
    cases (ih place none).1
  | case10 c rest notLine notBlock =>
    rw [stripFrom.eq_10 _ _ notLine notBlock] at none
    cases none

/-- What is kept of the rest of a block comment begins with the blank that the comment leaves, if it ends at all. -/
theorem head?_stripFrom_block (t : Text) : ∀ c ∈ (stripFrom .block t).1.head?, isBlank c := by
  induction t with
  | nil =>
    rw [stripFrom]
    rintro _ ⟨⟩
  | cons c t ih =>
    by_cases closes : c = '*' ∧ ∃ rest, t = '/' :: rest
    · obtain ⟨rfl, rest, rfl⟩ := closes
      rw [stripFrom]
      rintro _ ⟨⟩
      decide
    · rw [stripFrom.eq_3 _ _ fun rest star slash => closes ⟨star, rest, slash⟩]
      exact ih

end Parts

/-! ## Carriage returns -/

/-- A carriage return at the end of a line is kept at the end of what is kept, or not at all. -/
theorem stripFrom_append_return (p : Place) (t : Text) : ∃ b, (∀ c ∈ b, isBlank c) ∧
    stripFrom p (t ++ ['\r']) = ((stripFrom p t).1 ++ b, (stripFrom p t).2) := by
  have cons_of : ∀ {rest tail : Text} {d : Char}, rest ++ ['\r'] = d :: tail → d ≠ '\r' →
      ∃ rest', rest = d :: rest' := by
    rintro rest tail d cut other
    rcases List.append_eq_cons_iff.1 cut with ⟨-, same⟩ | ⟨rest, rfl, -⟩
    · exact absurd (List.cons.inj same).1.symm other
    · exact ⟨rest, rfl⟩
  have blank : ∀ c ∈ ['\r'], isBlank c := List.forall_mem_singleton.2 rfl
  fun_induction stripFrom p t with
  | case1 => exact ⟨[], List.forall_mem_nil _, rfl⟩
  | case2 rest r ih =>
    obtain ⟨b, blank, same⟩ := ih
    refine ⟨b, blank, ?_⟩
    rw [List.cons_append, List.cons_append, stripFrom.eq_2, same]
    rfl
  | case3 c rest inside ih =>
    obtain ⟨b, blank, same⟩ := ih
    refine ⟨b, blank, ?_⟩
    rw [List.cons_append, stripFrom.eq_3, same]
    rintro tail rfl cut
    obtain ⟨rest, rfl⟩ := cons_of cut (by decide)
    exact inside _ rfl rfl
  | case4 d =>
    refine ⟨['\r'], blank, ?_⟩
    have single : ∀ e tail, '\r' = '\\' → ([] : Text) = e :: tail → False := by
      rintro _ _ same
      exact absurd same (by decide)
    rw [List.nil_append, stripFrom.eq_6 _ _ _ single]
    split <;> rw [stripFrom]
  | case5 d c rest r ih =>
    obtain ⟨b, blank, same⟩ := ih
    refine ⟨b, blank, ?_⟩
    rw [List.cons_append, List.cons_append, stripFrom.eq_5, same]
    rfl
  | case6 d c rest single r ih =>
    by_cases escape : c = '\\' ∧ rest = []
    · obtain ⟨rfl, rfl⟩ := escape
      refine ⟨['\r'], blank, ?_⟩
      have nothing : r = ([], false) := by
        unfold r
        split <;> rw [stripFrom]
      rw [nothing, List.cons_append, List.nil_append, stripFrom.eq_5, stripFrom.eq_4]
    · obtain ⟨b, blank, same⟩ := ih
      refine ⟨b, blank, ?_⟩
      rw [List.cons_append, stripFrom.eq_6, same]
      · rfl
      · rintro e tail rfl cut
        rcases List.append_eq_cons_iff.1 cut with ⟨rfl, -⟩ | ⟨rest, rfl, -⟩
        · exact escape ⟨rfl, rfl⟩
        · exact single _ _ rfl rfl
  | case7 => exact ⟨['\r'], blank, rfl⟩
  | case8 tail => exact ⟨[], List.forall_mem_nil _, rfl⟩
  | case9 rest ih =>
    obtain ⟨b, blank, same⟩ := ih
    refine ⟨b, blank, ?_⟩
    rw [List.cons_append, List.cons_append, stripFrom.eq_9, same]
  | case10 c rest notLine notBlock r ih =>
    obtain ⟨b, blank, same⟩ := ih
    refine ⟨b, blank, ?_⟩
    rw [List.cons_append, stripFrom.eq_10, same]
    · rfl
    · rintro tail slash cut
      obtain ⟨rest, rfl⟩ := cons_of cut (by decide)
      exact notLine _ slash rfl
    · rintro tail slash cut
      obtain ⟨rest, rfl⟩ := cons_of cut (by decide)
      exact notBlock _ slash rfl

theorem stripComments_dropReturn (inBlock : Bool) (line : Text) :
    stripComments inBlock (Text.dropReturn line) = stripComments inBlock line := by
  rcases List.eq_nil_or_concat' line with rfl | ⟨t, c, rfl⟩
  · rfl
  by_cases ends : c = '\r'
  · subst ends
    have dropped : Text.dropReturn (t ++ ['\r']) = t := by
      unfold Text.dropReturn
      rw [List.getLast?_concat]
      exact List.dropLast_concat
    obtain ⟨b, blank, same⟩ := stripFrom_append_return (if inBlock then .block else .code) t
    rw [dropped, stripComments, stripComments, same, Text.trimEnd_append_right blank]
  · have kept : Text.dropReturn (t ++ [c]) = t ++ [c] := by
      unfold Text.dropReturn
      rw [List.getLast?_concat]
      split
      · rename_i same
        exact absurd (Option.some.inj same) ends
      · rfl
    rw [kept]

end SolutionGraph.Include
