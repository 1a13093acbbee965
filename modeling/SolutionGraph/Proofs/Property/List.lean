import SolutionGraph.Proofs.Path.Join
import SolutionGraph.Proofs.Text.Lines
import SolutionGraph.Property.Bag

/-!
# List values

A list value is cut at semicolons. So a list that is put between two others has its entries among theirs
(`splitList_append`), and blanks around it do not count (`splitList_blank_append`, `splitList_append_blank`). A text without
references is its own expansion (`PropertyBag.expand_of_free`).
-/

namespace SolutionGraph

namespace Text

variable {separator : Char} {a b : Text}

/-- What is put in front of a text comes in front of its first piece. -/
theorem splitOn_append_left (clear : separator ∉ a) (t : Text) :
    ∃ first rest, splitOn separator t = first :: rest ∧ splitOn separator (a ++ t) = (a ++ first) :: rest := by
  obtain ⟨first, rest, pieces⟩ := List.exists_cons_of_ne_nil (splitOn_ne_nil separator t)
  refine ⟨first, rest, pieces, ?_⟩
  induction a with
  | nil => exact pieces
  | cons c a ih =>
    rw [List.mem_cons, not_or] at clear
    rw [List.cons_append, splitOn, if_neg (Ne.symm clear.1), ih clear.2]
    rfl

/-- What is put behind a text comes behind its last piece. -/
theorem splitOn_append_right (clear : separator ∉ b) (t : Text) :
    ∃ rest last, splitOn separator t = rest ++ [last] ∧ splitOn separator (t ++ b) = rest ++ [last ++ b] := by
  induction t with
  | nil => exact ⟨[], [], rfl, splitOn_of_not_mem clear⟩
  | cons c t ih =>
    obtain ⟨rest, last, pieces, pieces'⟩ := ih
    rw [List.cons_append, splitOn, splitOn, pieces, pieces']
    split
    · exact ⟨[] :: rest, last, rfl, rfl⟩
    · cases rest with
      | nil => exact ⟨[], c :: last, rfl, rfl⟩
      | cons piece rest => exact ⟨(c :: piece) :: rest, last, rfl, rfl⟩

end Text

section Lists

variable {a b : Text}

theorem splitList_append (a b : Text) : splitList (a ++ ';' :: b) = splitList a ++ splitList b := by
  simp only [splitList, Text.splitOn_append, List.map_append, List.filter_append]

theorem splitList_blank_append (blank : ∀ c ∈ a, Text.isBlank c) (t : Text) : splitList (a ++ t) = splitList t := by
  obtain ⟨first, rest, pieces, pieces'⟩ := Text.splitOn_append_left (Text.not_mem_of_blank (c := ';') rfl blank) t
  simp only [splitList, pieces, pieces', List.map_cons, Text.trim_append_left blank]

theorem splitList_append_blank (blank : ∀ c ∈ b, Text.isBlank c) (t : Text) : splitList (t ++ b) = splitList t := by
  obtain ⟨rest, last, pieces, pieces'⟩ := Text.splitOn_append_right (Text.not_mem_of_blank (c := ';') rfl blank) t
  simp only [splitList, pieces, pieces', List.map_append, List.map_singleton, Text.trim_append_right blank]

/-- The entries of a list are its pieces, trimmed and not blank. -/
theorem mem_splitList {raw entry : Text} :
    entry ∈ splitList raw ↔ entry ≠ [] ∧ ∃ piece ∈ Text.splitOn ';' raw, Text.trim piece = entry := by
  rw [splitList, List.mem_filter, List.mem_map, and_comm]
  simp

end Lists

namespace PropertyBag

/-- A text in which no reference can start. -/
def IsFree (t : Text) : Prop := ∀ c ∈ t, isSigil c = false

instance : DecidablePred IsFree := fun t => List.decidableBAll (fun c => isSigil c = false) t

theorem IsFree.append {s t : Text} (hs : IsFree s) (ht : IsFree t) : IsFree (s ++ t) :=
  List.forall_mem_append.2 ⟨hs, ht⟩

/-- A text without references is its own expansion. -/
theorem expand_of_free (bag : PropertyBag) {t : Text} (free : IsFree t) : bag.expand t = t := by
  fun_induction expand bag t with
  | case1 => rfl
  | case2 c => rfl
  | case3 c d rest isReference ih =>
    rw [free c List.mem_cons_self] at isReference
    cases isReference
  | case4 c d rest _ ih => rw [ih fun x mem => free x (List.mem_cons_of_mem _ mem)]

end PropertyBag

end SolutionGraph
