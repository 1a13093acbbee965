import Mathlib.Data.List.Basic
import SolutionGraph.Text.Finite
import SolutionGraph.Text.Position

/-!
# Cutting texts at positions

* **cutting**: a text that is put together is cut apart at the length of its first part (`cutAt?_append`,
  `slice?_append`);
* **finding**: a part is found where it stands, and then behind itself (`matchesFrom_append`);
* **letter case**: small letters take as many bytes as the letters they are made of (`byteLength_asciiLower`), so positions
  in the one text are positions in the other.
-/

namespace SolutionGraph.Text

/-! ## Lengths -/

section Lengths

variable {a b c t : Text}

theorem byteLength_append (a b : Text) : byteLength (a ++ b) = byteLength a + byteLength b := by
  rw [byteLength, encode, List.flatMap_append, List.length_append]
  rfl

theorem byteLength_cons (x : Char) (t : Text) : byteLength (x :: t) = (encodeChar x).length + byteLength t := by
  rw [byteLength, encode, List.flatMap_cons, List.length_append]
  rfl

theorem length_encodeChar_lowerAscii (x : Char) : (encodeChar (lowerAscii x)).length = (encodeChar x).length := by
  by_cases low : x.toNat < 91
  · have each : ∀ n < 91, (encodeChar (lowerAscii (Char.ofNat n))).length = (encodeChar (Char.ofNat n)).length := by
      decide +kernel
    have here := each x.toNat low
    rwa [Char.ofNat_toNat] at here
  · have stays : lowerAscii x = x := if_neg fun capital => low (Nat.lt_succ_of_le capital.2)
    rw [stays]

theorem byteLength_asciiLower (t : Text) : byteLength (asciiLower t) = byteLength t := by
  induction t with
  | nil => rfl
  | cons x t ih =>
    have lower : asciiLower (x :: t) = lowerAscii x :: asciiLower t := rfl
    rw [lower, byteLength_cons, byteLength_cons, length_encodeChar_lowerAscii, ih]

/-! ## Cutting -/

theorem cutAt?_append (a b : Text) : cutAt? (a ++ b) (byteLength a) = some (a, b) := by
  induction a with
  | nil =>
    rw [List.nil_append, show byteLength [] = 0 from rfl]
    cases b <;> rfl
  | cons x a ih =>
    have size := encodeChar_length_pos x
    obtain ⟨n, whole⟩ : ∃ n, byteLength (x :: a) = n + 1 := Nat.exists_eq_add_one.2 (by rw [byteLength_cons]; omega)
    have fits : ¬ n + 1 < (encodeChar x).length := by rw [← whole, byteLength_cons]; omega
    have left : n + 1 - (encodeChar x).length = byteLength a := by rw [← whole, byteLength_cons]; omega
    rw [List.cons_append, whole, cutAt?]
    simp only [if_neg fits, left, ih, Option.map_some]

theorem sliceFrom?_append (a b : Text) : sliceFrom? (a ++ b) (byteLength a) = some b := by
  rw [sliceFrom?, cutAt?_append]
  rfl

theorem slice?_append (a b c : Text) : slice? (a ++ b ++ c) (byteLength a) (byteLength (a ++ b)) = some b := by
  rw [slice?, cutAt?_append]
  exact sliceFrom?_append a b

end Lengths

/-! ## Finding -/

section Finding

variable {part t : Text} {c : Char}

theorem matchesFrom_skip (part : Text) (position : Nat) (skipped t : Text) :
    matchesFrom part position skipped.length (skipped ++ t) = matchesFrom part (position + byteLength skipped) 0 t := by
  induction skipped generalizing position with
  | nil => rfl
  | cons c skipped ih =>
    rw [List.length_cons, List.cons_append, matchesFrom, byteLength_cons, ← Nat.add_assoc]
    exact ih _

/-- **A part is found where it stands**, and is sought behind itself then. -/
theorem matchesFrom_append (some : part ≠ []) (position : Nat) (t : Text) :
    matchesFrom part position 0 (part ++ t) = position :: matchesFrom part (position + byteLength part) 0 t := by
  obtain ⟨c, rest, rfl⟩ := List.exists_cons_of_ne_nil some
  have starts : (c :: rest).isPrefixOf (c :: (rest ++ t)) := List.isPrefixOf_iff_prefix.2 ⟨t, rfl⟩
  rw [List.cons_append, matchesFrom]
  simp only [if_pos starts, List.length_cons, Nat.add_sub_cancel]
  rw [matchesFrom_skip, byteLength_cons, Nat.add_assoc]

theorem matchesFrom_cons (other : ¬ part.isPrefixOf (c :: t)) (position : Nat) :
    matchesFrom part position 0 (c :: t) = matchesFrom part (position + (encodeChar c).length) 0 t := by
  rw [matchesFrom]
  simp only [if_neg other]

end Finding

end SolutionGraph.Text
