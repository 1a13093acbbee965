import SolutionGraph.Text.Utf8

/-!
# Texts up to a length

There are finitely many texts up to a given length, and `upTo` lists them. The list is a measure for searches that never
come to the same text twice; it is not meant to be run.
-/

namespace SolutionGraph.Text

/-- All characters. -/
noncomputable def alphabet : List Char := (List.range 0x110000).map Char.ofNat

/-- Every character is in the alphabet. -/
theorem mem_alphabet (c : Char) : c ∈ alphabet := by
  refine List.mem_map.2 ⟨c.toNat, List.mem_range.2 ?_, Char.ofNat_toNat c⟩
  have valid := c.valid
  simp only [UInt32.isValidChar, Nat.isValidChar] at valid
  simp only [Char.toNat]
  omega

/-- All texts of at most `n` characters. -/
noncomputable def upTo : Nat → List Text
  | 0 => [[]]
  | n + 1 => [] :: alphabet.flatMap fun c => (upTo n).map (c :: ·)

/-- Every text of at most `n` characters is listed. -/
theorem mem_upTo {t : Text} {n : Nat} (h : t.length ≤ n) : t ∈ upTo n := by
  induction n generalizing t with
  | zero =>
    rw [List.length_eq_zero_iff.1 (Nat.le_zero.1 h)]
    exact List.mem_singleton.2 rfl
  | succ n ih =>
    cases t with
    | nil => exact List.mem_cons.2 (.inl rfl)
    | cons c rest =>
      refine List.mem_cons.2 (.inr (List.mem_flatMap.2 ⟨c, mem_alphabet c, ?_⟩))
      exact List.mem_map.2 ⟨rest, ih (Nat.le_of_succ_le_succ h), rfl⟩

/-- A character takes at least one byte. -/
theorem encodeChar_length_pos (c : Char) : 0 < (encodeChar c).length := by
  unfold encodeChar
  simp only
  split
  · simp
  · split
    · simp
    · split <;> simp

/-- A text has no more characters than bytes. -/
theorem length_le_byteLength (t : Text) : t.length ≤ byteLength t := by
  induction t with
  | nil => exact Nat.zero_le _
  | cons c rest ih =>
    have pos := encodeChar_length_pos c
    simp only [byteLength, encode, List.flatMap_cons, List.length_append, List.length_cons] at ih ⊢
    omega

end SolutionGraph.Text
