import SolutionGraph.Path.Basic
import SolutionGraph.Text.Finite

/-!
# Paths that can be opened

A path of more than `Path.longest` bytes cannot be opened. So there are finitely many paths that can be, and a search that
takes each of them at most once ends, whatever the files are (`Path.mem_openable`).
-/

namespace SolutionGraph.Path

/-- The most bytes that a path may have. -/
def longest : Nat := 4095

/-- Whether a path is short enough to be opened. -/
def isOpenable (p : Path) : Bool := Text.byteLength p.text ≤ longest

/-- All paths that are short enough to be opened. -/
noncomputable def openable : List Path := (Text.upTo longest).map Path.mk

/-- Every path that is short enough is listed. -/
theorem mem_openable {p : Path} (h : p.isOpenable) : p ∈ openable := by
  refine List.mem_map.2 ⟨p.text, Text.mem_upTo (Nat.le_trans (Text.length_le_byteLength _) ?_), rfl⟩
  simpa [isOpenable] using h

/-- A path is the same place as itself. -/
theorem same_refl (p : Path) : p.same p := by simp [same]

end SolutionGraph.Path
