import SolutionGraph.Proofs.Text.Lines
import SolutionGraph.ProjectId

/-!
# Written ids

An id is written with few symbols (`mem_symbols_of_mem_text`), and it is read back from what is written (`parse_text`), also
with blanks around it (`parse?_of_trim_eq`).
-/

namespace SolutionGraph

/-- A text of the first 128 characters takes one byte for each. -/
theorem Text.byteLength_of_ascii {t : Text} (ascii : ∀ c ∈ t, c.toNat < 0x80) : byteLength t = t.length := by
  induction t with
  | nil => rfl
  | cons c t ih =>
    rw [List.forall_mem_cons] at ascii
    have single : (encodeChar c).length = 1 := by simp [encodeChar, ascii.1]
    rw [byteLength, encode, List.flatMap_cons, List.length_append, single, List.length_cons, ← ih ascii.2, Nat.add_comm]
    rfl

namespace ProjectId

/-- The characters that ids are written with. -/
def symbols : Text := "\x7b-\x7d0123456789ABCDEF"

theorem hexDigit_mem_symbols : ∀ d : Fin 16, hexDigit d ∈ symbols := by decide

theorem hexDigit_ne_hyphen : ∀ d : Fin 16, hexDigit d ≠ '-' := by decide

theorem hexValue?_hexDigit : ∀ d : Fin 16, hexValue? (hexDigit d) = some d := by decide

section Writing

variable (id : ProjectId)

/-- The digits as they are written. -/
def digitTexts : Text := id.digits.map hexDigit

/-- The groups of digits. -/
def groups : List Text :=
  [id.digitTexts.take 8, (id.digitTexts.drop 8).take 4, (id.digitTexts.drop 12).take 4, (id.digitTexts.drop 16).take 4,
    id.digitTexts.drop 20]

theorem text_eq : id.text = '\x7b' :: (Text.join "-" id.groups ++ ['\x7d']) := by
  delta text
  simp [groups, digitTexts, Text.join]

theorem length_digitTexts : id.digitTexts.length = 32 := by
  rw [digitTexts, List.length_map, id.length_digits]

theorem length_groups : id.groups.map List.length = groupLengths := by
  simp [groups, groupLengths, length_digitTexts]

theorem flatten_groups : id.groups.flatten = id.digitTexts := by
  have cut (n k : Nat) : (id.digitTexts.drop n).take k ++ id.digitTexts.drop (n + k) = id.digitTexts.drop n := by
    rw [← List.drop_drop, List.take_append_drop]
  rw [groups, List.flatten_cons, List.flatten_cons, List.flatten_cons, List.flatten_cons, List.flatten_singleton,
    cut 16 4, cut 12 4, cut 8 4, List.take_append_drop]

theorem mem_digitTexts_of_mem_groups {group : Text} (mem : group ∈ id.groups) {c : Char} (h : c ∈ group) :
    c ∈ id.digitTexts := by
  rw [← flatten_groups]
  exact List.mem_flatten.2 ⟨group, mem, h⟩

theorem hyphen_not_mem_groups {group : Text} (mem : group ∈ id.groups) : '-' ∉ group := by
  intro h
  obtain ⟨d, _, same⟩ := List.mem_map.1 (id.mem_digitTexts_of_mem_groups mem h)
  exact hexDigit_ne_hyphen d same

theorem join_groups (first second third fourth last : Text) : Text.join "-" [first, second, third, fourth, last] =
    first ++ '-' :: (second ++ '-' :: (third ++ '-' :: (fourth ++ '-' :: last))) := by
  simp [Text.join]

theorem splitOn_groups : Text.splitOn '-' (Text.join "-" id.groups) = id.groups := by
  have clear : ∀ group ∈ id.groups, '-' ∉ group := fun _ => id.hyphen_not_mem_groups
  unfold groups at clear ⊢
  simp only [List.forall_mem_cons] at clear
  obtain ⟨first, second, third, fourth, last, _⟩ := clear
  rw [join_groups, Text.splitOn_append_cons first, Text.splitOn_append_cons second, Text.splitOn_append_cons third,
    Text.splitOn_append_cons fourth, Text.splitOn_of_not_mem last]

theorem mem_symbols_of_mem_join {c : Char} (h : c ∈ Text.join "-" id.groups) : c ∈ symbols := by
  have digit : ∀ group ∈ id.groups, c ∈ group → c ∈ symbols := by
    intro group mem h
    obtain ⟨d, _, rfl⟩ := List.mem_map.1 (id.mem_digitTexts_of_mem_groups mem h)
    exact hexDigit_mem_symbols d
  have hyphen : c = '-' → c ∈ symbols := by
    rintro rfl
    decide
  unfold groups at digit h
  rw [join_groups] at h
  simp only [List.forall_mem_cons] at digit
  obtain ⟨first, second, third, fourth, last, _⟩ := digit
  simp only [List.mem_append, List.mem_cons] at h
  rcases h with h | h | h | h | h | h | h | h | h
  exacts [first h, hyphen h, second h, hyphen h, third h, hyphen h, fourth h, hyphen h, last h]

/-- Ids are written with few symbols. -/
theorem mem_symbols_of_mem_text {c : Char} (h : c ∈ id.text) : c ∈ symbols := by
  rw [text_eq, List.mem_cons, List.mem_append, List.mem_singleton] at h
  rcases h with rfl | h | rfl
  · decide
  · exact id.mem_symbols_of_mem_join h
  · decide

theorem length_join_groups : (Text.join "-" id.groups).length = 36 := by
  rw [groups, join_groups]
  simp [length_digitTexts]

theorem trim_text : Text.trim id.text = id.text := by
  rw [text_eq]
  exact Text.trim_cons_concat (by decide) (by decide)

end Writing

theorem mapM_hexValue? (ds : List (Fin 16)) : (ds.map hexDigit).mapM hexValue? = some ds := by
  induction ds with
  | nil => rfl
  | cons d ds ih => simp [hexValue?_hexDigit, ih]

theorem ofGroups?_join_groups (id : ProjectId) : ofGroups? (Text.join "-" id.groups) = some id := by
  have digits : id.digitTexts.mapM hexValue? = some id.digits := mapM_hexValue? id.digits
  simp only [ofGroups?, splitOn_groups, length_groups, if_true, flatten_groups, ofDigits?, digits, Option.bind_eq_bind,
    Option.bind_some, id.length_digits, dite_true]

/-- **A written id is read back.** -/
theorem parse_text (id : ProjectId) : parse id.text = .ok id := by
  have inside : withoutBraces id.text = Text.join "-" id.groups := by
    rw [text_eq, withoutBraces, unbraced?]
    simp
  have length : Text.byteLength (Text.join "-" id.groups) = 36 := by
    have all : symbols.all fun c => c.toNat < 0x80 := by decide
    have ascii : ∀ c ∈ symbols, c.toNat < 0x80 := fun c mem => of_decide_eq_true (List.all_eq_true.1 all c mem)
    rw [Text.byteLength_of_ascii fun c h => ascii c (id.mem_symbols_of_mem_join h), length_join_groups]
  unfold parse
  simp only [trim_text, inside, length, if_true, ofGroups?_join_groups]

/-- Blanks around an id do not count. -/
theorem parse?_of_trim_eq {raw : Text} {id : ProjectId} (h : Text.trim raw = id.text) : parse? raw = some id := by
  have same : parse raw = parse id.text := by
    unfold parse
    rw [h, trim_text]
  rw [parse?, same, parse_text]
  rfl

end ProjectId

end SolutionGraph
