import SolutionGraph.Proofs.FileTree.Find
import SolutionGraph.Proofs.Path.Below
import SolutionGraph.Proofs.ProjectId
import SolutionGraph.Proofs.Text.Position

/-!
# Spellings of ids

An id is spelled by 32 hexadecimal digits in one of four forms (`Form`), with blanks around it and perhaps a pair of braces
(`Spells`).

* **digits**: two digits have the same value if they are the same but for the case (`asciiLower_eq_iff`);
* **forms**: what is read, once blanks and braces are dropped, are the four forms and nothing else
  (`parse_eq_ok_iff_form`);
* **spellings**: so an id is read off its spellings only (`parse_eq_ok_iff`), and the digits of a spelling, in their order, are
  those of the id (`hexDigits_of_spells`).
-/

namespace SolutionGraph.ProjectId

/-! ## Digits -/

/-- Whether a character is a hexadecimal digit, in either case. -/
def isHexDigit (c : Char) : Bool := (hexValue? c).isSome

section Digits

variable {c : Char} {d : Fin 16} {digits digits' : Text} {ds ds' : List (Fin 16)}

theorem toNat_lt_of_isHexDigit (hex : isHexDigit c) : c.toNat < 103 := by
  unfold isHexDigit hexValue? at hex
  dsimp only at hex
  split at hex
  · rename_i decimal
    have high : c.toNat ≤ 57 := decimal.2
    omega
  split at hex
  · rename_i capital
    have high : c.toNat ≤ 70 := capital.2
    omega
  split at hex
  · rename_i small
    have high : c.toNat ≤ 102 := small.2
    omega
  · cases hex

/-- What is true of all characters up to `f` that are hexadecimal digits is true of all hexadecimal digits. -/
theorem forall_isHexDigit {P : Char → Prop} (low : ∀ n < 103, isHexDigit (Char.ofNat n) → P (Char.ofNat n))
    (hex : isHexDigit c) : P c := by
  have here := low c.toNat (toNat_lt_of_isHexDigit hex)
  rw [Char.ofNat_toNat] at here
  exact here hex

/-- A digit of either case is the digit of its value, but for the case. -/
theorem lowerAscii_eq_of_hexValue? (value : hexValue? c = some d) :
    Text.lowerAscii c = Text.lowerAscii (hexDigit d) := by
  have hex : isHexDigit c := by rw [isHexDigit, value]; rfl
  have each : ∀ n < 103, isHexDigit (Char.ofNat n) → ∀ d, hexValue? (Char.ofNat n) = some d →
      Text.lowerAscii (Char.ofNat n) = Text.lowerAscii (hexDigit d) := by
    decide +kernel
  exact forall_isHexDigit
    (P := fun c => ∀ d, hexValue? c = some d → Text.lowerAscii c = Text.lowerAscii (hexDigit d)) each hex d value

theorem isBlank_of_isHexDigit (hex : isHexDigit c) : Text.isBlank c = false :=
  forall_isHexDigit (P := fun c => Text.isBlank c = false) (by decide +kernel) hex

theorem lowerAscii_ne_u_of_isHexDigit (hex : isHexDigit c) : Text.lowerAscii c ≠ 'u' :=
  forall_isHexDigit (P := fun c => Text.lowerAscii c ≠ 'u') (by decide +kernel) hex

theorem asciiLower_of_mapM_hexValue? (values : digits.mapM hexValue? = some ds) :
    Text.asciiLower digits = ds.map fun d => Text.lowerAscii (hexDigit d) := by
  induction digits generalizing ds with
  | nil =>
    cases values
    rfl
  | cons c digits ih =>
    simp only [List.mapM_cons, Option.bind_eq_bind, Option.bind_eq_some_iff, Option.pure_def, Option.some.injEq] at values
    obtain ⟨d, value, ds, values, rfl⟩ := values
    rw [Text.asciiLower, List.map_cons, List.map_cons, lowerAscii_eq_of_hexValue? value, ← ih values, Text.asciiLower]

/-- Digits have the same values if they are the same but for the case. -/
theorem asciiLower_eq_iff (values : digits.mapM hexValue? = some ds) (values' : digits'.mapM hexValue? = some ds') :
    Text.asciiLower digits = Text.asciiLower digits' ↔ ds = ds' := by
  have shown : ∀ d d' : Fin 16, Text.lowerAscii (hexDigit d) = Text.lowerAscii (hexDigit d') → d = d' := by decide
  rw [asciiLower_of_mapM_hexValue? values, asciiLower_of_mapM_hexValue? values',
    (List.map_injective_iff.2 fun d d' => shown d d').eq_iff]

/-- Digits, and nothing else, have values. -/
theorem exists_mapM_hexValue?_iff : (∃ ds, digits.mapM hexValue? = some ds) ↔ ∀ c ∈ digits, isHexDigit c := by
  induction digits with
  | nil => simp
  | cons c digits ih =>
    rw [List.forall_mem_cons, ← ih]
    simp only [List.mapM_cons, Option.bind_eq_bind, Option.bind_eq_some_iff, Option.pure_def, Option.some.injEq, isHexDigit,
      Option.isSome_iff_exists]
    constructor
    · rintro ⟨_, d, value, ds, values, rfl⟩
      exact ⟨⟨d, value⟩, ds, values⟩
    · rintro ⟨⟨d, value⟩, ds, values⟩
      exact ⟨_, d, value, ds, values, rfl⟩

theorem length_of_mapM_hexValue? (values : digits.mapM hexValue? = some ds) : digits.length = ds.length := by
  have same := congrArg List.length (asciiLower_of_mapM_hexValue? values)
  rwa [Text.asciiLower, List.length_map, List.length_map] at same

end Digits

/-! ## Forms -/

/-- A text writes digits in groups of 8, 4, 4, 4 and 12, with hyphens between them. -/
def Grouped (digits t : Text) : Prop :=
  ∃ groups, groups.map List.length = groupLengths ∧ groups.flatten = digits ∧ Text.join "-" groups = t

/-- The forms of an id: its digits alone, in groups, in groups and braces, and in groups after `urn:uuid:` in any case. -/
inductive Form (digits : Text) : Text → Prop
  | bare : Form digits digits
  | grouped {t : Text} : Grouped digits t → Form digits t
  | braced {t : Text} : Grouped digits t → Form digits ('\x7b' :: (t ++ ['\x7d']))
  | urn {mark t : Text} : Text.asciiLower mark = "urn:uuid:" → Grouped digits t → Form digits (mark ++ t)

/-- A text spells an id with 32 hexadecimal digits: it has one of the forms, perhaps once more in braces, between blanks. -/
def Spells (raw digits : Text) : Prop :=
  digits.length = 32 ∧ (∀ c ∈ digits, isHexDigit c) ∧
    ∃ form, Form digits form ∧ (Text.trim raw = form ∨ Text.trim raw = '\x7b' :: (form ++ ['\x7d']))

section Forms

variable {digits t body : Text} {id : ProjectId}

theorem ofDigits?_eq_some_iff : ofDigits? t = some id ↔ t.mapM hexValue? = some id.digits := by
  unfold ofDigits?
  simp only [Option.bind_eq_bind, Option.bind_eq_some_iff]
  constructor
  · rintro ⟨ds, values, made⟩
    split at made
    · cases made
      exact values
    · cases made
  · intro values
    exact ⟨id.digits, values, dif_pos id.length_digits⟩

theorem not_mem_of_isHexDigit {c : Char} (hex : ∀ c ∈ digits, isHexDigit c) (other : isHexDigit c = false) :
    c ∉ digits := by
  intro mem
  rw [hex c mem] at other
  cases other

/-- Groups of digits are cut apart where they were joined. -/
theorem splitOn_join_groups {groups : List Text} (lengths : groups.map List.length = groupLengths)
    (hex : ∀ c ∈ groups.flatten, isHexDigit c) : Text.splitOn '-' (Text.join "-" groups) = groups := by
  refine Text.splitOn_join (fun group mem hyphen => ?_) ?_
  · exact not_mem_of_isHexDigit hex rfl (List.mem_flatten.2 ⟨group, mem, hyphen⟩)
  · rintro rfl
    cases lengths

theorem ofGroups?_eq_some_iff :
    ofGroups? t = some id ↔ ∃ digits, Grouped digits t ∧ digits.mapM hexValue? = some id.digits := by
  unfold ofGroups?
  dsimp only
  constructor
  · intro read
    split at read
    · rename_i lengths
      exact ⟨_, ⟨_, lengths, rfl, Text.join_splitOn '-' t⟩, ofDigits?_eq_some_iff.1 read⟩
    · cases read
  · rintro ⟨digits, ⟨groups, lengths, rfl, rfl⟩, values⟩
    rw [splitOn_join_groups lengths (exists_mapM_hexValue?_iff.1 ⟨_, values⟩), if_pos lengths]
    exact ofDigits?_eq_some_iff.2 values

theorem unbraced?_eq_some_iff : unbraced? t = some body ↔ t = '\x7b' :: (body ++ ['\x7d']) := by
  constructor
  · intro inside
    unfold unbraced? at inside
    split at inside
    · rename_i rest
      split at inside
      · rename_i last
        cases inside
        obtain ⟨kept, rfl⟩ := List.getLast?_eq_some_iff.1 last
        rw [List.dropLast_concat]
      · cases inside
    · cases inside
  · rintro rfl
    simp [unbraced?]

theorem afterUrn?_eq_some_iff :
    afterUrn? t = some body ↔ ∃ mark, Text.asciiLower mark = "urn:uuid:" ∧ t = mark ++ body := by
  unfold afterUrn?
  constructor
  · intro after
    split at after
    · rename_i marked
      cases after
      exact ⟨t.take 9, marked, (List.take_append_drop 9 t).symm⟩
    · cases after
  · rintro ⟨mark, marked, rfl⟩
    have length : mark.length = 9 := by
      have same := congrArg List.length marked
      rwa [Text.asciiLower, List.length_map] at same
    rw [List.take_left' length, List.drop_left' length, if_pos marked]

/-- With a hyphen more at the end there is one for each of the groups. -/
theorem length_join_add_one {groups : List Text} (some : groups ≠ []) :
    (Text.join "-" groups).length + 1 = (groups.map List.length).foldr (fun n rest => n + 1 + rest) 0 := by
  induction groups with
  | nil => exact absurd rfl some
  | cons group groups ih =>
    rw [List.map_cons, List.foldr_cons]
    cases groups with
    | nil => rfl
    | cons next groups =>
      have cut : Text.join "-" (group :: next :: groups) = group ++ '-' :: Text.join "-" (next :: groups) :=
        Text.join_cons_cons '-' group next groups
      rw [cut, List.length_append, List.length_cons, ← ih (List.cons_ne_nil _ _)]
      omega

theorem Grouped.length (grouped : Grouped digits t) : t.length = 36 := by
  obtain ⟨groups, lengths, -, rfl⟩ := grouped
  have some : groups ≠ [] := by
    rintro rfl
    cases lengths
  have length := length_join_add_one some
  rw [lengths] at length
  exact Nat.add_right_cancel length

theorem byteLength_of_isHexDigit (hex : ∀ c ∈ digits, isHexDigit c) : Text.byteLength digits = digits.length :=
  Text.byteLength_of_ascii fun c mem => (toNat_lt_of_isHexDigit (hex c mem)).trans (by decide)

/-- Groups are their digits with hyphens in between. -/
theorem Grouped.filter_ne_hyphen (grouped : Grouped digits t) (hex : ∀ c ∈ digits, isHexDigit c) :
    (t.filter fun c => c != '-') = digits := by
  obtain ⟨groups, lengths, rfl, rfl⟩ := grouped
  rw [← Text.flatten_splitOn, splitOn_join_groups lengths hex]

theorem Grouped.mem (grouped : Grouped digits t) (hex : ∀ c ∈ digits, isHexDigit c) {c : Char} (mem : c ∈ t) :
    c = '-' ∨ isHexDigit c := by
  by_cases hyphen : c = '-'
  · exact .inl hyphen
  · refine .inr (hex c ?_)
    rw [← grouped.filter_ne_hyphen hex]
    exact List.mem_filter.2 ⟨mem, by simpa using hyphen⟩

theorem Grouped.byteLength (grouped : Grouped digits t) (hex : ∀ c ∈ digits, isHexDigit c) : Text.byteLength t = 36 := by
  rw [Text.byteLength_of_ascii fun c mem => ?_, grouped.length]
  rcases grouped.mem hex mem with rfl | digit
  · decide
  · exact (toNat_lt_of_isHexDigit digit).trans (by decide)

theorem unbraced?_eq_none (plain : '\x7b' ∉ t) : unbraced? t = none := by
  rw [Option.eq_none_iff_forall_ne_some]
  intro body inside
  rw [unbraced?_eq_some_iff] at inside
  exact plain (inside ▸ List.mem_cons_self)

theorem afterUrn?_eq_none {c : Char} (other : Text.lowerAscii c ≠ 'u') (t : Text) : afterUrn? (c :: t) = none := by
  rw [Option.eq_none_iff_forall_ne_some]
  intro body after
  obtain ⟨mark, marked, split⟩ := afterUrn?_eq_some_iff.1 after
  cases mark with
  | nil => cases marked
  | cons d mark =>
    obtain ⟨rfl, -⟩ := List.cons.inj split
    exact other (List.cons.inj marked).1

/-- Changing the case does not lead out of the first 128 characters, and not into them. -/
theorem toNat_lt_of_lowerAscii {c : Char} (low : (Text.lowerAscii c).toNat < 0x80) : c.toNat < 0x80 := by
  unfold Text.lowerAscii at low
  split at low
  · rename_i capital
    have high : c.toNat ≤ 90 := capital.2
    omega
  · exact low

/-- The marked form does not begin with a brace. -/
theorem unbraced?_eq_none_of_mark {mark : Text} (marked : Text.asciiLower mark = "urn:uuid:") (t : Text) :
    unbraced? (mark ++ t) = none := by
  rw [Option.eq_none_iff_forall_ne_some]
  intro body inside
  cases mark with
  | nil => cases marked
  | cons c mark =>
    obtain ⟨rfl, -⟩ := List.cons.inj (unbraced?_eq_some_iff.1 inside)
    cases marked

theorem byteLength_mark {mark : Text} (marked : Text.asciiLower mark = "urn:uuid:") : Text.byteLength mark = 9 := by
  have letters : ∀ c ∈ "urn:uuid:".toList, c.toNat < 0x80 := by simp
  have length := congrArg List.length marked
  rw [Text.asciiLower, List.length_map] at length
  rw [Text.byteLength_of_ascii fun c mem => toNat_lt_of_lowerAscii (letters _ ?_), length]
  · rfl
  · rw [← marked]
    exact List.mem_map_of_mem mem

/-- What reading groups gives. -/
theorem grouped_eq_ok_iff {fault : IdFault} :
    (match ofGroups? t with | some id => Except.ok id | none => .error fault) = .ok id ↔
      ∃ digits, Grouped digits t ∧ digits.mapM hexValue? = some id.digits := by
  rw [← ofGroups?_eq_some_iff]
  cases ofGroups? t <;> simp

/-- **What is read are the four forms.** -/
theorem parse_eq_ok_iff_form {raw : Text} : parse raw = .ok id ↔
    ∃ digits, Form digits (withoutBraces (Text.trim raw)) ∧ digits.mapM hexValue? = some id.digits := by
  unfold parse
  generalize withoutBraces (Text.trim raw) = t
  dsimp only
  constructor
  · intro read
    split at read
    · obtain ⟨digits, groups, values⟩ := grouped_eq_ok_iff.1 read
      exact ⟨digits, .grouped groups, values⟩
    · split at read
      · rename_i body _ inside
        split at read
        · obtain ⟨digits, groups, values⟩ := grouped_eq_ok_iff.1 read
          obtain rfl := unbraced?_eq_some_iff.1 inside
          exact ⟨digits, .braced groups, values⟩
        · cases read
      · rename_i body _ after
        split at read
        · obtain ⟨digits, groups, values⟩ := grouped_eq_ok_iff.1 read
          obtain ⟨mark, marked, rfl⟩ := afterUrn?_eq_some_iff.1 after
          exact ⟨digits, .urn marked groups, values⟩
        · cases read
      · split at read
        · rename_i found
          cases read
          exact ⟨t, .bare, ofDigits?_eq_some_iff.1 found⟩
        · cases read
  · rintro ⟨digits, form, values⟩
    have hex := exists_mapM_hexValue?_iff.1 ⟨_, values⟩
    cases form with
    | bare =>
      have length : t.length = 32 := (length_of_mapM_hexValue? values).trans id.length_digits
      obtain ⟨c, rest, rfl⟩ := List.exists_cons_of_length_pos (l := t) (by omega)
      rw [byteLength_of_isHexDigit hex, length, if_neg (by decide), unbraced?_eq_none (not_mem_of_isHexDigit hex rfl),
        afterUrn?_eq_none (lowerAscii_ne_u_of_isHexDigit (hex c List.mem_cons_self)), ofDigits?_eq_some_iff.2 values]
    | grouped groups =>
      rw [if_pos (groups.byteLength hex)]
      exact grouped_eq_ok_iff.2 ⟨digits, groups, values⟩
    | braced groups =>
      rename_i t
      have length : Text.byteLength ('\x7b' :: (t ++ ['\x7d'])) = 38 := by
        have split : '\x7b' :: (t ++ ['\x7d']) = ['\x7b'] ++ (t ++ ['\x7d']) := rfl
        rw [split, Text.byteLength_append, Text.byteLength_append, groups.byteLength hex]
        rfl
      rw [length, if_neg (by decide), unbraced?_eq_some_iff.2 rfl]
      exact (if_pos rfl).trans (grouped_eq_ok_iff.2 ⟨digits, groups, values⟩)
    | urn marked groups =>
      rename_i mark t
      have length : Text.byteLength (mark ++ t) = 45 := by
        rw [Text.byteLength_append, byteLength_mark marked, groups.byteLength hex]
      rw [length, if_neg (by decide), unbraced?_eq_none_of_mark marked, afterUrn?_eq_some_iff.2 ⟨mark, marked, rfl⟩]
      exact (if_pos rfl).trans (grouped_eq_ok_iff.2 ⟨digits, groups, values⟩)

end Forms

/-! ## Spellings -/

/-- A text without the first `urn:uuid:` in it, in any case. -/
def withoutUrn : Text → Text
  | [] => []
  | c :: rest => (afterUrn? (c :: rest)).getD (c :: withoutUrn rest)

/-- The hexadecimal digits of a text, but for those of `urn:uuid:`. -/
def hexDigits (raw : Text) : Text := (withoutUrn raw).filter isHexDigit

section Spellings

variable {raw raw' digits t : Text} {id id' : ProjectId}

/-- A form in braces is the same form without them, or it is the form in braces. -/
theorem Form.withoutBraces (form : Form digits t) (hex : ∀ c ∈ digits, isHexDigit c) :
    Form digits (withoutBraces t) := by
  unfold ProjectId.withoutBraces
  cases form with
  | bare =>
    rw [unbraced?_eq_none (not_mem_of_isHexDigit hex rfl)]
    exact .bare
  | grouped groups =>
    rw [unbraced?_eq_none]
    · exact .grouped groups
    · intro mem
      have brace := groups.mem hex mem
      revert brace
      decide
  | braced groups =>
    rw [unbraced?_eq_some_iff.2 rfl]
    exact .grouped groups
  | urn marked groups =>
    rw [unbraced?_eq_none_of_mark marked]
    exact .urn marked groups

/-- **An id is read off its spellings**, and off nothing else. -/
theorem parse_eq_ok_iff : parse raw = .ok id ↔ ∃ digits, Spells raw digits ∧ digits.mapM hexValue? = some id.digits := by
  rw [parse_eq_ok_iff_form]
  constructor
  · rintro ⟨digits, form, values⟩
    have length : digits.length = 32 := (length_of_mapM_hexValue? values).trans id.length_digits
    refine ⟨digits, ⟨length, exists_mapM_hexValue?_iff.1 ⟨_, values⟩, _, form, ?_⟩, values⟩
    unfold withoutBraces
    cases inside : unbraced? (Text.trim raw) with
    | none => exact .inl rfl
    | some body => exact .inr (unbraced?_eq_some_iff.1 inside)
  · rintro ⟨digits, ⟨-, hex, form, isForm, trimmed | trimmed⟩, values⟩
    · exact ⟨digits, trimmed ▸ isForm.withoutBraces hex, values⟩
    · have inside : withoutBraces (Text.trim raw) = form := by
        rw [withoutBraces, unbraced?_eq_some_iff.2 trimmed]
        rfl
      exact ⟨digits, inside.symm ▸ isForm, values⟩

/-! ### The digits of a spelling -/

/-- A text in which no `urn:uuid:` can begin. -/
def IsQuiet (t : Text) : Prop := ∀ c ∈ t, Text.lowerAscii c ≠ 'u'

/-- A text that may stand beside a form: it is quiet, and there are no digits in it. -/
def IsMargin (t : Text) : Prop := IsQuiet t ∧ t.filter isHexDigit = []

theorem IsQuiet.append {a b : Text} (left : IsQuiet a) (right : IsQuiet b) : IsQuiet (a ++ b) :=
  List.forall_mem_append.2 ⟨left, right⟩

theorem isQuiet_digits (hex : ∀ c ∈ digits, isHexDigit c) : IsQuiet digits :=
  fun c mem => lowerAscii_ne_u_of_isHexDigit (hex c mem)

theorem Grouped.isQuiet (groups : Grouped digits t) (hex : ∀ c ∈ digits, isHexDigit c) : IsQuiet t := by
  intro c mem
  rcases groups.mem hex mem with rfl | digit
  · decide
  · exact lowerAscii_ne_u_of_isHexDigit digit

theorem Grouped.filter_isHexDigit (groups : Grouped digits t) (hex : ∀ c ∈ digits, isHexDigit c) :
    t.filter isHexDigit = digits := by
  have same : t.filter isHexDigit = t.filter fun c => c != '-' := by
    refine List.filter_congr fun c mem => ?_
    rcases groups.mem hex mem with rfl | digit
    · decide
    · have other : c ≠ '-' := by
        rintro rfl
        revert digit
        decide
      rw [digit, bne_iff_ne.2 other]
  rw [same, groups.filter_ne_hyphen hex]

theorem isMargin_of_blank (blank : ∀ c ∈ t, Text.isBlank c) : IsMargin t := by
  refine ⟨fun c mem same => ?_, List.filter_eq_nil_iff.2 fun c mem digit => ?_⟩
  · have letter : Text.isAsciiLetter c := by
      rw [← Text.isAsciiLetter_lowerAscii, same]
      rfl
    have blank := blank c mem
    simp only [Text.isBlank, Text.isAsciiLetter, Bool.or_eq_true, Bool.and_eq_true, decide_eq_true_eq, beq_iff_eq]
      at blank letter
    omega
  · have solid := isBlank_of_isHexDigit digit
    rw [blank c mem] at solid
    cases solid

theorem isMargin_openBrace : IsMargin ['\x7b'] := ⟨List.forall_mem_singleton.2 (by decide), by decide⟩

theorem isMargin_closeBrace : IsMargin ['\x7d'] := ⟨List.forall_mem_singleton.2 (by decide), by decide⟩

theorem IsMargin.append {a b : Text} (left : IsMargin a) (right : IsMargin b) : IsMargin (a ++ b) :=
  ⟨left.1.append right.1, by rw [List.filter_append, left.2, right.2, List.append_nil]⟩

theorem withoutUrn_append (quiet : IsQuiet t) (rest : Text) : withoutUrn (t ++ rest) = t ++ withoutUrn rest := by
  induction t with
  | nil => rfl
  | cons c t ih =>
    obtain ⟨other, quiet⟩ := List.forall_mem_cons.1 quiet
    rw [List.cons_append, withoutUrn, afterUrn?_eq_none other, ih quiet]
    rfl

theorem withoutUrn_mark {mark : Text} (marked : Text.asciiLower mark = "urn:uuid:") (t : Text) :
    withoutUrn (mark ++ t) = t := by
  have after : afterUrn? (mark ++ t) = some t := afterUrn?_eq_some_iff.2 ⟨mark, marked, rfl⟩
  cases mark with
  | nil => cases marked
  | cons c mark =>
    rw [List.cons_append] at after ⊢
    rw [withoutUrn, after]
    rfl

section Margins

variable {before after : Text}

theorem append_braces (before t after : Text) :
    before ++ '\x7b' :: (t ++ ['\x7d']) ++ after = (before ++ ['\x7b']) ++ t ++ (['\x7d'] ++ after) := by
  simp

/-- Margins add no digits. -/
theorem hexDigits_between (quiet : IsQuiet t) (left : IsMargin before) (right : IsMargin after) :
    hexDigits (before ++ t ++ after) = t.filter isHexDigit := by
  have whole := withoutUrn_append ((left.1.append quiet).append right.1) []
  rw [withoutUrn, List.append_nil] at whole
  rw [hexDigits, whole, List.filter_append, List.filter_append, left.2, right.2, List.append_nil, List.nil_append]

theorem Form.hexDigits_between (form : Form digits t) (hex : ∀ c ∈ digits, isHexDigit c) (left : IsMargin before)
    (right : IsMargin after) : hexDigits (before ++ t ++ after) = digits := by
  cases form with
  | bare => rw [ProjectId.hexDigits_between (isQuiet_digits hex) left right, List.filter_eq_self.2 hex]
  | grouped groups => rw [ProjectId.hexDigits_between (groups.isQuiet hex) left right, groups.filter_isHexDigit hex]
  | braced groups =>
    rename_i t
    rw [append_braces, ProjectId.hexDigits_between (groups.isQuiet hex) (left.append isMargin_openBrace)
      (isMargin_closeBrace.append right), groups.filter_isHexDigit hex]
  | urn marked groups =>
    rename_i mark t
    rw [hexDigits, List.append_assoc, List.append_assoc, withoutUrn_append left.1, withoutUrn_mark marked, List.filter_append,
      List.filter_append, left.2, right.2, groups.filter_isHexDigit hex, List.append_nil, List.nil_append]

/-- **The digits of a spelling** are those that it spells. -/
theorem hexDigits_of_spells (spells : Spells raw digits) : hexDigits raw = digits := by
  obtain ⟨-, hex, form, isForm, trimmed⟩ := spells
  obtain ⟨before, after, whole, left, right⟩ := Text.exists_append_trim raw
  rcases trimmed with trimmed | trimmed
  · rw [whole, trimmed]
    exact isForm.hexDigits_between hex (isMargin_of_blank left) (isMargin_of_blank right)
  · rw [whole, trimmed, append_braces]
    exact isForm.hexDigits_between hex ((isMargin_of_blank left).append isMargin_openBrace)
      (isMargin_closeBrace.append (isMargin_of_blank right))

end Margins

/-! ## Ids and their spellings -/

/-- **Ids are told by the digits of their spellings.** What is written for an id is read as that id. What is read are the
spellings, each of which has 32 hexadecimal digits besides those of `urn:uuid:`, and two of them are read as one id if their
digits agree in order, whatever their case. -/
theorem parse_spellings :
    (∀ id, parse (text id) = .ok id) ∧
    (∀ raw, (∃ id, parse raw = .ok id) ↔ ∃ digits, Spells raw digits) ∧
    (∀ raw id, parse raw = .ok id → (hexDigits raw).length = 32) ∧
    ∀ raw raw' id id', parse raw = .ok id → parse raw' = .ok id' →
      (id = id' ↔ Text.eqIgnoringCase (hexDigits raw) (hexDigits raw')) := by
  have values (raw : Text) (id : ProjectId) (read : parse raw = .ok id) :
      (hexDigits raw).mapM hexValue? = some id.digits := by
    obtain ⟨digits, spells, values⟩ := parse_eq_ok_iff.1 read
    rwa [hexDigits_of_spells spells]
  refine ⟨parse_text, fun raw => ⟨?_, ?_⟩, fun raw id read => ?_, fun raw raw' id id' read read' => ?_⟩
  · rintro ⟨id, read⟩
    obtain ⟨digits, spells, -⟩ := parse_eq_ok_iff.1 read
    exact ⟨digits, spells⟩
  · rintro ⟨digits, spells⟩
    obtain ⟨ds, values⟩ := exists_mapM_hexValue?_iff.2 spells.2.1
    have length : ds.length = 32 := (length_of_mapM_hexValue? values).symm.trans spells.1
    exact ⟨⟨ds, length⟩, parse_eq_ok_iff.2 ⟨digits, spells, values⟩⟩
  · exact (length_of_mapM_hexValue? (values raw id read)).trans id.length_digits
  · rw [Text.eqIgnoringCase_iff, asciiLower_eq_iff (values raw id read) (values raw' id' read')]
    exact ⟨fun same => same ▸ rfl, fun same => by cases id; cases id'; cases same; rfl⟩

/-- The id that two spellings below have. -/
def sample : ProjectId := ⟨"c864a0490a9e41398217da58d9a3b73d".toList.filterMap hexValue?, by decide⟩

theorem parse_spellings_sample :
    parse " \x7burn:UUID:c864a049-0a9e-4139-8217-DA58D9A3B73D\x7d\t" = .ok sample ∧
    parse "C864A0490A9E41398217da58d9a3b73d" = .ok sample ∧
    (hexDigits " \x7burn:UUID:c864a049-0a9e-4139-8217-DA58D9A3B73D\x7d\t").length = 32 ∧
    Text.eqIgnoringCase (hexDigits " \x7burn:UUID:c864a049-0a9e-4139-8217-DA58D9A3B73D\x7d\t")
      (hexDigits "C864A0490A9E41398217da58d9a3b73d") := by
  have marked : parse " \x7burn:UUID:c864a049-0a9e-4139-8217-DA58D9A3B73D\x7d\t" = .ok sample := by decide +kernel
  have bare : parse "C864A0490A9E41398217da58d9a3b73d" = .ok sample := by decide +kernel
  obtain ⟨-, -, length, same⟩ := parse_spellings
  exact ⟨marked, bare, length _ _ marked, (same _ _ _ _ marked bare).1 rfl⟩

end Spellings

end SolutionGraph.ProjectId
