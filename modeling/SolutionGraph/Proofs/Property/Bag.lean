import SolutionGraph.Condition.Check
import SolutionGraph.Property.Bag

/-!
# What property bags hold

* **assignments**: `set` and `setGlobal` change the value of one name only, whatever its case, and `set` not even that if
  the name is global (`PropertyBag.get?_set`, `PropertyBag.get?_setGlobal`);
* **references**: the expansion of a text and the truth value of a condition depend on the properties that they refer to
  (`PropertyBag.expand_congr`, `Condition.evaluateText_congr`), and on nothing else of the bag.
-/

namespace SolutionGraph

namespace PropertyBag

variable {bag bag' : PropertyBag} {name other value : Text}

/-! ## Assignments -/

/-- What is dropped for one key is not looked up for another one. -/
theorem lookup_filter_ne {key key' : Text} (other : key' ≠ key) (values : List (Text × Text)) :
    (values.filter fun e => e.1 != key).lookup key' = values.lookup key' := by
  induction values with
  | nil => rfl
  | cons e values ih =>
    obtain ⟨k, v⟩ := e
    by_cases dropped : k = key
    · subst dropped
      rw [List.filter_cons_of_neg (by simp), ih, List.lookup_cons, beq_false_of_ne other]
    · rw [List.filter_cons_of_pos (by simp [dropped]), List.lookup_cons, List.lookup_cons, ih]

theorem lookup_putValue (values : List (Text × Text)) (key key' value : Text) :
    (putValue values key value).lookup key' = if key' = key then some value else values.lookup key' := by
  by_cases same : key' = key
  · simp [putValue, same]
  · rw [if_neg same, putValue, List.lookup_cons, beq_false_of_ne same]
    exact lookup_filter_ne same values

theorem get?_setGlobal (bag : PropertyBag) (name other value : Text) :
    (bag.setGlobal name value).get? other =
      if Text.asciiLower other = Text.asciiLower name then some value else bag.get? other :=
  lookup_putValue bag.values _ _ value

theorem get?_set (bag : PropertyBag) (name other value : Text) :
    (bag.set name value).get? other =
      if Text.asciiLower other = Text.asciiLower name ∧ bag.isGlobal name = false then some value else bag.get? other := by
  unfold set
  cases global : bag.isGlobal name with
  | true => simp
  | false =>
    simp only [Bool.false_eq_true, if_false, and_true]
    exact lookup_putValue bag.values _ _ value

theorem get?_eq (same : Text.asciiLower other = Text.asciiLower name) : bag.get? other = bag.get? name := by
  rw [get?, same, get?]

theorem isGlobal_congr (same : Text.asciiLower other = Text.asciiLower name) :
    bag.isGlobal other = bag.isGlobal name := by
  rw [isGlobal, same, isGlobal]

theorem isGlobal_setGlobal (bag : PropertyBag) (name other value : Text) :
    (bag.setGlobal name value).isGlobal other =
      (decide (Text.asciiLower other = Text.asciiLower name) || bag.isGlobal other) := by
  rw [Bool.eq_iff_iff]
  simp only [setGlobal, isGlobal, List.contains_iff_mem, Bool.or_eq_true, decide_eq_true_eq]
  split
  · rename_i old
    constructor
    · exact .inr
    · rintro (same | mem)
      · rwa [same]
      · exact mem
  · exact List.mem_cons

theorem isGlobal_set (bag : PropertyBag) (name other value : Text) :
    (bag.set name value).isGlobal other = bag.isGlobal other := by
  unfold set
  split <;> rfl

/-- A global property does not change if it is set. -/
theorem set_of_isGlobal (global : bag.isGlobal name) : bag.set name value = bag := if_pos global

/-- The bag with several properties given their values and made global, one after the other. -/
def setGlobals (bag : PropertyBag) (entries : List (Text × Text)) : PropertyBag :=
  entries.foldl (fun bag e => bag.setGlobal e.1 e.2) bag

/-- Whether a name is that of an entry, whatever its case. -/
def isNamed (entries : List (Text × Text)) (name : Text) : Bool :=
  entries.any fun e => Text.asciiLower name = Text.asciiLower e.1

theorem isGlobal_setGlobals (bag : PropertyBag) (entries : List (Text × Text)) (name : Text) :
    (bag.setGlobals entries).isGlobal name = (isNamed entries name || bag.isGlobal name) := by
  induction entries generalizing bag with
  | nil => rfl
  | cons e entries ih =>
    have rest : (bag.setGlobals (e :: entries)).isGlobal name =
      (isNamed entries name || (bag.setGlobal e.1 e.2).isGlobal name) := ih _
    rw [rest, isGlobal_setGlobal, isNamed, isNamed, List.any_cons, Bool.or_left_comm, Bool.or_assoc]

theorem isGlobal_setGlobals_congr {entries : List (Text × Text)} (same : bag.isGlobal name = bag'.isGlobal name) :
    (bag.setGlobals entries).isGlobal name = (bag'.setGlobals entries).isGlobal name := by
  rw [isGlobal_setGlobals, isGlobal_setGlobals, same]

/-- A property that is not among them keeps its value. -/
theorem get?_setGlobals_of_isNamed_eq_false {entries : List (Text × Text)} (other : isNamed entries name = false) :
    (bag.setGlobals entries).get? name = bag.get? name := by
  induction entries generalizing bag with
  | nil => rfl
  | cons e entries ih =>
    rw [isNamed, List.any_cons, Bool.or_eq_false_iff] at other
    have rest : (bag.setGlobals (e :: entries)).get? name = (bag.setGlobal e.1 e.2).get? name := ih other.2
    rw [rest, get?_setGlobal, if_neg (by simpa using other.1)]

/-- The value of a property that is among them does not depend on the bag. -/
theorem get?_setGlobals_congr {entries : List (Text × Text)}
    (same : isNamed entries name = false → bag.get? name = bag'.get? name) :
    (bag.setGlobals entries).get? name = (bag'.setGlobals entries).get? name := by
  induction entries generalizing bag bag' with
  | nil => exact same rfl
  | cons e entries ih =>
    refine @ih (bag.setGlobal e.1 e.2) (bag'.setGlobal e.1 e.2) fun others => ?_
    rw [get?_setGlobal, get?_setGlobal]
    split
    · rfl
    · rename_i other
      exact same (by rw [isNamed, List.any_cons, decide_eq_false other]; exact others)

/-- If their names are distinct, each has its value. -/
theorem get?_setGlobals_of_mem {entries : List (Text × Text)}
    (distinct : entries.Pairwise fun e e' => Text.asciiLower e.1 ≠ Text.asciiLower e'.1) (mem : (name, value) ∈ entries) :
    (bag.setGlobals entries).get? name = some value := by
  induction entries generalizing bag with
  | nil => cases mem
  | cons e entries ih =>
    obtain ⟨first, others⟩ := List.pairwise_cons.1 distinct
    rcases List.mem_cons.1 mem with rfl | mem
    · have other : isNamed entries name = false := by
        simpa [isNamed] using fun n v mem => first (n, v) mem
      have rest : (bag.setGlobals ((name, value) :: entries)).get? name = (bag.setGlobal name value).get? name :=
        get?_setGlobals_of_isNamed_eq_false other
      rw [rest, get?_setGlobal, if_pos rfl]
    · exact ih others mem

/-! ## References -/

/-- The names of the properties that a text refers to. -/
def references : Text → List Text
  | [] => []
  | [_] => []
  | c :: d :: rest =>
    if isSigil c && d = '(' then
      (if c = '$' && isPlainName (Text.trim (untilClose 0 rest).1) then [Text.trim (untilClose 0 rest).1] else []) ++
        references ((untilClose 0 rest).2.drop 1)
    else references (d :: rest)
termination_by t => t.length
decreasing_by
  · have := length_untilClose_le 0 rest
    simp only [List.length_drop, List.length_cons]
    omega
  · simp

/-- A text is expanded by the properties that it refers to. -/
theorem expand_congr {t : Text} (same : ∀ name ∈ references t, bag.get? name = bag'.get? name) :
    bag.expand t = bag'.expand t := by
  fun_induction expand bag t with
  | case1 => rw [expand]
  | case2 c => rw [expand]
  | case3 c d rest isReference ih =>
    rw [references, if_pos isReference] at same
    have body : bag.reference c (untilClose 0 rest).1 = bag'.reference c (untilClose 0 rest).1 := by
      simp only [reference]
      split
      · rename_i plain
        rw [same _ (List.mem_append_left _ (by rw [if_pos plain]; exact List.mem_singleton_self _))]
      · rfl
    rw [expand, if_pos isReference, body, ih fun name mem => same name (List.mem_append_right _ mem)]
  | case4 c d rest noReference ih =>
    rw [references, if_neg noReference] at same
    rw [expand, if_neg noReference, ih same]

end PropertyBag

namespace Condition

/-- The names of the properties that a condition refers to. -/
def references : Condition → List Text
  | .value raw | .fileExists raw | .hasTrailingSlash raw => PropertyBag.references raw
  | .compare left _ right => PropertyBag.references left ++ PropertyBag.references right
  | .not inner => references inner
  | .and left right | .or left right => references left ++ references right

/-- The names of the properties that the text of a condition refers to; a text that cannot be read refers to none. -/
def textReferences (text : Text) : List Text :=
  match parse text with
  | .ok c => c.references
  | .error _ => []

variable {tree tree' : FileTree} {bag bag' : PropertyBag} {base : Path}

theorem evaluate_congr {c : Condition} (files : ∀ p, tree.holds p = tree'.holds p)
    (same : ∀ name ∈ c.references, bag.get? name = bag'.get? name) :
    evaluate tree bag base c = evaluate tree' bag' base c := by
  induction c with
  | value raw => rw [evaluate, evaluate, PropertyBag.expand_congr same]
  | compare left op right =>
    have left_eq := PropertyBag.expand_congr fun name mem => same name (List.mem_append_left _ mem)
    have right_eq := PropertyBag.expand_congr fun name mem => same name (List.mem_append_right _ mem)
    rw [evaluate, evaluate, left_eq, right_eq]
  | fileExists raw => simp only [evaluate, PropertyBag.expand_congr same, files]
  | hasTrailingSlash raw => simp only [evaluate, PropertyBag.expand_congr same]
  | not inner ih => rw [evaluate, evaluate, ih same]
  | and left right ihl ihr =>
    rw [evaluate, evaluate, ihl fun name mem => same name (List.mem_append_left _ mem),
      ihr fun name mem => same name (List.mem_append_right _ mem)]
  | or left right ihl ihr =>
    rw [evaluate, evaluate, ihl fun name mem => same name (List.mem_append_left _ mem),
      ihr fun name mem => same name (List.mem_append_right _ mem)]

/-- A condition is evaluated by the properties that it refers to, and by which files there are. -/
theorem evaluateText_congr {text : Text} (files : ∀ p, tree.holds p = tree'.holds p)
    (same : ∀ name ∈ textReferences text, bag.get? name = bag'.get? name) :
    evaluateText tree bag base text = evaluateText tree' bag' base text := by
  unfold evaluateText
  split
  · rfl
  · unfold textReferences at same
    split
    · rfl
    · rename_i c parsed
      rw [parsed] at same
      exact evaluate_congr files same

theorem Site.check_congr {path : Path} {text? : Option Text} (files : ∀ p, tree.holds p = tree'.holds p)
    (same : ∀ text, text? = some text → ∀ name ∈ textReferences text, bag.get? name = bag'.get? name) :
    (⟨tree, base, path⟩ : Site).check bag text? = (⟨tree', base, path⟩ : Site).check bag' text? := by
  unfold Site.check
  cases text? with
  | none => rfl
  | some text => simp only [evaluateText_congr files (same text rfl)]

/-- Where a condition stands makes no difference to whether it holds. -/
theorem Site.check_fst (tree : FileTree) (base path path' : Path) (bag : PropertyBag) (text? : Option Text) :
    ((⟨tree, base, path⟩ : Site).check bag text?).1 = ((⟨tree, base, path'⟩ : Site).check bag text?).1 := by
  unfold Site.check
  cases text? with
  | none => rfl
  | some text =>
    simp only
    split <;> rfl

end Condition

end SolutionGraph
