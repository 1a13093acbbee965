import SolutionGraph.Property.Value

/-!
# Property bags

A property bag holds the properties of a script by name, where the case of ASCII letters does not count.

* **globals**: a global property is not changed by `set` (`PropertyBag.set`), only by `setGlobal`;
* **references**: `expand` puts in the value for each `$(Name)`, and nothing for a reference to metadata, to items, to a
  function or to a property without a value. Values are put in as they are.
-/

namespace SolutionGraph

/-- The properties of a script. -/
structure PropertyBag where
  /-- The values by name in small letters. -/
  values : List (Text × Text)
  /-- The names of the global properties, in small letters. -/
  globals : List Text
  deriving Repr

namespace PropertyBag

/-- A bag without properties. -/
def empty : PropertyBag := ⟨[], []⟩

/-- The list of values with one changed or added. -/
def putValue (values : List (Text × Text)) (key value : Text) : List (Text × Text) :=
  (key, value) :: values.filter fun e => e.1 != key

/-- Whether a property is global. -/
def isGlobal (bag : PropertyBag) (name : Text) : Bool := bag.globals.contains (Text.asciiLower name)

/-- Gives a property a value, unless it is global. -/
def set (bag : PropertyBag) (name value : Text) : PropertyBag :=
  if bag.isGlobal name then bag else { bag with values := putValue bag.values (Text.asciiLower name) value }

/-- Gives a property a value and makes it global. -/
def setGlobal (bag : PropertyBag) (name value : Text) : PropertyBag :=
  let key := Text.asciiLower name
  { values := putValue bag.values key value
    globals := if bag.globals.contains key then bag.globals else key :: bag.globals }

/-- The value of a property. -/
def get? (bag : PropertyBag) (name : Text) : Option Text := bag.values.lookup (Text.asciiLower name)

/-! ## References -/

/-- The characters that start a reference before a parenthesis. -/
def isSigil (c : Char) : Bool := c = '$' || c = '%' || c = '@'

/-- Cuts a text at the parenthesis that closes the one before it; `depth` counts those opened since. -/
def untilClose (depth : Nat) : Text → Text × Text
  | [] => ([], [])
  | c :: rest =>
    if c = ')' then
      match depth with
      | 0 => ([], c :: rest)
      | depth + 1 => let (body, after) := untilClose depth rest; (c :: body, after)
    else
      let (body, after) := untilClose (if c = '(' then depth + 1 else depth) rest
      (c :: body, after)

/-- Nothing is lost at the cut. -/
theorem untilClose_append (depth : Nat) (t : Text) : (untilClose depth t).1 ++ (untilClose depth t).2 = t := by
  induction t generalizing depth with
  | nil => rfl
  | cons c rest ih =>
    unfold untilClose
    split
    · split
      · rfl
      · simp [ih]
    · simp [ih]

/-- What follows the cut is no longer than the text. -/
theorem length_untilClose_le (depth : Nat) (t : Text) : (untilClose depth t).2.length ≤ t.length := by
  have h := congrArg List.length (untilClose_append depth t)
  rw [List.length_append] at h
  omega

/-- Whether a text is the name of a property, and not a call or an expression. -/
def isPlainName (name : Text) : Bool :=
  !name.isEmpty && name.all fun c => ('a' ≤ c && c ≤ 'z') || ('A' ≤ c && c ≤ 'Z') || Text.isDigit c || c = '_' || c = '-'

/-- What stands for a reference with the given sigil and body. -/
def reference (bag : PropertyBag) (sigil : Char) (body : Text) : Text :=
  let name := Text.trim body
  if sigil = '$' && isPlainName name then (bag.get? name).getD [] else []

/-- The text with every reference replaced. -/
def expand (bag : PropertyBag) : Text → Text
  | [] => []
  | [c] => [c]
  | c :: d :: rest =>
    if isSigil c && d = '(' then
      bag.reference c (untilClose 0 rest).1 ++ expand bag ((untilClose 0 rest).2.drop 1)
    else c :: expand bag (d :: rest)
termination_by t => t.length
decreasing_by
  · have := length_untilClose_le 0 rest
    simp only [List.length_drop, List.length_cons]
    omega
  · simp

end PropertyBag

end SolutionGraph
