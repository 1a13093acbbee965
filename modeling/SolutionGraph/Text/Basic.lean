/-!
# Text

All text of the library is a list of characters. This module holds the operations that the readers share:

* **blanks**: `isBlank` is the Unicode `White_Space` property, and `trim` removes blanks at both ends;
* **letter case**: `asciiLower` and `eqIgnoringCase` touch the letters `A` to `Z` only;
* **order**: `le` compares code point by code point;
* **cutting**: `splitOn`, `splitOnce` and `lines`;
* **numbers**: `number?` reads a bounded decimal number and `ofNat` writes one.
-/

namespace SolutionGraph

/-- A text is its list of characters. -/
abbrev Text := List Char

instance : Coe String Text := ⟨String.toList⟩

namespace Text

/-! ## Blanks -/

/-- The characters with the Unicode property `White_Space`. -/
def isBlank (c : Char) : Bool :=
  let n := c.toNat
  (9 ≤ n && n ≤ 13) || n == 0x20 || n == 0x85 || n == 0xA0 || n == 0x1680 || (0x2000 ≤ n && n ≤ 0x200A) ||
    n == 0x2028 || n == 0x2029 || n == 0x202F || n == 0x205F || n == 0x3000

/-- Drops the blanks at the start. -/
def trimStart (t : Text) : Text := t.dropWhile isBlank

/-- Drops the blanks at the end. -/
def trimEnd (t : Text) : Text := (t.reverse.dropWhile isBlank).reverse

/-- Drops the blanks at both ends. -/
def trim (t : Text) : Text := trimEnd (trimStart t)

/-- A text is blank when it has no other characters than blanks. -/
def isAllBlank (t : Text) : Bool := t.all isBlank

/-! ## Letter case -/

/-- The small letter of a capital letter from `A` to `Z`; every other character stays. -/
def lowerAscii (c : Char) : Char :=
  if 'A' ≤ c ∧ c ≤ 'Z' then Char.ofNat (c.toNat + 32) else c

/-- A text with its letters `A` to `Z` made small. -/
def asciiLower (t : Text) : Text := t.map lowerAscii

/-- Whether two texts agree up to the case of the letters `A` to `Z`. -/
def eqIgnoringCase (s t : Text) : Bool := asciiLower s == asciiLower t

/-- Whether a code point lies in one of the ranges, ends included. -/
def inRanges (ranges : List (Nat × Nat)) (n : Nat) : Bool := ranges.any fun (lo, hi) => lo ≤ n && n ≤ hi

/-! ## Order -/

/-- Whether one text comes before another or is equal to it: by the first code point in which they differ, and a text
before all that go on from it. -/
def le : Text → Text → Bool
  | [], _ => true
  | _ :: _, [] => false
  | a :: as, b :: bs => if a = b then le as bs else decide (a.toNat ≤ b.toNat)

/-! ## Cutting -/

/-- Cuts a text at every separator; there is one piece more than there are separators. -/
def splitOn (separator : Char) : Text → List Text
  | [] => [[]]
  | c :: rest =>
    if c = separator then [] :: splitOn separator rest
    else
      match splitOn separator rest with
      | [] => [[c]]
      | piece :: pieces => (c :: piece) :: pieces

/-- Cuts a text at the first separator, if there is one. -/
def splitOnce (separator : Char) : Text → Option (Text × Text)
  | [] => none
  | c :: rest =>
    if c = separator then some ([], rest)
    else (splitOnce separator rest).map fun (before, after) => (c :: before, after)

/-- A line without the carriage return that ends it. -/
def dropReturn (line : Text) : Text :=
  match line.getLast? with
  | some '\r' => line.dropLast
  | _ => line

/-- The lines of a text: it is cut at line feeds, one carriage return before a line feed goes with it, and an empty
piece after the last line feed is no line. -/
def lines (t : Text) : List Text :=
  let pieces := splitOn '\n' t
  let whole := pieces.dropLast.map dropReturn
  match pieces.getLast? with
  | none | some [] => whole
  | some last => whole ++ [last]

/-- The text after a given start, if the text has that start. -/
def dropStart? (start : Text) (t : Text) : Option Text :=
  if start.isPrefixOf t then some (t.drop start.length) else none

/-- Whether `part` stands somewhere in the text. -/
def occurs (part : Text) : Text → Bool
  | [] => part.isEmpty
  | c :: rest => part.isPrefixOf (c :: rest) || occurs part rest

/-- Texts with a separator between each two. -/
def join (separator : Text) : List Text → Text
  | [] => []
  | [t] => t
  | t :: rest => t ++ separator ++ join separator rest

/-! ## Numbers -/

/-- Whether a character is one of the digits `0` to `9`. -/
def isDigit (c : Char) : Bool := '0' ≤ c && c ≤ '9'

/-- The number that a list of decimal digits stands for. -/
def digitsValue (ds : Text) : Nat := ds.foldl (fun n d => 10 * n + (d.toNat - '0'.toNat)) 0

/-- Reads an unsigned decimal number below `bound`: one optional plus sign and then at least one digit. -/
def number? (bound : Nat) (t : Text) : Option Nat :=
  let digits := match t with
    | '+' :: rest => rest
    | _ => t
  if digits.isEmpty || !digits.all isDigit then none
  else
    let value := digitsValue digits
    if value < bound then some value else none

/-- The decimal digits of a number. -/
def ofNat (n : Nat) : Text := Nat.toDigits 10 n

end Text

end SolutionGraph
