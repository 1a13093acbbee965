import SolutionGraph.Text.Basic

/-!
# JSON

The values of JSON as far as reports need them, and how they are written: every element on a line of its own, two blanks
deeper than what it belongs to. Characters beyond ASCII are written as they are.
-/

namespace SolutionGraph.Json

/-- A JSON value; the fields of a record keep their order. -/
inductive Value where
  | null
  | bool (b : Bool)
  | number (n : Nat)
  | text (t : Text)
  | list (items : List Value)
  | record (fields : List (Text × Value))

/-! ## Texts -/

/-- A hexadecimal digit in lower case. -/
def hexDigit (n : Nat) : Char := if n < 10 then Char.ofNat (48 + n) else Char.ofNat (87 + n)

/-- How a character is written between quotes. -/
def escapeChar (c : Char) : Text :=
  if c = '"' then "\\\""
  else if c = '\\' then "\\\\"
  else if c = '\n' then "\\n"
  else if c = '\r' then "\\r"
  else if c = '\t' then "\\t"
  else if c.toNat = 8 then "\\b"
  else if c.toNat = 12 then "\\f"
  else if c.toNat < 32 then "\\u00" ++ [hexDigit (c.toNat / 16), hexDigit (c.toNat % 16)]
  else [c]

/-- A text in quotes. -/
def quote (t : Text) : Text := '"' :: t.flatMap escapeChar ++ ['"']

/-! ## Values -/

/-- The start of a line at a depth. -/
def margin (depth : Nat) : Text := List.replicate (2 * depth) ' '

/-- Elements between delimiters, one on each line. -/
def block (opening closing : Char) (depth : Nat) (elements : List Text) : Text :=
  if elements.isEmpty then [opening, closing]
  else
    [opening, '\n'] ++ Text.join ",\n" (elements.map fun e => margin (depth + 1) ++ e) ++ '\n' :: margin depth ++ [closing]

mutual

/-- A value at a depth. -/
def Value.print (depth : Nat) : Value → Text
  | .null => "null"
  | .bool b => if b then "true" else "false"
  | .number n => Text.ofNat n
  | .text t => quote t
  | .list items => block '[' ']' depth (printItems (depth + 1) items)
  | .record fields => block '\x7b' '\x7d' depth (printFields (depth + 1) fields)

/-- The elements of a list. -/
def printItems (depth : Nat) : List Value → List Text
  | [] => []
  | item :: rest => item.print depth :: printItems depth rest

/-- The fields of a record. -/
def printFields (depth : Nat) : List (Text × Value) → List Text
  | [] => []
  | (name, value) :: rest => (quote name ++ ": " ++ value.print depth) :: printFields depth rest

end

/-- A value as a text of its own, with a line end behind it. -/
def Value.document (v : Value) : Text := v.print 0 ++ ['\n']

/-- A value that may be missing. -/
def Value.ofOption {α : Type} (f : α → Value) : Option α → Value
  | some a => f a
  | none => .null

end SolutionGraph.Json
