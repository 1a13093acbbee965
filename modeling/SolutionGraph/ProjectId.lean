import SolutionGraph.Text.Utf8

/-!
# Project ids

A project id is a 128-bit number, kept as its 32 hexadecimal digits.

* **reading** (`ProjectId.parse`): white space around the id and one pair of braces are dropped; what is left is 32
  digits, or groups of 8, 4, 4, 4 and 12 digits with hyphens between them, alone, in braces or after `urn:uuid:`;
* **faults** (`IdFault`): the first thing that is wrong with a text that is none of these;
* **writing** (`ProjectId.text`): the grouped form in capitals and braces.
-/

namespace SolutionGraph

/-- The id of a project. -/
structure ProjectId where
  /-- The hexadecimal digits, most significant first. -/
  digits : List (Fin 16)
  /-- There are 32 of them. -/
  length_digits : digits.length = 32
  deriving DecidableEq

/-- What is wrong with the text of an id. Positions and lengths are counted in bytes. -/
inductive IdFault where
  | length (found : Nat)
  | character (found : Char) (position : Nat)
  | groupCount (found : Nat)
  | groupLength (group expected found : Nat)
  deriving DecidableEq, Repr

/-- How a fault is reported. -/
def IdFault.message : IdFault → Text
  | .length found => "invalid length: found " ++ Text.ofNat found
  | .character found position => "invalid character: found `" ++ [found] ++ "` at " ++ Text.ofNat position
  | .groupCount found => "invalid group count: expected 5, found " ++ Text.ofNat found
  | .groupLength group expected found =>
    "invalid group length in group " ++ Text.ofNat group ++ ": expected " ++ Text.ofNat expected ++ ", found " ++
      Text.ofNat found

namespace ProjectId

/-! ## Writing -/

/-- The capital hexadecimal digit of a value. -/
def hexDigit (d : Fin 16) : Char := if d.val < 10 then Char.ofNat (48 + d.val) else Char.ofNat (55 + d.val)

/-- The id in capitals, grouped, and in braces. -/
def text (id : ProjectId) : Text :=
  let ds := id.digits.map hexDigit
  "\x7b" ++ ds.take 8 ++ "-" ++ (ds.drop 8).take 4 ++ "-" ++ (ds.drop 12).take 4 ++ "-" ++ (ds.drop 16).take 4 ++ "-" ++
    ds.drop 20 ++ "\x7d"

/-! ## Reading -/

/-- The value of a hexadecimal digit in either case. -/
def hexValue? (c : Char) : Option (Fin 16) :=
  let n := c.toNat
  if '0' ≤ c ∧ c ≤ '9' then some (Fin.ofNat 16 (n - 48))
  else if 'A' ≤ c ∧ c ≤ 'F' then some (Fin.ofNat 16 (n - 55))
  else if 'a' ≤ c ∧ c ≤ 'f' then some (Fin.ofNat 16 (n - 87))
  else none

/-- Reads 32 hexadecimal digits. -/
def ofDigits? (t : Text) : Option ProjectId := do
  let ds ← t.mapM hexValue?
  if h : ds.length = 32 then some ⟨ds, h⟩ else none

/-- The lengths of the groups of digits. -/
def groupLengths : List Nat := [8, 4, 4, 4, 12]

/-- Reads five groups of digits with hyphens between them. -/
def ofGroups? (t : Text) : Option ProjectId :=
  let groups := Text.splitOn '-' t
  if groups.map List.length = groupLengths then ofDigits? groups.flatten else none

/-- The inside of a text in braces. -/
def unbraced? : Text → Option Text
  | '\x7b' :: rest => if rest.getLast? = some '\x7d' then some rest.dropLast else none
  | _ => none

/-- The rest of a text that starts with `urn:uuid:` in any case. -/
def afterUrn? (t : Text) : Option Text :=
  if Text.asciiLower (t.take 9) = "urn:uuid:" then some (t.drop 9) else none

/-! ## Faults -/

/-- The byte positions of the hyphens of a text that has hexadecimal digits besides, or the first other character. -/
def hyphens (position : Nat) : Text → Except (Char × Nat) (List Nat)
  | [] => .ok []
  | c :: rest =>
    if c = '-' then (hyphens (position + 1) rest).map (position :: ·)
    else if (hexValue? c).isSome then hyphens (position + 1) rest
    else .error (c, position)

/-- The first group whose end is not where it should be, given the ends of the first four groups. -/
def groupFault (textLength : Nat) (ends : List Nat) : IdFault :=
  let starts := [0, 9, 14, 19]
  let groups := (List.range 4).zip (ends.zip (starts.zip groupLengths))
  match groups.find? fun (_, stop, start, expected) => stop ≠ start + expected with
  | some (group, stop, start, expected) => .groupLength group expected (stop - start)
  | none => .groupLength 4 12 (textLength - 24)

/-- What is wrong with a text that is no id. A text that is `grouped` already stands without its wrapping. -/
def fault (grouped : Bool) (t : Text) : IdFault :=
  let length := Text.byteLength t
  if length = 0 ∨ 45 < length then .length length
  else
    let (wrapped, offset, body) :=
      if grouped then (true, 0, t)
      else
        match unbraced? t, afterUrn? t with
        | some body, _ => (true, 1, body)
        | none, some body => (true, 9, body)
        | none, none => (false, 0, t)
    match hyphens 0 body with
    | .error (c, position) => .character c (position + offset)
    | .ok ends =>
      if !wrapped && ends.isEmpty then .length length
      else if ends.length ≠ 4 then .groupCount (ends.length + 1)
      else groupFault length ends

/-- The text between the braces, if the whole is in braces. -/
def withoutBraces (t : Text) : Text := (unbraced? t).getD t

/-- Reads an id, or says what is wrong with it. -/
def parse (raw : Text) : Except IdFault ProjectId :=
  let t := withoutBraces (Text.trim raw)
  let grouped (body : Text) := match ofGroups? body with
    | some id => Except.ok id
    | none => .error (fault true body)
  let length := Text.byteLength t
  if length = 36 then grouped t
  else
    match unbraced? t, afterUrn? t with
    | some body, _ => if length = 38 then grouped body else .error (fault false t)
    | none, some body => if length = 45 then grouped body else .error (fault false t)
    | none, none =>
      match ofDigits? t with
      | some id => .ok id
      | none => .error (fault false t)

/-- The id that a text spells, if it spells one. -/
def parse? (raw : Text) : Option ProjectId := (parse raw).toOption

end ProjectId

end SolutionGraph
