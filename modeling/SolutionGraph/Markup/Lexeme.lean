import SolutionGraph.Text.Basic

/-!
# Lexemes of markup

The characters that markup is made of, and readers for its smallest pieces: names, quoted values, references, and runs up
to a closing mark. Each reader gives what it read and the rest of the text, or nothing if the text is malformed there.
-/

namespace SolutionGraph.Markup

/-! ## Characters -/

/-- The blanks of markup. -/
def isSpace (c : Char) : Bool := c = ' ' || c = '\t' || c = '\n' || c = '\r'

/-- The characters that a document may hold. -/
def isDocumentChar (c : Char) : Bool :=
  if c.toNat < 0x20 then c = '\t' || c = '\n' || c = '\r' else c.toNat ≠ 0xFFFE && c.toNat ≠ 0xFFFF

/-- The ranges outside ASCII of the characters that a name may start with. -/
def nameStartRanges : List (Nat × Nat) :=
  [(0xC0, 0xD6), (0xD8, 0xF6), (0xF8, 0x2FF), (0x370, 0x37D), (0x37F, 0x1FFF), (0x200C, 0x200D), (0x2070, 0x218F),
   (0x2C00, 0x2FEF), (0x3001, 0xD7FF), (0xF900, 0xFDCF), (0xFDF0, 0xFFFD), (0x10000, 0xEFFFF)]

/-- The further ranges outside ASCII of the characters in a name. -/
def nameRanges : List (Nat × Nat) := [(0xB7, 0xB7), (0x300, 0x36F), (0x203F, 0x2040)]

/-- The characters that a name may start with. -/
def isNameStart (c : Char) : Bool :=
  ('A' ≤ c && c ≤ 'Z') || ('a' ≤ c && c ≤ 'z') || c = ':' || c = '_' || Text.inRanges nameStartRanges c.toNat

/-- The characters of a name. -/
def isNameChar (c : Char) : Bool :=
  isNameStart c || Text.isDigit c || c = '-' || c = '.' || Text.inRanges nameRanges c.toNat

/-! ## Readers -/

/-- Drops the blanks at the start. -/
def skipSpaces (t : Text) : Text := t.dropWhile isSpace

/-- Reads a name, colons included. -/
def readName (t : Text) : Option (Text × Text) :=
  match t with
  | c :: _ => if isNameStart c then some (t.takeWhile isNameChar, t.dropWhile isNameChar) else none
  | [] => none

/-- A name with the part before its colon. -/
structure QName where
  /-- The part before the colon, or nothing. -/
  space : Text
  /-- The part after the colon. -/
  part : Text
  deriving DecidableEq, Repr

/-- Whether a text starts as a name does. -/
def startsName : Text → Bool
  | c :: _ => isNameStart c
  | [] => false

/-- Reads a name with at most one colon; both its parts have to start as names do. -/
def readQName (t : Text) : Option (QName × Text) :=
  let name := t.takeWhile isNameChar
  let rest := t.dropWhile isNameChar
  match Text.splitOn ':' name with
  | [whole] => if startsName whole then some (⟨[], whole⟩, rest) else none
  | [space, part] =>
    if (space.isEmpty || startsName space) && startsName part then some (⟨space, part⟩, rest) else none
  | _ => none

/-- Reads up to a closing mark and over it. -/
def readUntil (stop : Text) : Text → Option (Text × Text)
  | [] => none
  | c :: rest =>
    if !isDocumentChar c then none
    else if stop.isPrefixOf (c :: rest) then some ([], (c :: rest).drop stop.length)
    else (readUntil stop rest).map fun (before, after) => (c :: before, after)

/-- Reads a value in quotes of either kind, which holds no opening bracket. -/
def readQuoted (t : Text) : Option (Text × Text) :=
  match t with
  | quote :: rest =>
    if quote = '"' ∨ quote = '\'' then do
      let (value, after) ← readUntil [quote] rest
      if value.contains '<' then none else some (value, after)
    else none
  | [] => none

/-- Reads a name, an equals sign and a value in quotes. -/
def readAttribute (t : Text) : Option ((QName × Text) × Text) := do
  let (name, afterName) ← readQName t
  let afterEquals ← Text.dropStart? "=" (skipSpaces afterName)
  let (value, rest) ← readQuoted (skipSpaces afterEquals)
  return ((name, value), rest)

/-! ## References -/

/-- The value of a digit in the given base. -/
def digitValue? (base : Nat) (c : Char) : Option Nat :=
  if Text.isDigit c then some (c.toNat - 48)
  else if base = 16 ∧ 'a' ≤ Text.lowerAscii c ∧ Text.lowerAscii c ≤ 'f' then some ((Text.lowerAscii c).toNat - 87)
  else none

/-- The character of a number in the given base; numbers of no character stand for `U+FFFD`. -/
def numberedChar? (base : Nat) (digits : Text) : Option Char := do
  let values ← digits.mapM (digitValue? base)
  if values.isEmpty then none
  let n := values.foldl (fun n d => base * n + d) 0
  if 4294967296 ≤ n then none
  let c := if n.isValidChar then Char.ofNat n else Char.ofNat 0xFFFD
  if isDocumentChar c then some c else none

/-- The character that a name stands for in a reference. -/
def namedChar? (name : Text) : Option Char :=
  if name = "quot" then some '"'
  else if name = "amp" then some '&'
  else if name = "apos" then some '\''
  else if name = "lt" then some '<'
  else if name = "gt" then some '>'
  else none

/-- The character that the body of a reference stands for. -/
def referencedChar? : Text → Option Char
  | '#' :: 'x' :: digits => numberedChar? 16 digits
  | '#' :: digits => numberedChar? 10 digits
  | name => namedChar? name

/-- A character of a text, and whether it was written as a reference. -/
structure Written where
  /-- The character. -/
  char : Char
  /-- Whether a reference stands for it. -/
  byReference : Bool
  deriving DecidableEq, Repr

/-- The characters of a raw text with its references resolved; `open?` is the body of a reference read so far,
backwards. -/
def resolveFrom : Option Text → Text → Option (List Written)
  | none, [] => some []
  | some _, [] => none
  | none, c :: rest =>
    if c = '&' then resolveFrom (some []) rest else (resolveFrom none rest).map (⟨c, false⟩ :: ·)
  | some body, c :: rest =>
    if c = ';' then do
      let char ← referencedChar? body.reverse
      let more ← resolveFrom none rest
      return ⟨char, true⟩ :: more
    else resolveFrom (some (c :: body)) rest

/-- The characters of a raw text with its references resolved. -/
def resolve (raw : Text) : Option (List Written) := resolveFrom none raw

/-! ## Line ends -/

/-- Takes one more character into a text, backwards, where a carriage return with or without a line feed is one line
feed. -/
def pushLine (done : Text) (c : Char) (isLast : Bool) : Text :=
  let done' := match done with
    | '\r' :: before => '\n' :: before
    | _ => done
  if isLast && c = '\r' then '\n' :: done'
  else if done.head? = some '\r' && c = '\n' then done'
  else c :: done'

/-- The text of written characters with line ends made line feeds; `shielded` says that the character before was a
reference, which leaves itself and the next character as they are. -/
def joinLines (done : Text) (shielded : Bool) : List Written → Text
  | [] => done.reverse
  | w :: rest =>
    if w.byReference then joinLines (w.char :: done) true rest
    else if shielded then joinLines (w.char :: done) false rest
    else joinLines (pushLine done w.char rest.isEmpty) false rest

/-- The text of character data. -/
def characterData? (raw : Text) : Option Text := (resolve raw).map (joinLines [] false)

/-- The text of a literal section, where nothing is a reference. -/
def literalData (raw : Text) : Text := joinLines [] false (raw.map fun c => ⟨c, false⟩)

/-- The value of an attribute: line ends and tabs that are written out become spaces. -/
def joinValue : List Written → Text
  | [] => []
  | w :: rest =>
    if w.byReference then w.char :: joinValue rest
    else if w.char = '\r' ∧ rest.head? = some ⟨'\n', false⟩ then joinValue rest
    else if w.char = '\n' ∨ w.char = '\r' ∨ w.char = '\t' then ' ' :: joinValue rest
    else w.char :: joinValue rest

/-- The value of an attribute. -/
def attributeValue? (raw : Text) : Option Text := (resolve raw).map joinValue

end SolutionGraph.Markup
