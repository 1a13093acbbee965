import SolutionGraph.Text.Basic

/-!
# Wildcard patterns

A pattern is a list of tokens. `?` is any character, `*` any run of characters, `[...]` and `[!...]` are classes, and `**`
as a whole component is any number of components. A pattern matches a whole text (`Pattern.matchesText`); there `*`, `?` and
classes match a slash too.
-/

namespace SolutionGraph.Glob

/-- A member of a character class. -/
inductive ClassItem where
  | single (c : Char)
  | range (first last : Char)
  deriving DecidableEq, Repr

/-- A token of a pattern. -/
inductive Token where
  /-- The character itself. -/
  | char (c : Char)
  /-- Any character. -/
  | anyChar
  /-- Any run of characters. -/
  | anyRun
  /-- Any number of components. -/
  | anyDepth
  /-- A character of the class. -/
  | within (items : List ClassItem)
  /-- A character that is not of the class. -/
  | outside (items : List ClassItem)
  deriving DecidableEq, Repr

/-- A pattern is its list of tokens. -/
abbrev Pattern := List Token

/-! ## Reading patterns -/

/-- The members of a class. -/
def classItems : Text → List ClassItem
  | a :: '-' :: b :: rest => .range a b :: classItems rest
  | c :: rest => .single c :: classItems rest
  | [] => []

/-- Reads a class after its opening bracket. The first character belongs to the class, even if it is a bracket. -/
def readClass : Text → Option (Token × Text)
  | '!' :: first :: rest =>
    (Text.splitOnce ']' rest).map fun (before, after) => (.outside (classItems (first :: before)), after)
  | '!' :: [] => none
  | first :: rest =>
    (Text.splitOnce ']' rest).map fun (before, after) => (.within (classItems (first :: before)), after)
  | [] => none

/-- Reads the rest of a pattern; `atStart` says that a component starts here. Three stars, two stars that are not a
whole component, and a class without an end make no pattern. -/
def readFrom (atStart : Bool) (t : Text) : Option Pattern :=
  match t with
  | [] => some []
  | '*' :: '*' :: rest =>
    if atStart then
      match rest with
      | [] => some [.anyDepth]
      | '/' :: after => (readFrom true after).map (.anyDepth :: ·)
      | _ => none
    else none
  | '*' :: rest => (readFrom false rest).map (.anyRun :: ·)
  | '?' :: rest => (readFrom false rest).map (.anyChar :: ·)
  | '[' :: rest =>
    match readClass rest with
    | none => none
    | some (token, after) =>
      if after.length ≤ rest.length then (readFrom false after).map (token :: ·) else none
  | c :: rest => (readFrom (c = '/') rest).map (.char c :: ·)
termination_by t.length
decreasing_by
  all_goals simp only [List.length_cons]
  all_goals omega

/-- Reads a pattern. -/
def read (t : Text) : Option Pattern := readFrom true t

namespace Pattern

/-- The text that a pattern without wildcards stands for. -/
def literal? (p : Pattern) : Option Text :=
  p.mapM fun token =>
    match token with
    | .char c => some c
    | _ => none

/-- Whether a pattern stands for any number of components. -/
def isDeep (p : Pattern) : Bool := p.contains .anyDepth

/-! ## Matching -/

end Pattern

/-- Whether a character is in a class. -/
def inClass (items : List ClassItem) (c : Char) : Bool :=
  items.any fun item =>
    match item with
    | .single a => c = a
    | .range a b => a ≤ c && c ≤ b

/-- All ends of a text, the longest first. -/
def endings : Text → List Text
  | [] => [[]]
  | c :: rest => (c :: rest) :: endings rest

/-- The ends of a text that any number of its first components leave: all of it, what follows each slash, and
nothing. -/
def deepEndings (t : Text) : List Text := t :: afterSlashes t
where
  /-- What follows each slash, and at last nothing. -/
  afterSlashes : Text → List Text
    | [] => [[]]
    | c :: rest => if c = '/' then rest :: afterSlashes rest else afterSlashes rest

namespace Pattern

/-- Whether a pattern matches a whole text. -/
def matchesText : Pattern → Text → Bool
  | [], t => t.isEmpty
  | .anyRun :: p, t => (endings t).any (matchesText p)
  | .anyDepth :: p, t => (deepEndings t).any (matchesText p)
  | .char c :: p, t => t.head? == some c && matchesText p t.tail
  | .anyChar :: p, t => !t.isEmpty && matchesText p t.tail
  | .within items :: p, t => t.head?.any (inClass items) && matchesText p t.tail
  | .outside items :: p, t => t.head?.any (fun c => !inClass items c) && matchesText p t.tail

end Pattern

end SolutionGraph.Glob
