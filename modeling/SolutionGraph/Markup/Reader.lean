import SolutionGraph.Markup.Basic
import SolutionGraph.Markup.Lexeme

/-!
# Reading markup

`Markup.parse?` reads a document, or refuses a malformed one.

* **tags** (`tagsFrom`): the text is cut into opening and closing tags, character data, and comments and instructions;
* **the tree** (`build`): tags are matched, prefixes have to be declared and attributes to differ, and there is exactly
  one outermost element with nothing but blanks and remarks around it. Document types are refused.
-/

namespace SolutionGraph.Markup

/-! ## Tags -/

/-- A piece of a document's text. -/
inductive Tag where
  /-- An opening tag; `closed` if it ends itself. -/
  | opening (name : QName) (attributes : List (QName × Text)) (closed : Bool) (line : Nat)
  | closing (name : QName)
  /-- Character data, with the blanks-only test that it has to pass outside the outermost element. -/
  | data (content : Text) (blank : Bool)
  | remark
  deriving Repr

/-- Reads the attributes of an opening tag and its end. -/
def readAttributes (t : Text) : Option ((List (QName × Text) × Bool) × Text) :=
  match skipSpaces t with
  | '/' :: '>' :: rest => some (([], true), rest)
  | '>' :: rest => some (([], false), rest)
  | start =>
    if (skipSpaces t).length = t.length then none
    else
      match readAttribute start with
      | none => none
      | some (first, rest) =>
        if rest.length < t.length then
          (readAttributes rest).map fun ((more, closed), after) => ((first :: more, closed), after)
        else none
termination_by t.length

/-- Reads a comment after its opening mark. -/
def readComment (t : Text) : Option Text := do
  let (body, rest) ← readUntil "-->" t
  if Text.occurs "--" body || body.getLast? = some '-' then none else some rest

/-- Reads a processing instruction after its opening mark. -/
def readInstruction (t : Text) : Option Text := do
  if "xml ".toList.isPrefixOf t then none
  let (_, afterTarget) ← readName t
  let (_, rest) ← readUntil "?>" (skipSpaces afterTarget)
  return rest

/-- Reads the tag at the start of a text. -/
def readTag (line : Nat) (t : Text) : Option (Tag × Text) :=
  match t with
  | '<' :: '!' :: '-' :: '-' :: rest => (readComment rest).map fun after => (.remark, after)
  | '<' :: '!' :: '[' :: 'C' :: 'D' :: 'A' :: 'T' :: 'A' :: '[' :: rest =>
    (readUntil "]]>" rest).map fun (body, after) => (.data (literalData body) false, after)
  | '<' :: '!' :: _ => none
  | '<' :: '?' :: rest => (readInstruction rest).map fun after => (.remark, after)
  | '<' :: '/' :: rest => do
    let (name, afterName) ← readQName rest
    let after ← Text.dropStart? ">" (skipSpaces afterName)
    return (.closing name, after)
  | '<' :: rest => do
    let (name, afterName) ← readQName rest
    let ((attributes, closed), after) ← readAttributes afterName
    return (.opening name attributes closed line, after)
  | _ => do
    let raw := t.takeWhile (· ≠ '<')
    if !raw.all isDocumentChar || Text.occurs "]]>" raw then none
    let content ← characterData? raw
    return (.data content (raw.all isSpace), t.dropWhile (· ≠ '<'))

/-- The tags of a text that starts on the given line. -/
def tagsFrom (line : Nat) (t : Text) : Option (List Tag) :=
  if t.isEmpty then some []
  else
    match readTag line t with
    | none => none
    | some (tag, rest) =>
      if rest.length < t.length then
        (tagsFrom (line + (t.take (t.length - rest.length)).count '\n') rest).map (tag :: ·)
      else none
termination_by t.length

/-! ## The tree -/

/-- The namespace that the prefix `xml` is bound to. -/
def xmlSpace : Text := Text.join "/" ["http:", "", "www.w3.org", "XML", "1998", "namespace"]

/-- The namespace of the declarations themselves. -/
def xmlnsSpace : Text := Text.join "/" ["http:", "", "www.w3.org", "2000", "xmlns", ""]

/-- The namespaces that are declared where an element stands, by prefix. -/
abbrev Scope := List (Text × Text)

/-- Takes the namespace declarations of an opening tag into the scope. -/
def declare (outer : Scope) : List (QName × Text) → Option Scope
  | [] => some outer
  | (name, value) :: rest => do
    let inner ← declare outer rest
    if name.space = "xmlns" then
      if value = xmlnsSpace then none
      else if name.part = "xml" then if value = xmlSpace then some inner else none
      else if value = xmlSpace then none
      else if rest.any fun other => other.1 == name then none
      else some ((name.part, value) :: inner)
    else if name.part = "xmlns" then
      if value = xmlSpace || value = xmlnsSpace then none else some inner
    else some inner

/-- Whether an attribute declares a namespace. -/
def isDeclaration (name : QName) : Bool := name.space == "xmlns" || name.part == "xmlns"

/-- The namespace of an attribute and its local name. -/
def expandedName? (scope : Scope) (name : QName) : Option (Option Text × Text) :=
  if name.space.isEmpty then some (none, name.part)
  else if name.space = "xml" then some (some xmlSpace, name.part)
  else (scope.lookup name.space).map fun space => (some space, name.part)

/-- The attributes of an opening tag that are not declarations: they have to be different, and those without a namespace
are kept. -/
def plainAttributes? (scope : Scope) (attributes : List (QName × Text)) : Option (List (Text × Text)) := do
  let named ← (attributes.filter fun a => !isDeclaration a.1).mapM fun a => do
    let name ← expandedName? scope a.1
    return (name, ← attributeValue? a.2)
  if (named.map Prod.fst).eraseDups.length = named.length then
    some (named.filterMap fun ((space, part), value) => if space.isNone then some (part, value) else none)
  else none

/-- An element whose closing tag is still to come. -/
structure OpenElement where
  /-- The name to be closed. -/
  name : QName
  /-- Its attributes. -/
  attributes : List (Text × Text)
  /-- The line that it starts on. -/
  line : Nat
  /-- The namespaces declared inside it. -/
  scope : Scope
  /-- What stands inside it so far, last first. -/
  children : List Node

/-- The open elements, innermost first, and the outermost element once it is closed. -/
structure Progress where
  /-- The open elements. -/
  stack : List OpenElement
  /-- The outermost element. -/
  root? : Option Element

/-- Adds a node inside the innermost open element; runs of text are put together. -/
def addNode (node : Node) (top : OpenElement) : OpenElement :=
  match node, top.children with
  | .text content, .text before :: earlier => { top with children := .text (before ++ content) :: earlier }
  | _, children => { top with children := node :: children }

/-- Puts an element that is complete in its place. -/
def Progress.close (p : Progress) (e : Element) : Option Progress :=
  match p.stack, p.root? with
  | top :: outer, _ => some { p with stack := addNode e.node top :: outer }
  | [], none => some ⟨[], some e⟩
  | [], some _ => none

/-- Takes in one tag. -/
def Progress.step (p : Progress) : Tag → Option Progress
  | .remark =>
    match p.stack with
    | top :: outer => some { p with stack := addNode .remark top :: outer }
    | [] => some p
  | .data content blank =>
    match p.stack with
    | top :: outer => some { p with stack := addNode (.text content) top :: outer }
    | [] => if blank then some p else none
  | .closing name =>
    match p.stack with
    | top :: outer =>
      if top.name = name then
        ({ p with stack := outer } : Progress).close ⟨name.part, top.attributes, top.line, top.children.reverse⟩
      else none
    | [] => none
  | .opening name attributes closed line => do
    if name.space = "xmlns" || (p.stack.isEmpty && p.root?.isSome) then none
    let outer := match p.stack with
      | top :: _ => top.scope
      | [] => []
    let valued ← attributes.mapM fun a => do return (a.1, ← attributeValue? a.2)
    let scope ← declare outer valued
    if !name.space.isEmpty && (scope.lookup name.space).isNone then none
    let plain ← plainAttributes? scope attributes
    if closed then p.close ⟨name.part, plain, line, []⟩
    else some { p with stack := ⟨name, plain, line, scope, []⟩ :: p.stack }

/-- The outermost element of a list of tags. -/
def build (tags : List Tag) : Option Element := do
  let p ← tags.foldlM Progress.step ⟨[], none⟩
  if p.stack.isEmpty then p.root? else none

/-! ## Documents -/

/-- Drops blanks, of which there has to be one unless the declaration ends here. -/
def declarationSpaces (t : Text) : Option Text :=
  match t with
  | c :: _ => if isSpace c then some (skipSpaces t) else if "?>".toList.isPrefixOf t then some t else none
  | [] => none

/-- Reads a declared value of the given name, if it is there. -/
def declaredValue (name : Text) (t : Text) : Option Text :=
  if name.isPrefixOf t then (readAttribute t).map Prod.snd else some t

/-- Reads the declaration that a document may start with. -/
def skipDeclaration (t : Text) : Option Text :=
  match Text.dropStart? "<?xml " t with
  | none => some t
  | some rest => do
    let start := skipSpaces rest
    if !"version".toList.isPrefixOf start then none
    let afterVersion ← declarationSpaces (← declaredValue "version" start)
    let afterEncoding ←
      if "encoding".toList.isPrefixOf afterVersion then
        declarationSpaces (← declaredValue "encoding" afterVersion)
      else some afterVersion
    let afterStandalone ← declaredValue "standalone" afterEncoding
    Text.dropStart? "?>" (skipSpaces afterStandalone)

/-- The mark that some editors put at the start of a file. -/
def byteOrderMark : Char := Char.ofNat 0xFEFF

/-- Drops one byte order mark at the start. -/
def dropMark : Text → Text
  | [] => []
  | c :: rest => if c = byteOrderMark then rest else c :: rest

/-- The outermost element of a document, if it is well formed. -/
def parse? (source : Text) : Option Element := do
  let t := dropMark source
  let body ← skipDeclaration t
  build (← tagsFrom (1 + (t.take (t.length - body.length)).count '\n') body)

end SolutionGraph.Markup
