import SolutionGraph.Text.Basic

/-!
# Markup documents

A document is a tree of elements. An element is known by its local name, whatever its namespace, and its attributes are
those without a namespace.

* **`Element.text?`** is the text that an element starts with: its first child, if that is text;
* **`Element.elements`** are its child elements, and `Element.descendants` all elements below it in document order.
-/

namespace SolutionGraph.Markup

/-- A piece of a document. -/
inductive Node where
  /-- An element with the line that it starts on. -/
  | element (name : Text) (attributes : List (Text × Text)) (line : Nat) (children : List Node)
  /-- A run of text. -/
  | text (content : Text)
  /-- A comment or a processing instruction. -/
  | remark
  deriving Repr

/-- An element, taken apart. -/
structure Element where
  /-- The local name. -/
  name : Text
  /-- The attributes without a namespace, with their values. -/
  attributes : List (Text × Text)
  /-- The line that the element starts on. -/
  line : Nat
  /-- What stands inside it. -/
  children : List Node
  deriving Repr

/-- The element that a node is, if it is one. -/
def Node.element? : Node → Option Element
  | .element name attributes line children => some ⟨name, attributes, line, children⟩
  | _ => none

mutual

/-- The elements of a node and below it, in document order. -/
def Node.elementsBelow : Node → List Element
  | .element name attributes line children => ⟨name, attributes, line, children⟩ :: elementsBelowAll children
  | _ => []

/-- The elements of a list of nodes and below them, in document order. -/
def elementsBelowAll : List Node → List Element
  | [] => []
  | node :: rest => node.elementsBelow ++ elementsBelowAll rest

end

namespace Element

/-- The node that an element is. -/
def node (e : Element) : Node := .element e.name e.attributes e.line e.children

/-- The value of an attribute. -/
def attribute? (e : Element) (name : Text) : Option Text := e.attributes.lookup name

/-- The child elements. -/
def elements (e : Element) : List Element := e.children.filterMap Node.element?

/-- The child elements of a name. -/
def elementsNamed (e : Element) (name : Text) : List Element := e.elements.filter fun child => child.name == name

/-- All elements below, in document order. -/
def descendants (e : Element) : List Element := elementsBelowAll e.children

/-- The text that the element starts with. -/
def text? (e : Element) : Option Text :=
  match e.children with
  | .text content :: _ => some content
  | _ => none

end Element

end SolutionGraph.Markup
