import SolutionGraph.Text.Basic

/-!
# Directed graphs as markup

A directed graph is written as nodes, links between them, and the categories that nodes may be of. Texts in attributes are
escaped.
-/

namespace SolutionGraph.Dgml

/-- How a character is written in an attribute. -/
def escapeChar (c : Char) : Text :=
  if c = '<' then "&lt;"
  else if c = '>' then "&gt;"
  else if c = '&' then "&amp;"
  else if c = '\'' then "&apos;"
  else if c = '"' then "&quot;"
  else [c]

/-- How a text is written in an attribute. -/
def escape (t : Text) : Text := t.flatMap escapeChar

/-- A node of a written graph. -/
structure Node where
  /-- What links name it by. -/
  id : Text
  /-- What is shown. -/
  label : Text
  /-- Its category, if it has one. -/
  category : Option Text
  /-- The file that it stands for. -/
  reference : Text
  deriving DecidableEq, Repr

/-- A link from one node to another. -/
structure Link where
  /-- The id of the node that it starts from. -/
  source : Text
  /-- The id of the node that it leads to. -/
  target : Text
  deriving DecidableEq, Repr

/-- A written graph. -/
structure Document where
  /-- The nodes. -/
  nodes : List Node
  /-- The links. -/
  links : List Link
  /-- The categories; without any, nothing is said about them. -/
  categories : List Text
  deriving DecidableEq, Repr

/-- The line of a node. -/
def Node.line (n : Node) : Text :=
  let category := match n.category with
    | some name => " Category=\"" ++ name ++ "\""
    | none => []
  "    <Node Id=\"" ++ n.id ++ "\" Label=\"" ++ escape n.label ++ "\"" ++ category ++ " Reference=\"" ++
    escape n.reference ++ "\" />\n"

/-- The line of a link. -/
def Link.line (l : Link) : Text :=
  "    <Link Source=\"" ++ l.source ++ "\" Target=\"" ++ l.target ++ "\" />\n"

/-- The line of a category. -/
def categoryLine (name : Text) : Text := "    <Category Id=\"" ++ name ++ "\" />\n"

/-- The first lines. -/
def opening : Text :=
  "<?xml version=\"1.0\" encoding=\"utf-8\"?>\n" ++
    "<DirectedGraph xmlns=\"http://schemas.microsoft.com/vs/2009/dgml\">\n"

/-- The text of a graph. -/
def Document.text (d : Document) : Text :=
  let categories : Text :=
    if d.categories.isEmpty then []
    else "  <Categories>\n" ++ d.categories.flatMap categoryLine ++ "  </Categories>\n"
  opening ++ "  <Nodes>\n" ++ d.nodes.flatMap Node.line ++ "  </Nodes>\n  <Links>\n" ++ d.links.flatMap Link.line ++
    "  </Links>\n" ++ categories ++ "</DirectedGraph>\n"

end SolutionGraph.Dgml
