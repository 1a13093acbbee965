import Mathlib.Data.List.Forall2
import SolutionGraph.Markup.Basic

/-!
# Documents up to what does not count

A redaction takes out of a document what does not count for a question: the lines that elements start on, or the texts
of some properties, which are the elements inside a `PropertyGroup`. Two elements are the same up to a redaction if it
makes them equal (`Element.SameUpTo`). They have the same name and attributes, their child elements are the same up to
the redaction, pairwise (`Element.SameUpTo.elements`), and the elements below them have the same names and attributes
(`Element.SameUpTo.tags`).
-/

namespace SolutionGraph.Markup

/-! ## Equality -/

mutual

/-- Whether two nodes are equal. -/
def Node.decEq : (node node' : Node) → Decidable (node = node')
  | .element name attributes line children, .element name' attributes' line' children' =>
    if h : name = name' ∧ attributes = attributes' ∧ line = line' then
      match decEqAll children children' with
      | isTrue same => isTrue (by rw [h.1, h.2.1, h.2.2, same])
      | isFalse other => isFalse fun same => other (Node.element.inj same).2.2.2
    else isFalse fun same => h ⟨(Node.element.inj same).1, (Node.element.inj same).2.1, (Node.element.inj same).2.2.1⟩
  | .text content, .text content' => decidable_of_iff (content = content') ⟨congrArg _, Node.text.inj⟩
  | .remark, .remark => isTrue rfl
  | .element .., .text _ | .element .., .remark | .text _, .element .. | .text _, .remark | .remark, .element ..
  | .remark, .text _ => isFalse nofun

/-- Whether two lists of nodes are equal. -/
def decEqAll : (nodes nodes' : List Node) → Decidable (nodes = nodes')
  | [], [] => isTrue rfl
  | node :: rest, node' :: rest' =>
    match Node.decEq node node' with
    | isTrue same =>
      match decEqAll rest rest' with
      | isTrue others => isTrue (by rw [same, others])
      | isFalse other => isFalse fun same => other (List.cons.inj same).2
    | isFalse other => isFalse fun same => other (List.cons.inj same).1
  | [], _ :: _ | _ :: _, [] => isFalse nofun

end

instance : DecidableEq Node := Node.decEq

deriving instance DecidableEq for Element

/-! ## Redaction -/

/-- What does not count in a document. -/
structure Redaction where
  /-- Whether lines count. -/
  keepsLines : Bool
  /-- Whether the text of the property of that name does not count. -/
  hides : Text → Bool

/-- What is left of a line. -/
def Redaction.line (r : Redaction) (line : Nat) : Nat := if r.keepsLines then line else 0

/-- Whether a node is text. -/
def Node.isText : Node → Bool
  | .text _ => true
  | _ => false

mutual

/-- What is left of a node; `inGroup` tells if it is inside a group of properties. -/
def Node.redact (r : Redaction) (inGroup : Bool) : Node → Node
  | .element name attributes line children =>
    .element name attributes (r.line line)
      (redactAll r (name == ("PropertyGroup".toList : Text)) (inGroup && r.hides name) children)
  | .text content => .text content
  | .remark => .remark

/-- What is left of the nodes inside an element; `dropsText` tells if its text does not count. -/
def redactAll (r : Redaction) (inGroup dropsText : Bool) : List Node → List Node
  | [] => []
  | node :: rest =>
    if dropsText && node.isText then redactAll r inGroup dropsText rest
    else node.redact r inGroup :: redactAll r inGroup dropsText rest

end

namespace Element

/-- Whether an element is a group of properties. -/
def isGroup (e : Element) : Bool := e.name == ("PropertyGroup".toList : Text)

/-- What is left of an element. -/
def redact (r : Redaction) (inGroup : Bool) (e : Element) : Element :=
  ⟨e.name, e.attributes, r.line e.line, redactAll r e.isGroup (inGroup && r.hides e.name) e.children⟩

/-- The name and the attributes of an element. -/
def tag (e : Element) : Text × List (Text × Text) := (e.name, e.attributes)

end Element

section Redacting

variable {r : Redaction} {inGroup dropsText : Bool}

theorem filterMap_element?_redactAll (nodes : List Node) :
    (redactAll r inGroup dropsText nodes).filterMap Node.element? =
      (nodes.filterMap Node.element?).map (Element.redact r inGroup) := by
  induction nodes with
  | nil => rw [redactAll]; rfl
  | cons node nodes ih =>
    rw [redactAll]
    cases node with
    | element name attributes line children =>
      simp [Node.isText, Node.redact, Node.element?, ih, Element.redact, Element.isGroup]
    | text content =>
      have plain : (Node.text content :: nodes).filterMap Node.element? = nodes.filterMap Node.element? :=
        List.filterMap_cons_none rfl
      rw [plain, ← ih]
      cases dropsText
      · exact List.filterMap_cons_none rfl
      · rfl
    | remark =>
      have plain : (Node.remark :: nodes).filterMap Node.element? = nodes.filterMap Node.element? :=
        List.filterMap_cons_none rfl
      have kept : (dropsText && Node.remark.isText) ≠ true := by simp [Node.isText]
      rw [plain, ← ih, if_neg kept, Node.redact]
      exact List.filterMap_cons_none rfl

mutual

theorem map_tag_elementsBelow_redact {inGroup : Bool} : ∀ node : Node,
    (node.redact r inGroup).elementsBelow.map Element.tag = node.elementsBelow.map Element.tag
  | .element name attributes line children => by
    rw [Node.redact, Node.elementsBelow, Node.elementsBelow, List.map_cons, List.map_cons,
      map_tag_elementsBelowAll_redactAll children]
    rfl
  | .text content => by rw [Node.redact]
  | .remark => by rw [Node.redact]

theorem map_tag_elementsBelowAll_redactAll {inGroup dropsText : Bool} : ∀ nodes : List Node,
    (elementsBelowAll (redactAll r inGroup dropsText nodes)).map Element.tag = (elementsBelowAll nodes).map Element.tag
  | [] => by rw [redactAll]
  | node :: rest => by
    have below : (elementsBelowAll (redactAll r inGroup dropsText rest)).map Element.tag =
      (elementsBelowAll rest).map Element.tag := map_tag_elementsBelowAll_redactAll rest
    rw [redactAll]
    split
    · rename_i dropped
      cases node with
      | text => rw [elementsBelowAll, Node.elementsBelow, List.nil_append, below]; nofun
      | element | remark => simp [Node.isText] at dropped
    · rw [elementsBelowAll, elementsBelowAll, List.map_append, List.map_append, below, map_tag_elementsBelow_redact node]

end

end Redacting

namespace Element

theorem elements_redact (r : Redaction) (inGroup : Bool) (e : Element) :
    (e.redact r inGroup).elements = e.elements.map (redact r e.isGroup) := filterMap_element?_redactAll e.children

theorem text?_redact {r : Redaction} {inGroup : Bool} {e : Element} (shown : (inGroup && r.hides e.name) = false) :
    (e.redact r inGroup).text? = e.text? := by
  obtain ⟨name, attributes, line, children⟩ := e
  simp only at shown
  simp only [redact, text?, shown]
  cases children with
  | nil => rw [redactAll]
  | cons node rest =>
    rw [redactAll]
    cases node <;> simp [Node.redact]

/-- Two elements are the same up to a redaction. -/
def SameUpTo (r : Redaction) (inGroup : Bool) (e e' : Element) : Prop := e.redact r inGroup = e'.redact r inGroup

instance (r : Redaction) (inGroup : Bool) (e e' : Element) : Decidable (SameUpTo r inGroup e e') :=
  inferInstanceAs (Decidable (_ = _))

namespace SameUpTo

variable {r : Redaction} {inGroup : Bool} {e e' : Element}

theorem refl (e : Element) : SameUpTo r inGroup e e := rfl

theorem name (h : SameUpTo r inGroup e e') : e.name = e'.name := by
  have names : (e.redact r inGroup).name = (e'.redact r inGroup).name := by rw [h]
  exact names

theorem attribute? (h : SameUpTo r inGroup e e') (name : Text) : e.attribute? name = e'.attribute? name := by
  have values : (e.redact r inGroup).attribute? name = (e'.redact r inGroup).attribute? name := by rw [h]
  exact values

theorem line (h : SameUpTo r inGroup e e') (counts : r.keepsLines) : e.line = e'.line := by
  have lines : (e.redact r inGroup).line = (e'.redact r inGroup).line := by rw [h]
  simpa [redact, Redaction.line, counts] using lines

theorem text? (h : SameUpTo r inGroup e e') (shown : (inGroup && r.hides e.name) = false) : e.text? = e'.text? := by
  have shown' := shown
  rw [h.name] at shown'
  rw [← text?_redact shown, h, text?_redact shown']

theorem elements (h : SameUpTo r inGroup e e') : List.Forall₂ (SameUpTo r e.isGroup) e.elements e'.elements := by
  have isGroup : e'.isGroup = e.isGroup := by rw [isGroup, isGroup, h.name]
  have redacted : (e.redact r inGroup).elements = (e'.redact r inGroup).elements := by rw [h]
  rw [elements_redact, elements_redact, isGroup, ← List.forall₂_eq_eq_eq, List.forall₂_map_left_iff,
    List.forall₂_map_right_iff] at redacted
  exact redacted

/-- The elements below have the same names and attributes. -/
theorem tags (h : SameUpTo r inGroup e e') : e.descendants.map tag = e'.descendants.map tag := by
  have below (e : Element) : (e.redact r inGroup).descendants.map tag = e.descendants.map tag :=
    map_tag_elementsBelowAll_redactAll e.children
  rw [← below e, h, below e']

/-- The elements of a name below have the same values of an attribute. -/
theorem attributesBelow (h : SameUpTo r inGroup e e') (name key : Text) :
    (e.descendants.filter fun c => c.name == name).filterMap (·.attribute? key) =
      (e'.descendants.filter fun c => c.name == name).filterMap (·.attribute? key) := by
  have byTag (e : Element) : (e.descendants.filter fun c => c.name == name).filterMap (·.attribute? key) =
      (e.descendants.map tag).filterMap fun t => if t.1 == name then t.2.lookup key else none := by
    rw [List.filterMap_filter, List.filterMap_map]
    rfl
  rw [byTag, h.tags, byTag]

/-- Elements of a name are kept or dropped together. -/
theorem elementsNamed {es es' : List Element} (h : List.Forall₂ (SameUpTo r inGroup) es es') (name : Text) :
    List.Forall₂ (SameUpTo r inGroup) (es.filter fun c => c.name == name) (es'.filter fun c => c.name == name) := by
  induction h with
  | nil => exact .nil
  | cons first _ ih =>
    rw [List.filter_cons, List.filter_cons, first.name]
    split
    · exact .cons first ih
    · exact ih

end SameUpTo

end Element

end SolutionGraph.Markup
