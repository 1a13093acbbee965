import SolutionGraph.Dgml.Document
import SolutionGraph.Proofs.Text.Lines

/-!
# Reading a written graph back

The text of a graph is read from its start: a part that is told apart from whatever follows it (`Separable`) can be taken off,
and so can a run of such parts, if what follows the run is not taken for one more of them (`flatMap_append_inj`).

* **attributes**: characters are separable as they are escaped, so a text is told by how it is written (`escape_injective`),
  and no quote is left in it to end the attribute early (`quote_not_mem_escape`);
* **lines**: nodes and links are separable if those of their attributes that are not escaped have no quote
  (`Node.IsPlain`, `Link.IsPlain`);
* **documents**: two documents of such nodes and links with one text have the same nodes and links
  (`Document.nodes_links_of_text_eq`).
-/

namespace SolutionGraph.Dgml

/-! ## Parts of a text -/

section Parts

variable {α : Type} {P : α → Prop} {write : α → Text}

/-- What is written is told apart from what follows it. -/
def Separable (P : α → Prop) (write : α → Text) : Prop :=
  ∀ ⦃x y : α⦄, P x → P y → ∀ ⦃r s : Text⦄, write x ++ r = write y ++ s → x = y ∧ r = s

/-- **A run of separable parts** is told apart from what follows it, if that does not start like a part. -/
theorem flatMap_append_inj (h : Separable P write) {r s : Text} (ends : ∀ x t, write x ++ t ≠ r)
    (ends' : ∀ x t, write x ++ t ≠ s) : ∀ {xs ys : List α}, (∀ x ∈ xs, P x) → (∀ y ∈ ys, P y) →
      xs.flatMap write ++ r = ys.flatMap write ++ s → xs = ys ∧ r = s
  | [], [], _, _, same => ⟨rfl, same⟩
  | [], y :: ys, _, _, same => by
    rw [List.flatMap_cons, List.append_assoc] at same
    exact absurd same.symm (ends y _)
  | x :: xs, [], _, _, same => by
    rw [List.flatMap_cons, List.append_assoc] at same
    exact absurd same (ends' x _)
  | x :: xs, y :: ys, hx, hy, same => by
    rw [List.forall_mem_cons] at hx hy
    rw [List.flatMap_cons, List.flatMap_cons, List.append_assoc, List.append_assoc] at same
    obtain ⟨rfl, rest⟩ := h hx.1 hy.1 same
    obtain ⟨rfl, tails⟩ := flatMap_append_inj h ends ends' hx.2 hy.2 rest
    exact ⟨rfl, tails⟩

/-- A text without a quote is told apart from what follows it, if that starts with a quote. -/
theorem append_quote_inj {a b mark r s : Text} (clear : '"' ∉ a) (clear' : '"' ∉ b)
    (same : a ++ (mark ++ r) = b ++ (mark ++ s)) (starts : mark.head? = some '"') : a = b ∧ r = s := by
  obtain ⟨rest, rfl⟩ := List.head?_eq_some_iff.1 starts
  have cut : Text.splitOnce '"' (a ++ '"' :: (rest ++ r)) = Text.splitOnce '"' (b ++ '"' :: (rest ++ s)) :=
    congrArg _ same
  rw [Text.splitOnce_append_cons clear, Text.splitOnce_append_cons clear'] at cut
  injection cut with parts
  injection parts with before after
  exact ⟨before, List.append_cancel_left after⟩

end Parts

/-! ## Attributes -/

/-- The characters that are not written as they are. -/
def special : Text := ['<', '>', '&', '\'', '"']

theorem escapeChar_of_not_mem_special {c : Char} (plain : c ∉ special) : escapeChar c = [c] := by
  simp only [special, List.mem_cons, List.not_mem_nil, or_false, not_or] at plain
  simp only [escapeChar, plain, if_false]

theorem head?_escapeChar {c : Char} (mem : c ∈ special) : (escapeChar c).head? = some '&' := by
  have all : special.all fun c => (escapeChar c).head? == some '&' := by decide
  exact eq_of_beq (List.all_eq_true.1 all c mem)

theorem quote_not_mem_escapeChar {c : Char} (mem : c ∈ special) : '"' ∉ escapeChar c := by
  have all : special.all fun c => '"' ∉ escapeChar c := by decide
  exact of_decide_eq_true (List.all_eq_true.1 all c mem)

/-- No special character is written as the start of another. -/
theorem eq_of_prefix_escapeChar {c d : Char} (mem : c ∈ special) (mem' : d ∈ special)
    (starts : escapeChar c <+: escapeChar d) : c = d := by
  have all : special.all fun c => special.all fun d => escapeChar c <+: escapeChar d → c = d := by decide
  exact of_decide_eq_true (List.all_eq_true.1 (List.all_eq_true.1 all c mem) d mem') starts

/-- A special character is not written like one that is not. -/
theorem escapeChar_append_ne {c d : Char} (mem : c ∈ special) (plain : d ∉ special) (r s : Text) :
    escapeChar c ++ r ≠ escapeChar d ++ s := by
  intro same
  obtain ⟨entity, written⟩ := List.head?_eq_some_iff.1 (head?_escapeChar mem)
  rw [written, escapeChar_of_not_mem_special plain] at same
  injection same with heads
  subst heads
  exact plain (by decide)

theorem separable_escapeChar : Separable (fun _ => True) escapeChar := by
  intro c d _ _ r s same
  obtain rfl : c = d := by
    by_cases mem : c ∈ special <;> by_cases mem' : d ∈ special
    · have first : escapeChar d <+: escapeChar c ++ r := same ▸ List.prefix_append (escapeChar d) s
      rcases List.prefix_or_prefix_of_prefix (List.prefix_append (escapeChar c) r) first with starts | starts
      · exact eq_of_prefix_escapeChar mem mem' starts
      · exact (eq_of_prefix_escapeChar mem' mem starts).symm
    · exact absurd same (escapeChar_append_ne mem mem' r s)
    · exact absurd same.symm (escapeChar_append_ne mem' mem s r)
    · rw [escapeChar_of_not_mem_special mem, escapeChar_of_not_mem_special mem'] at same
      injection same
  exact ⟨rfl, List.append_cancel_left same⟩

/-- **Escaping loses nothing.** -/
theorem escape_injective : Function.Injective escape := by
  intro t u same
  have solid (c : Char) (rest : Text) : escapeChar c ++ rest ≠ [] := by
    unfold escapeChar
    split_ifs <;> simp
  refine (flatMap_append_inj separable_escapeChar solid solid (fun _ _ => trivial) (fun _ _ => trivial) ?_).1
  rw [List.append_nil, List.append_nil]
  exact same

theorem quote_not_mem_escape (t : Text) : '"' ∉ escape t := by
  intro mem
  obtain ⟨c, _, mem⟩ := List.mem_flatMap.1 mem
  by_cases among : c ∈ special
  · exact quote_not_mem_escapeChar among mem
  · rw [escapeChar_of_not_mem_special among, List.mem_singleton] at mem
    subst mem
    exact among (by decide)

theorem escape_append_quote_inj {t u mark r s : Text} (same : escape t ++ (mark ++ r) = escape u ++ (mark ++ s))
    (starts : mark.head? = some '"') : t = u ∧ r = s := by
  obtain ⟨texts, tails⟩ := append_quote_inj (quote_not_mem_escape t) (quote_not_mem_escape u) same starts
  exact ⟨escape_injective texts, tails⟩

/-! ## Lines -/

/-- No attribute that is not escaped has a quote. -/
structure Node.IsPlain (n : Node) : Prop where
  id : '"' ∉ n.id
  category : ∀ name ∈ n.category, '"' ∉ name

/-- No attribute has a quote. -/
structure Link.IsPlain (l : Link) : Prop where
  source : '"' ∉ l.source
  target : '"' ∉ l.target

/-- The category as it is written. -/
def categoryText (category : Option Text) : Text :=
  match category with
  | some name => " Category=\"" ++ name ++ "\""
  | none => []

theorem categoryText_some (name : Text) : categoryText (some name) = " Category=\"" ++ name ++ "\"" := rfl

theorem categoryText_none : categoryText none = [] := rfl

theorem Node.line_eq (n : Node) : n.line =
    "    <Node Id=\"" ++ n.id ++ "\" Label=\"" ++ escape n.label ++ "\"" ++ categoryText n.category ++ " Reference=\"" ++
      escape n.reference ++ "\" />\n" := rfl

theorem categoryText_append_inj {c d : Option Text} (plain : ∀ name ∈ c, '"' ∉ name) (plain' : ∀ name ∈ d, '"' ∉ name)
    {r s : Text}
    (same : categoryText c ++ ((" Reference=\"" : Text) ++ r) = categoryText d ++ ((" Reference=\"" : Text) ++ s)) :
    c = d ∧ r = s := by
  cases c <;> cases d
  · exact ⟨rfl, List.append_cancel_left same⟩
  · simp [categoryText_none, categoryText_some] at same
  · simp [categoryText_none, categoryText_some] at same
  · rename_i name name'
    simp only [categoryText_some, List.append_assoc, List.append_cancel_left_eq] at same
    obtain ⟨rfl, rest⟩ := append_quote_inj (plain name rfl) (plain' name' rfl) same (by decide)
    exact ⟨rfl, List.append_cancel_left rest⟩

theorem separable_nodeLine : Separable Node.IsPlain Node.line := by
  intro n m plain plain' r s same
  rw [Node.line_eq, Node.line_eq] at same
  simp only [List.append_assoc, List.append_cancel_left_eq] at same
  obtain ⟨ids, same⟩ := append_quote_inj plain.id plain'.id same (by decide)
  obtain ⟨labels, same⟩ := escape_append_quote_inj same (by decide)
  obtain ⟨categories, same⟩ := categoryText_append_inj plain.category plain'.category same
  obtain ⟨references, rest⟩ := escape_append_quote_inj same (by decide)
  cases n
  cases m
  simp_all

theorem separable_linkLine : Separable Link.IsPlain Link.line := by
  intro l k plain plain' r s same
  unfold Link.line at same
  simp only [List.append_assoc, List.append_cancel_left_eq] at same
  obtain ⟨sources, same⟩ := append_quote_inj plain.source plain'.source same (by decide)
  obtain ⟨targets, rest⟩ := append_quote_inj plain.target plain'.target same (by decide)
  cases l
  cases k
  simp_all

theorem nodeLine_append_ne (n : Node) (t u : Text) : n.line ++ t ≠ ("  </Nodes>\n  <Links>\n" : Text) ++ u := by
  unfold Node.line
  simp

theorem linkLine_append_ne (l : Link) (t u : Text) : l.line ++ t ≠ ("  </Links>\n" : Text) ++ u := by
  unfold Link.line
  simp

/-! ## Documents -/

/-- **A text determines the nodes and the links** of the document that it is the text of. -/
theorem Document.nodes_links_of_text_eq {d e : Document} (nodes : ∀ n ∈ d.nodes ++ e.nodes, n.IsPlain)
    (links : ∀ l ∈ d.links ++ e.links, l.IsPlain) (same : d.text = e.text) : d.nodes = e.nodes ∧ d.links = e.links := by
  rw [List.forall_mem_append] at nodes links
  unfold text at same
  simp only [List.append_assoc, List.append_cancel_left_eq] at same
  obtain ⟨nodes, same⟩ := flatMap_append_inj separable_nodeLine (nodeLine_append_ne · · _) (nodeLine_append_ne · · _)
    nodes.1 nodes.2 same
  rw [List.append_cancel_left_eq] at same
  obtain ⟨links, _⟩ := flatMap_append_inj separable_linkLine (linkLine_append_ne · · _) (linkLine_append_ne · · _)
    links.1 links.2 same
  exact ⟨nodes, links⟩

end SolutionGraph.Dgml
