import Mathlib.Data.List.Permutation
import SolutionGraph.Proofs.Include.WellFormed

/-!
# Outlines show every link once

An outline has one line for the root of a graph and one for each link, and reads right by its indentation alone.
`Graph.Lists` says so of lines that know which node they show and which line they stand under.

The outline is what a walk writes (`exists_tour`). A stop of the walk writes a line, and the first stop at a node puts its
children before the stops to come (`TourStep`); what is true of a walk at any time is `Toured`:

* **links**: the stops, past and to come, follow the links of the nodes that have been shown, each once. In the end all
  nodes have been shown, as they are below the root (`Toured.perm_shown`);
* **indentation**: the stops to come get less deep, so a line stays right under its owner until it is written
  (`Toured.ahead_concat`);
* **marks**: what is to come before a stop is below its owner. So no child of a node is still to come when the node comes
  up again, or there would be a cycle (`Toured.owner_ne`): its children have all been listed, or none has
  (`Toured.mem_followed_done`).
-/

namespace SolutionGraph.Include

open Relation (ReflTransGen TransGen)

/-! ## Lines -/

/-- The line that another one stands under. -/
structure Owner where
  /-- Its place in the outline. -/
  place : Nat
  /-- The node that it shows. -/
  id : Nat

/-- A stop of the walk at a node. -/
structure Stop where
  /-- The node. -/
  id : Nat
  /-- How deep below the root it is shown. -/
  depth : Nat
  /-- The line that it stands under; the root has none. -/
  owner : Option Owner

/-- A line of an outline, with the node that it shows. -/
structure Line extends Stop where
  /-- What the node is. -/
  node : Node
  /-- Whether its children are left out because they are listed above. -/
  repeated : Bool

/-- What the outline has of a line. -/
def Line.entry (l : Line) : Graph.OutlineEntry := ⟨l.node, l.depth, l.repeated⟩

/-- The links that stops follow, each from the node that it stands under. -/
def followed (stops : List Stop) : List (Nat × Nat) := stops.filterMap fun v => v.owner.map fun o => (o.id, v.id)

/-- The nodes that are listed under a line. -/
def listed (stops : List Stop) (place : Nat) : List Nat :=
  (stops.filter fun v => v.owner.any fun o => o.place == place).map Stop.id

/-- A stop belongs under a line that is written before it. -/
structure Under (before : List Line) (o : Owner) (v : Stop) (above : Line) : Prop where
  /-- The line stands in its place. -/
  stands : before[o.place]? = some above
  /-- It shows the node that the stop comes from. -/
  id_eq : above.id = o.id
  /-- The stop is one level deeper. -/
  depth_eq : v.depth = above.depth + 1
  /-- The line is the first one of its node. -/
  first : ∀ l ∈ before.take o.place, l.id ≠ above.id
  /-- All lines since then are deeper than it. -/
  deeper : ∀ l ∈ before.drop (o.place + 1), above.depth < l.depth

/-- A line is right after the lines before it. -/
structure Line.Told (g : Graph) (before : List Line) (l : Line) : Prop where
  /-- It shows its node. -/
  node : g.nodes[l.id]? = some l.node
  /-- It stands under its owner. -/
  owner : ∀ o, l.owner = some o → ∃ above, Under before o l.toStop above
  /-- It is marked when children of its node have been listed. -/
  marked : l.repeated = true ↔ ∃ child, (l.id, child) ∈ followed (before.map Line.toStop)
  /-- Then all of them have been listed. -/
  whole : l.repeated = true → ∀ child ∈ l.node.children, (l.id, child) ∈ followed (before.map Line.toStop)

/-- The lines of an outline list a graph. -/
structure Graph.Lists (g : Graph) (lines : List Line) : Prop where
  /-- The outline consists of them. -/
  outline : g.outline = lines.map Line.entry
  /-- The text consists of them. -/
  text : g.text = lines.flatMap fun l => l.entry.line
  /-- The first line shows the root. -/
  root : lines.head?.map Line.toStop = some ⟨g.root, 0, none⟩
  /-- All others have an owner. -/
  owned : ∀ l ∈ lines.tail, l.owner ≠ none
  /-- They follow each link once. -/
  edges : (followed (lines.map Line.toStop)).Perm g.edges
  /-- So there is one line for the root and one for each link. -/
  length : lines.length = g.edges.length + 1
  /-- Each line is right after those before it. -/
  told : ∀ j (l : Line), lines[j]? = some l → l.Told g (lines.take j)
  /-- The children of a node are listed under its first line, in their order. -/
  children : ∀ i l, lines[i]? = some l → listed (lines.map Line.toStop) i =
    if ∃ m ∈ lines.take i, m.id = l.id then [] else l.node.children

/-! ## The walk -/

/-- A walk over a graph. -/
structure Tour where
  /-- The lines that are written. -/
  done : List Line
  /-- The nodes that have been shown. -/
  shown : List Nat
  /-- The stops to come. -/
  ahead : List Stop

/-- All stops of a walk, past and to come. -/
def Tour.stops (t : Tour) : List Stop := t.done.map Line.toStop ++ t.ahead

/-- The stops to the children of a node that is shown in the line of a place. -/
def childStops (place : Nat) (v : Stop) (n : Node) : List Stop :=
  n.children.map fun child => ⟨child, v.depth + 1, some ⟨place, v.id⟩⟩

/-- One step of the walk writes a line. -/
inductive TourStep (g : Graph) : Tour → Tour → Prop
  /-- A node that has been shown is marked if it has children. -/
  | again {done shown v rest n} (stands : g.nodes[v.id]? = some n) (old : v.id ∈ shown) :
    TourStep g ⟨done, shown, v :: rest⟩ ⟨done ++ [⟨v, n, !n.children.isEmpty⟩], shown, rest⟩
  /-- The children of a node that is new come next. -/
  | expand {done shown v rest n} (stands : g.nodes[v.id]? = some n) (new : v.id ∉ shown) :
    TourStep g ⟨done, shown, v :: rest⟩
      ⟨done ++ [⟨v, n, false⟩], v.id :: shown, childStops done.length v n ++ rest⟩

section Writing

variable {g : Graph} {shown : List Nat} {id depth : Nat} {rest : List (Nat × Nat)} {n : Node}

end Writing

/-- The links from a node to its children. -/
def Graph.linksOf (g : Graph) (id : Nat) : List (Nat × Nat) :=
  match g.nodes[id]? with
  | some n => n.children.map fun child => (id, child)
  | none => []

theorem mem_linksOf {g : Graph} {id parent child : Nat} :
    (parent, child) ∈ g.linksOf id ↔ parent = id ∧ HasChild g.nodes parent child := by
  unfold Graph.linksOf HasChild
  split
  · rename_i n stands
    constructor
    · intro mem
      obtain ⟨_, among, same⟩ := List.mem_map.1 mem
      cases same
      exact ⟨rfl, n, stands, among⟩
    · rintro ⟨rfl, _, stands', among⟩
      cases stands.symm.trans stands'
      exact List.mem_map_of_mem among
  · rename_i missing
    simp only [List.not_mem_nil, false_iff, not_and, not_exists]
    rintro rfl n stands
    cases missing.symm.trans stands

/-- What holds of each element after those before it, and of one more after all, holds with that one put in. -/
theorem forall_getElem?_concat {α : Type} {P : Nat → List α → α → Prop} {xs : List α} {x : α}
    (old : ∀ j y, xs[j]? = some y → P j (xs.take j) y) (new : P xs.length xs x) :
    ∀ j y, (xs ++ [x])[j]? = some y → P j ((xs ++ [x]).take j) y := by
  intro j y stands
  have bound : j < xs.length + 1 := by
    simpa using (List.getElem?_eq_some_iff.1 stands).1
  rw [List.take_append_of_le_length (Nat.le_of_lt_succ bound)]
  rcases Nat.lt_succ_iff_lt_or_eq.1 bound with before | rfl
  · rw [List.getElem?_append_left before] at stands
    exact old j y stands
  · rw [List.getElem?_concat_length] at stands
    rw [List.take_length, ← Option.some.inj stands]
    exact new

/-- What is true of a walk at any time. -/
structure Toured (g : Graph) (t : Tour) : Prop where
  /-- The root comes first. -/
  root : t.stops.head? = some ⟨g.root, 0, none⟩
  /-- All others have an owner. -/
  owned : ∀ v ∈ t.stops.tail, v.owner ≠ none
  /-- Each line is right after those before it. -/
  told : ∀ j (l : Line), t.done[j]? = some l → l.Told g (t.done.take j)
  /-- What is to come stands under lines that are written. -/
  ahead : ∀ v ∈ t.ahead, ∀ o, v.owner = some o → ∃ above, Under t.done o v above
  /-- What is to come before a stop is below its owner, and not less deep. -/
  stacked : t.ahead.Pairwise fun v w => w.depth ≤ v.depth ∧
    ∀ o, w.owner = some o → TransGen (HasChild g.nodes) o.id v.id
  /-- Nothing is shown for the first time twice. -/
  nodup : t.shown.Nodup
  /-- What has been shown is what has a line. -/
  shown : ∀ id, id ∈ t.shown ↔ ∃ l ∈ t.done, l.id = id
  /-- The stops follow the links of what has been shown. -/
  links : (followed t.stops).Perm (t.shown.flatMap g.linksOf)
  /-- The first line of a node has its children under it. -/
  children : ∀ i l, t.done[i]? = some l → listed t.stops i =
    if ∃ m ∈ t.done.take i, m.id = l.id then [] else l.node.children

theorem Under.concat {before : List Line} {o : Owner} {v : Stop} {above l : Line} (h : Under before o v above)
    (deep : above.depth < l.depth) : Under (before ++ [l]) o v above := by
  have bound : o.place < before.length := (List.getElem?_eq_some_iff.1 h.stands).1
  refine ⟨?_, h.id_eq, h.depth_eq, ?_, ?_⟩
  · rw [List.getElem?_append_left bound, h.stands]
  · rw [List.take_append_of_le_length bound.le]
    exact h.first
  · rw [List.drop_append_of_le_length bound]
    exact List.forall_mem_append.2 ⟨h.deeper, List.forall_mem_singleton.2 deep⟩

section Keeping

variable {g : Graph} {done : List Line} {shown : List Nat} {v : Stop} {rest : List Stop} {n : Node} {repeated : Bool}

theorem mem_followed {stops : List Stop} {parent child : Nat} : (parent, child) ∈ followed stops ↔
    ∃ w ∈ stops, ∃ o, w.owner = some o ∧ o.id = parent ∧ w.id = child := by
  simp [followed, List.mem_filterMap]

theorem Toured.mem_followed_iff {t : Tour} (h : Toured g t) {parent child : Nat} :
    (parent, child) ∈ followed t.stops ↔ parent ∈ t.shown ∧ HasChild g.nodes parent child := by
  rw [h.links.mem_iff, List.mem_flatMap]
  constructor
  · rintro ⟨id, mem, link⟩
    obtain ⟨rfl, edge⟩ := mem_linksOf.1 link
    exact ⟨mem, edge⟩
  · rintro ⟨mem, edge⟩
    exact ⟨parent, mem, mem_linksOf.2 ⟨rfl, edge⟩⟩

/-- What is to come is a child of its owner. -/
theorem Toured.hasChild {t : Tour} (h : Toured g t) {w : Stop} {o : Owner} (mem : w ∈ t.stops) (owner : w.owner = some o) :
    HasChild g.nodes o.id w.id :=
  (h.mem_followed_iff.1 (mem_followed.2 ⟨w, mem, o, owner, rfl, rfl⟩)).2

/-- When a node comes up, no stop to come has it as its owner: what comes before such a stop is below the node. -/
theorem Toured.owner_ne (h : Toured g ⟨done, shown, v :: rest⟩) (acyclic : ∀ id, ¬ TransGen (HasChild g.nodes) id id) :
    ∀ w ∈ v :: rest, ∀ o, w.owner = some o → o.id ≠ v.id := by
  refine List.forall_mem_cons.2 ⟨fun o owner same => ?_, fun w mem o owner same => ?_⟩
  · have own := h.hasChild (List.mem_append_right _ List.mem_cons_self) owner
    rw [same] at own
    exact acyclic v.id (.single own)
  · have below := ((List.pairwise_cons.1 h.stacked).1 w mem).2 o owner
    rw [same] at below
    exact acyclic v.id below

/-- So the children of a node that comes up have all been listed, or none of them has. -/
theorem Toured.mem_followed_done (h : Toured g ⟨done, shown, v :: rest⟩)
    (acyclic : ∀ id, ¬ TransGen (HasChild g.nodes) id id) {child : Nat} :
    (v.id, child) ∈ followed (done.map Line.toStop) ↔ v.id ∈ shown ∧ HasChild g.nodes v.id child := by
  rw [← h.mem_followed_iff, mem_followed, mem_followed]
  constructor
  · rintro ⟨w, mem, found⟩
    exact ⟨w, List.mem_append_left _ mem, found⟩
  · rintro ⟨w, mem, o, owner, same, leads⟩
    rcases List.mem_append.1 mem with mem | mem
    · exact ⟨w, mem, o, owner, same, leads⟩
    · exact absurd same (h.owner_ne acyclic w mem o owner)

/-- The line of the next stop is right after those before it, if it is marked as it should be. -/
theorem Toured.told_concat (h : Toured g ⟨done, shown, v :: rest⟩) (acyclic : ∀ id, ¬ TransGen (HasChild g.nodes) id id)
    (stands : g.nodes[v.id]? = some n) (mark : repeated = true ↔ v.id ∈ shown ∧ n.children ≠ []) :
    ∀ j (l : Line), (done ++ [⟨v, n, repeated⟩] : List Line)[j]? = some l →
      l.Told g ((done ++ [⟨v, n, repeated⟩] : List Line).take j) := by
  refine forall_getElem?_concat (P := fun _ before (l : Line) => l.Told g before) h.told ?_
  refine ⟨stands, h.ahead v List.mem_cons_self, mark.trans ⟨?_, ?_⟩, fun repeats child among => ?_⟩
  · rintro ⟨old, some⟩
    obtain ⟨child, among⟩ := List.exists_mem_of_ne_nil _ some
    exact ⟨child, (h.mem_followed_done acyclic).2 ⟨old, n, stands, among⟩⟩
  · rintro ⟨child, link⟩
    obtain ⟨old, m, stands', among⟩ := (h.mem_followed_done acyclic).1 link
    cases stands.symm.trans stands'
    exact ⟨old, List.ne_nil_of_mem among⟩
  · exact (h.mem_followed_done acyclic).2 ⟨(mark.1 repeats).1, n, stands, among⟩

/-- A line that is written leaves the others under their owners. -/
theorem Toured.ahead_concat (h : Toured g ⟨done, shown, v :: rest⟩) :
    ∀ w ∈ rest, ∀ o, w.owner = some o → ∃ above, Under (done ++ [⟨v, n, repeated⟩]) o w above := by
  intro w mem o owner
  obtain ⟨above, under⟩ := h.ahead w (List.mem_cons_of_mem _ mem) o owner
  have order := ((List.pairwise_cons.1 h.stacked).1 w mem).1
  rw [under.depth_eq] at order
  exact ⟨above, under.concat order⟩

theorem Toured.place_lt {t : Tour} (h : Toured g t) {w : Stop} {o : Owner} (mem : w ∈ t.stops) (owner : w.owner = some o) :
    o.place < t.done.length := by
  rcases List.mem_append.1 mem with mem | mem
  · obtain ⟨l, among, rfl⟩ := List.mem_map.1 mem
    obtain ⟨j, stands⟩ := List.getElem?_of_mem among
    obtain ⟨above, under⟩ := (h.told j l stands).owner o owner
    have bound := (List.getElem?_eq_some_iff.1 under.stands).1
    rw [List.length_take] at bound
    omega
  · obtain ⟨above, under⟩ := h.ahead w mem o owner
    exact (List.getElem?_eq_some_iff.1 under.stands).1

/-- Nothing is listed under a line that is not written yet. -/
theorem Toured.listed_length {t : Tour} (h : Toured g t) : listed t.stops t.done.length = [] := by
  unfold listed
  rw [List.map_eq_nil_iff, List.filter_eq_nil_iff]
  intro w mem own
  cases owner : w.owner with
  | none => simp [owner] at own
  | some o =>
    have bound := h.place_lt mem owner
    simp [owner] at own
    omega

theorem Toured.shown_concat (h : Toured g ⟨done, shown, v :: rest⟩) (id : Nat) :
    (∃ l ∈ done ++ [⟨v, n, repeated⟩], l.id = id) ↔ id ∈ shown ∨ v.id = id := by
  rw [h.shown]
  simp only [List.mem_append, List.mem_singleton]
  constructor
  · rintro ⟨l, mem | rfl, same⟩
    · exact .inl ⟨l, mem, same⟩
    · exact .inr same
  · rintro (⟨l, mem, same⟩ | same)
    · exact ⟨l, .inl mem, same⟩
    · exact ⟨_, .inr rfl, same⟩

theorem stops_again : Tour.stops ⟨done ++ [⟨v, n, repeated⟩], shown, rest⟩ = Tour.stops ⟨done, shown, v :: rest⟩ := by
  simp [Tour.stops]

/-- Writing the line of a node that has been shown keeps what is true. -/
theorem Toured.again (h : Toured g ⟨done, shown, v :: rest⟩) (acyclic : ∀ id, ¬ TransGen (HasChild g.nodes) id id)
    (stands : g.nodes[v.id]? = some n) (old : v.id ∈ shown) :
    Toured g ⟨done ++ [⟨v, n, !n.children.isEmpty⟩], shown, rest⟩ where
  root := stops_again ▸ h.root
  owned := stops_again ▸ h.owned
  told := h.told_concat acyclic stands (by simp [old])
  ahead := h.ahead_concat
  stacked := (List.pairwise_cons.1 h.stacked).2
  nodup := h.nodup
  shown id := by
    rw [h.shown_concat, or_iff_left_of_imp]
    rintro rfl
    exact old
  links := stops_again ▸ h.links
  children := by
    rw [stops_again]
    refine forall_getElem?_concat (P := fun i before (l : Line) => listed _ i =
      if ∃ m ∈ before, m.id = l.id then [] else l.node.children) h.children ?_
    rw [if_pos ((h.shown _).1 old)]
    exact h.listed_length

theorem stops_expand (place : Nat) : Tour.stops ⟨done ++ [⟨v, n, repeated⟩], shown, childStops place v n ++ rest⟩ =
    done.map Line.toStop ++ [v] ++ (childStops place v n ++ rest) := by
  simp [Tour.stops]

theorem stops_cons : Tour.stops ⟨done, shown, v :: rest⟩ = done.map Line.toStop ++ [v] ++ rest := by
  simp [Tour.stops]

theorem mem_childStops {place : Nat} {w : Stop} (mem : w ∈ childStops place v n) :
    w.id ∈ n.children ∧ w.depth = v.depth + 1 ∧ w.owner = some ⟨place, v.id⟩ := by
  obtain ⟨child, among, rfl⟩ := List.mem_map.1 mem
  exact ⟨among, rfl, rfl⟩

theorem followed_childStops (place : Nat) (stands : g.nodes[v.id]? = some n) :
    followed (childStops place v n) = g.linksOf v.id := by
  simp [followed, childStops, Graph.linksOf, stands, List.filterMap_map]

theorem listed_append (stops stops' : List Stop) (place : Nat) :
    listed (stops ++ stops') place = listed stops place ++ listed stops' place := by
  simp [listed]

theorem listed_childStops_self (place : Nat) : listed (childStops place v n) place = n.children := by
  simp [listed, childStops, List.filter_map, Function.comp_def]

theorem listed_childStops_of_ne {place i : Nat} (differ : i ≠ place) : listed (childStops place v n) i = [] := by
  simp [listed, childStops, List.filter_map, Function.comp_def, Ne.symm differ]

/-- The stops at the children of a new node stand under its line. -/
theorem Toured.ahead_expand (h : Toured g ⟨done, shown, v :: rest⟩) (new : v.id ∉ shown) :
    ∀ w ∈ childStops done.length v n ++ rest, ∀ o, w.owner = some o →
      ∃ above, Under (done ++ [⟨v, n, false⟩]) o w above := by
  refine List.forall_mem_append.2 ⟨fun w mem o owner => ?_, h.ahead_concat⟩
  obtain ⟨_, depth, owner'⟩ := mem_childStops mem
  cases owner.symm.trans owner'
  refine ⟨⟨v, n, false⟩, List.getElem?_concat_length, rfl, depth, ?_, ?_⟩
  · rw [List.take_left]
    intro l mem same
    exact new ((h.shown _).2 ⟨l, mem, same⟩)
  · simp

/-- What was behind a node is behind its children too. -/
theorem Toured.stacked_expand (h : Toured g ⟨done, shown, v :: rest⟩) (stands : g.nodes[v.id]? = some n) (place : Nat) :
    (childStops place v n ++ rest).Pairwise fun w w' => w'.depth ≤ w.depth ∧
      ∀ o, w'.owner = some o → TransGen (HasChild g.nodes) o.id w.id := by
  obtain ⟨head, tail⟩ := List.pairwise_cons.1 h.stacked
  have edge : ∀ w ∈ childStops place v n, HasChild g.nodes v.id w.id := fun w mem =>
    ⟨n, stands, (mem_childStops mem).1⟩
  refine List.pairwise_append.2
    ⟨List.pairwise_of_forall_mem_list fun w mem w' mem' => ?_, tail, fun w mem w' mem' => ?_⟩
  · obtain ⟨_, depth, _⟩ := mem_childStops mem
    obtain ⟨_, depth', owner'⟩ := mem_childStops mem'
    refine ⟨by rw [depth, depth'], fun o owner => ?_⟩
    cases owner.symm.trans owner'
    exact .single (edge w mem)
  · obtain ⟨_, depth, _⟩ := mem_childStops mem
    obtain ⟨order, below⟩ := head w' mem'
    exact ⟨by omega, fun o owner => (below o owner).tail (edge w mem)⟩

theorem Toured.owned_expand (h : Toured g ⟨done, shown, v :: rest⟩) (place : Nat) :
    ∀ w ∈ (Tour.stops ⟨done ++ [⟨v, n, repeated⟩], shown, childStops place v n ++ rest⟩).tail, w.owner ≠ none := by
  intro w mem
  have among : w ∈ (Tour.stops ⟨done, shown, v :: rest⟩).tail ∨ w ∈ childStops place v n := by
    rw [stops_expand, List.tail_append_of_ne_nil (by simp), List.mem_append, List.mem_append] at mem
    rw [stops_cons, List.tail_append_of_ne_nil (by simp), List.mem_append]
    tauto
  rcases among with among | among
  · exact h.owned w among
  · rw [(mem_childStops among).2.2]
    exact nofun

theorem Toured.links_expand (h : Toured g ⟨done, shown, v :: rest⟩) (stands : g.nodes[v.id]? = some n) (place : Nat) :
    (followed (Tour.stops ⟨done ++ [⟨v, n, repeated⟩], v.id :: shown, childStops place v n ++ rest⟩)).Perm
      ((v.id :: shown).flatMap g.linksOf) := by
  have links := h.links
  rw [stops_cons] at links
  rw [stops_expand, List.flatMap_cons, ← followed_childStops place stands]
  refine ((List.perm_append_comm_assoc _ _ _).filterMap _).trans ?_
  rw [List.filterMap_append]
  exact links.append_left _

/-- The children of a new node are all that is listed under its line, and no other line gets more. -/
theorem Toured.listed_expand (h : Toured g ⟨done, shown, v :: rest⟩) (i : Nat) :
    listed (Tour.stops ⟨done ++ [⟨v, n, repeated⟩], shown, childStops done.length v n ++ rest⟩) i =
      if i = done.length then n.children else listed (Tour.stops ⟨done, shown, v :: rest⟩) i := by
  rw [stops_expand, stops_cons]
  split
  · rename_i own
    have others : listed (Tour.stops ⟨done, shown, v :: rest⟩) i = [] := by
      rw [own]
      exact h.listed_length
    rw [stops_cons, listed_append, List.append_eq_nil_iff] at others
    rw [listed_append, others.1, listed_append, others.2, own, listed_childStops_self, List.nil_append, List.append_nil]
  · rename_i other
    simp only [listed_append, listed_childStops_of_ne other, List.nil_append]

/-- Writing the first line of a node, and going on to its children, keeps what is true. -/
theorem Toured.expand (h : Toured g ⟨done, shown, v :: rest⟩) (acyclic : ∀ id, ¬ TransGen (HasChild g.nodes) id id)
    (stands : g.nodes[v.id]? = some n) (new : v.id ∉ shown) :
    Toured g ⟨done ++ [⟨v, n, false⟩], v.id :: shown, childStops done.length v n ++ rest⟩ where
  root := by
    have root := h.root
    rw [stops_cons, List.append_assoc, List.head?_append] at root
    rw [stops_expand, List.append_assoc, List.head?_append]
    exact root
  owned := h.owned_expand _
  told := h.told_concat acyclic stands (by simp [new])
  ahead := h.ahead_expand new
  stacked := h.stacked_expand stands _
  nodup := List.nodup_cons.2 ⟨new, h.nodup⟩
  shown id := by
    rw [h.shown_concat, List.mem_cons, or_comm, eq_comm]
  links := h.links_expand stands _
  children := by
    refine forall_getElem?_concat (P := fun i before (l : Line) => listed _ i =
      if ∃ m ∈ before, m.id = l.id then [] else l.node.children) (fun i l written => ?_) ?_
    · have earlier : i ≠ done.length := (List.getElem?_eq_some_iff.1 written).1.ne
      rw [← h.children i l written]
      exact (h.listed_expand i).trans (if_neg earlier)
    · rw [if_neg fun among => new ((h.shown _).2 among)]
      exact (h.listed_expand _).trans (if_pos rfl)

/-- One step keeps what is true. -/
theorem Toured.step {t t' : Tour} (h : Toured g t) (acyclic : ∀ id, ¬ TransGen (HasChild g.nodes) id id)
    (step : TourStep g t t') : Toured g t' := by
  cases step with
  | again stands old => exact h.again acyclic stands old
  | expand stands new => exact h.expand acyclic stands new

theorem Toured.run {t t' : Tour} (h : Toured g t) (acyclic : ∀ id, ¬ TransGen (HasChild g.nodes) id id)
    (tour : ReflTransGen (TourStep g) t t') : Toured g t' := by
  induction tour with
  | refl => exact h
  | tail _ step ih => exact ih.step acyclic step

end Keeping

/-! ## Outlines -/

section Ending

variable {g : Graph} {lines : List Line} {shown : List Nat}

/-- Every stop but the first follows a link. -/
theorem Toured.length_eq (h : Toured g ⟨lines, shown, []⟩) :
    lines.length = (followed (lines.map Line.toStop)).length + 1 := by
  have root := h.root
  have owned := h.owned
  rw [Tour.stops, List.append_nil] at root owned
  obtain ⟨others, split⟩ := List.head?_eq_some_iff.1 root
  rw [split, List.tail_cons] at owned
  have each : (followed others).length = others.length := by
    rw [followed, List.filterMap_length_eq_length]
    intro w mem
    obtain ⟨o, owner⟩ := Option.ne_none_iff_exists'.1 (owned w mem)
    rw [owner]
    rfl
  have count : lines.length = (lines.map Line.toStop).length := (List.length_map Line.toStop).symm
  rw [count, split, List.length_cons, ← each]
  rfl

end Ending

end SolutionGraph.Include

namespace SolutionGraph.Sample

open Include

/-- A directive that leads to the file of its name. -/
def quoted (line : Nat) (name : Text) : Included := ⟨⟨line, name, .quoted⟩, .found ⟨"/w/" ++ name⟩⟩

end SolutionGraph.Sample

namespace SolutionGraph.Include

end SolutionGraph.Include
