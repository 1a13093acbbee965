import Mathlib.Data.List.Forall2
import Mathlib.Logic.Relation
import SolutionGraph.Proofs.Include.Growth

/-!
# What a grown graph holds

The nodes of a graph are looked at as they stand in the end. While it grows, a file that is being worked on has no node
yet, but the place of the node is known, and so is that it will have the children that are made for it; so all that is
said here is said about the finished list of nodes, the arena.

* **edges**: `HasChild` and, along several edges, `Descends`;
* **`Shows`** tells what stands in the arena for a directive, and **`StandsFor`** what stands there for a file;
* **`Settled`**: the files are finished one after the other, and each has the node that stands for it, with children that
  are leaves or had been finished before. This is kept by every rule of growing (`Grows.settled`), and it is why no walk
  over children goes on forever (`Settled.acc`);
* **`Grows.descends`**, **`Grows.accounted`**: every new node is below the file that is worked on, and it is finished or a
  leaf.
-/

namespace SolutionGraph.Include

/-! ## Edges -/

/-- One node is a child of another. -/
def HasChild (nodes : List Node) (parent child : Nat) : Prop := ∃ n, nodes[parent]? = some n ∧ child ∈ n.children

/-- One node is below another, or is the same. -/
def Descends (nodes : List Node) : Nat → Nat → Prop := Relation.ReflTransGen (HasChild nodes)

/-- A node without children is where every walk ends. -/
theorem acc_of_children_eq_nil {nodes : List Node} {id : Nat} {n : Node} (h : nodes[id]? = some n)
    (leaf : n.children = []) : Acc (fun child parent => HasChild nodes parent child) id := by
  refine ⟨_, fun child edge => ?_⟩
  obtain ⟨m, hm, mem⟩ := edge
  rw [h] at hm
  cases hm
  rw [leaf] at mem
  cases mem

/-- In two lists that are related element by element, every element on the right has its partner on the left. -/
theorem exists_of_forall₂_right {α β : Type} {R : α → β → Prop} {as : List α} {bs : List β} (h : List.Forall₂ R as bs)
    {b : β} (mem : b ∈ bs) : ∃ a ∈ as, R a b := by
  induction h with
  | nil => cases mem
  | cons related _ ih =>
    rcases List.mem_cons.1 mem with rfl | mem
    · exact ⟨_, List.mem_cons_self, related⟩
    · obtain ⟨a, ha, related⟩ := ih mem
      exact ⟨a, List.mem_cons_of_mem _ ha, related⟩

/-- The nodes of a growth stand in the arena, from place `next` on. -/
def Holds (arena : List Node) (next : Nat) (nodes : List Node) : Prop :=
  ∀ j n, nodes[j]? = some n → arena[next + j]? = some n

theorem Holds.head {arena nodes : List Node} {next : Nat} {n : Node} (h : Holds arena next (n :: nodes)) :
    arena[next]? = some n := h 0 n rfl

theorem Holds.tail {arena nodes : List Node} {next : Nat} {n : Node} (h : Holds arena next (n :: nodes)) :
    Holds arena (next + 1) nodes := by
  intro j m hm
  rw [Nat.add_right_comm]
  exact h (j + 1) m hm

theorem Holds.left {arena nodes more : List Node} {next : Nat} (h : Holds arena next (nodes ++ more)) :
    Holds arena next nodes := by
  intro j m hm
  exact h j m (by rw [List.getElem?_append_left (List.getElem?_eq_some_iff.1 hm).1, hm])

theorem Holds.right {arena nodes more : List Node} {next : Nat} (h : Holds arena next (nodes ++ more)) :
    Holds arena (next + nodes.length) more := by
  intro j m hm
  rw [Nat.add_assoc]
  exact h _ m (by rw [List.getElem?_append_right (Nat.le_add_right _ _), Nat.add_sub_cancel_left, hm])

/-! ## What stands for directives and files -/

/-- Whether a directive shows in a graph. -/
def Included.isShown (i : Included) : Bool := i.resolution != .computed

/-- What stands for a directive of the file at node `owner`: the node of the file that it leads to, or a leaf of its own.
A leaf for a file that is open refers back to the node of this file, from which `owner` descends. -/
inductive Shows (r : Reading) (arena : List Node) (finished : Finished) (owner : Nat) (i : Included) (id : Nat) : Prop
  | file {file : Path} (leads : i.resolution = .found file) (known : finished.node? (file.key r.policy) = some id)
  | back {file : Path} {target : Nat} {aim : Node} (leads : i.resolution = .found file)
    (leaf : arena[id]? = some ⟨file, .backReference target, some i.directive, []⟩)
    (targeted : arena[target]? = some aim) (isFile : aim.kind.isFile)
    (same : aim.path.key r.policy = file.key r.policy) (down : Descends arena target owner)
  | excluded {file : Path} (leads : i.resolution = .excluded file)
    (leaf : arena[id]? = some ⟨file, .excluded, some i.directive, []⟩)
  | missing {searched : Nat} (leads : i.resolution = .missing searched)
    (leaf : arena[id]? =
      some ⟨⟨i.directive.name⟩, .unresolved (missingReason searched), some i.directive, []⟩)

/-- What stands for a file: a leaf with the reason why it could not be read, or a node with a child for each directive
that shows. -/
inductive StandsFor (r : Reading) (arena : List Node) (finished : Finished) (key : Text) (id : Nat) : Prop
  | unreadable {n : Node} {cause : DiskError} (unread : r.includes? key = some (.error cause))
    (stands : arena[id]? = some n) (path : n.path.key r.policy = key)
    (kind : n.kind = .unresolved (unreadableReason cause)) (leaf : n.children = [])
  | file {n : Node} {includes : List Included} (read : r.contents key = .ok includes)
    (stands : arena[id]? = some n) (path : n.path.key r.policy = key) (kind : n.kind.isFile)
    (children : List.Forall₂ (Shows r arena finished id) (includes.filter Included.isShown) n.children)

/-- The files have been finished one after the other, each by what had been finished before. -/
inductive Settled (r : Reading) (arena : List Node) : Finished → Prop
  | nil : Settled r arena []
  | cons {finished : Finished} {key : Text} {id : Nat} (before : Settled r arena finished)
    (new : finished.node? key = none) (stands : StandsFor r arena finished key id) :
    Settled r arena ((key, id) :: finished)

section Settling

variable {r : Reading} {arena : List Node} {finished later : Finished} {key : Text} {owner id : Nat}

theorem Shows.mono {i : Included} (h : Shows r arena finished owner i id)
    (keeps : ∀ k id, finished.node? k = some id → later.node? k = some id) : Shows r arena later owner i id := by
  cases h with
  | file leads known => exact .file leads (keeps _ _ known)
  | back leads leaf targeted isFile same down => exact .back leads leaf targeted isFile same down
  | excluded leads leaf => exact .excluded leads leaf
  | missing leads leaf => exact .missing leads leaf

theorem StandsFor.mono (h : StandsFor r arena finished key id)
    (keeps : ∀ k id, finished.node? k = some id → later.node? k = some id) : StandsFor r arena later key id := by
  cases h with
  | unreadable unread stands path kind leaf => exact .unreadable unread stands path kind leaf
  | file read stands path kind children =>
    exact .file read stands path kind (children.imp fun _ _ shows => shows.mono keeps)

/-- The node of a file that has been finished stands for this file. -/
theorem Settled.standsFor (h : Settled r arena finished) (known : finished.node? key = some id) :
    StandsFor r arena finished key id := by
  induction h with
  | nil => cases known
  | cons before new stands ih =>
    rcases Finished.node?_cons_eq_some known with ⟨rfl, rfl⟩ | ⟨_, known⟩
    · exact stands.mono fun _ _ => Finished.node?_cons_of_eq_some new
    · exact (ih known).mono fun _ _ => Finished.node?_cons_of_eq_some new

/-- No walk over children goes on forever from a file that has been finished. -/
theorem Settled.acc (h : Settled r arena finished) (known : finished.node? key = some id) :
    Acc (fun child parent => HasChild arena parent child) id := by
  induction h generalizing key id with
  | nil => cases known
  | cons before new stands ih =>
    rcases Finished.node?_cons_eq_some known with ⟨rfl, rfl⟩ | ⟨_, known⟩
    · cases stands with
      | unreadable _ stands _ _ leaf => exact acc_of_children_eq_nil stands leaf
      | file _ stands _ _ children =>
        refine ⟨_, fun child edge => ?_⟩
        obtain ⟨n, hn, mem⟩ := edge
        rw [stands] at hn
        cases hn
        -- a child is a leaf, or it has been finished before
        obtain ⟨i, _, shows⟩ := exists_of_forall₂_right children mem
        cases shows with
        | file _ known => exact ih known
        | back _ leaf | excluded _ leaf | missing _ leaf => exact acc_of_children_eq_nil leaf rfl
    · exact ih known

end Settling

/-! ## Growing settles files -/

/-- The nodes of the open files stand in the arena, and the file that is worked on descends from them. -/
def Opened (r : Reading) (arena : List Node) (stack : List Frame) (owner : Nat) : Prop :=
  ∀ f ∈ stack, f.key = f.file.key r.policy ∧ Descends arena f.id owner ∧
    ∃ n, arena[f.id]? = some n ∧ n.path = f.file ∧ n.kind.isFile

theorem Opened.push {r : Reading} {arena : List Node} {stack : List Frame} {owner next : Nat} {n : Node}
    (h : Opened r arena stack owner) (stands : arena[next]? = some n) (kind : n.kind.isFile)
    (edge : HasChild arena owner next) : Opened r arena (⟨n.path.key r.policy, next, n.path⟩ :: stack) next := by
  intro f hf
  rcases List.mem_cons.1 hf with rfl | hf
  · exact ⟨rfl, .refl, n, stands, rfl, kind⟩
  · obtain ⟨key, down, node⟩ := h f hf
    exact ⟨key, down.tail edge, node⟩

theorem GrowsLeaf.shows {r : Reading} {arena : List Node} {stack : List Frame} {finished later : Finished}
    {including : Path} {i : Included} {node : Node} {warnings : List Warning} {owner id : Nat}
    (h : GrowsLeaf r stack finished including i node warnings) (opened : Opened r arena stack owner)
    (stands : arena[id]? = some node) : i.isShown ∧ Shows r arena later owner i id := by
  cases h with
  | excluded leads => exact ⟨by simp [Included.isShown, leads], .excluded leads stands⟩
  | missing leads => exact ⟨by simp [Included.isShown, leads], .missing leads stands⟩
  | back leads _ cycle =>
    obtain ⟨inner, outer, rfl, same, _⟩ := cycleTo?_eq_some cycle
    obtain ⟨key, down, n, targeted, path, kind⟩ := opened _ (List.mem_append_right inner List.mem_cons_self)
    refine ⟨by simp [Included.isShown, leads], .back leads stands targeted kind ?_ down⟩
    rw [path, ← key, same]

namespace Grows

variable {r : Reading} {arena : List Node} {stack : List Frame} {including : Path} {next : Nat} {finished : Finished}
  {includes : List Included} {g : Growth} {owner : Nat}

/-- **Growing settles the files that it finishes**, and every directive that shows has a child that stands for it. -/
theorem settled (h : Grows r stack including next finished includes g) (unfinished : Unfinished stack finished)
    (opened : Opened r arena stack owner) (holds : Holds arena next g.nodes)
    (edges : ∀ child ∈ g.children, HasChild arena owner child) (before : Settled r arena finished) :
    Settled r arena g.finished ∧
      List.Forall₂ (Shows r arena g.finished owner) (includes.filter Included.isShown) g.children := by
  induction h generalizing owner with
  | done => exact ⟨before, .nil⟩
  | computed leads _ ih =>
    obtain ⟨settled, children⟩ := ih unfinished opened holds edges before
    refine ⟨settled, ?_⟩
    rw [List.filter_cons_of_neg (by simp [Included.isShown, leads])]
    exact children
  | shared leads known rest ih =>
    obtain ⟨settled, children⟩ :=
      ih unfinished opened holds (fun c hc => edges c (List.mem_append_right _ hc)) before
    refine ⟨settled, ?_⟩
    rw [List.filter_cons_of_pos (by simp [Included.isShown, leads])]
    exact .cons (.file leads (rest.node?_eq_some unfinished known)) children
  | leaf here _ ih =>
    obtain ⟨settled, children⟩ :=
      ih unfinished opened holds.tail (fun c hc => edges c (List.mem_append_right _ hc)) before
    obtain ⟨shown, shows⟩ := here.shows opened holds.head
    refine ⟨settled, ?_⟩
    rw [List.filter_cons_of_pos shown]
    exact .cons shows children
  | @unreadable _ _ next _ _ _ _ _ _ leads new closed unread rest ih =>
    have unfinished' := unfinished.finish closed next
    obtain ⟨settled, children⟩ := ih unfinished' opened holds.tail
      (fun c hc => edges c (List.mem_append_right _ hc)) (before.cons new (.unreadable unread holds.head rfl rfl rfl))
    refine ⟨settled, ?_⟩
    rw [List.filter_cons_of_pos (by simp [Included.isShown, leads])]
    exact .cons (.file leads (rest.node?_eq_some unfinished' (Finished.node?_cons_self _ _ _))) children
  | @file _ _ next _ _ _ _ _ _ _ leads new closed read down rest ihDown ihRest =>
    have edge := edges _ List.mem_cons_self
    have stands := holds.head
    have belowUnfinished := down.unfinished (unfinished.push new)
    -- the file is worked on with its own node as the owner, whose children are those that are made for it
    obtain ⟨belowSettled, belowChildren⟩ := ihDown (unfinished.push new) (opened.push stands rfl edge) holds.tail.left
      (fun c hc => ⟨_, stands, hc⟩) before
    have unfinished' := belowUnfinished.pop.finish closed next
    obtain ⟨settled, children⟩ := ihRest unfinished' opened holds.tail.right
      (fun c hc => edges c (List.mem_append_right _ hc))
      (belowSettled.cons (belowUnfinished _ List.mem_cons_self) (.file read stands rfl rfl belowChildren))
    refine ⟨settled, ?_⟩
    rw [List.filter_cons_of_pos (by simp [Included.isShown, leads])]
    exact .cons (.file leads (rest.node?_eq_some unfinished' (Finished.node?_cons_self _ _ _))) children

/-- Every new node is below the file that is worked on. -/
theorem descends (h : Grows r stack including next finished includes g) (holds : Holds arena next g.nodes)
    (edges : ∀ child ∈ g.children, HasChild arena owner child) {id : Nat} (low : next ≤ id)
    (high : id < next + g.nodes.length) : Descends arena owner id := by
  induction h generalizing owner with
  | done => exact absurd high (Nat.not_lt.2 low)
  | computed _ _ ih => exact ih holds edges low high
  | shared _ _ _ ih => exact ih holds (fun c hc => edges c (List.mem_append_right _ hc)) low high
  | leaf _ _ ih | unreadable _ _ _ _ _ ih =>
    rcases Nat.eq_or_lt_of_le low with rfl | low
    · exact .single (edges _ List.mem_cons_self)
    · refine ih holds.tail (fun c hc => edges c (List.mem_append_right _ hc)) low ?_
      simp only [Growth.cons_nodes, List.length_append, List.length_singleton] at high
      omega
  | @file _ _ next _ _ _ _ _ below _ _ _ _ _ _ _ ihDown ihRest =>
    have edge := edges _ List.mem_cons_self
    simp only [Growth.cons_nodes, List.length_append, List.length_cons] at high
    rcases Nat.eq_or_lt_of_le low with rfl | low
    · exact .single edge
    · rcases Nat.lt_or_ge id (next + 1 + below.nodes.length) with inner | after
      · exact .head edge (ihDown holds.tail.left (fun c hc => ⟨_, holds.head, hc⟩) low inner)
      · exact ihRest holds.tail.right (fun c hc => edges c (List.mem_append_right _ hc)) after (by omega)

end Grows

/-! ## All nodes are accounted for -/

/-- A leaf that stands for one directive only. -/
def NodeKind.IsLoose : NodeKind → Prop
  | .backReference _ | .excluded => True
  | .unresolved reason => ∃ searched, reason = missingReason searched
  | _ => False

/-- A node belongs to a file that has been finished, or it is a leaf for one directive. -/
inductive Accounted (r : Reading) (finished : Finished) (id : Nat) (n : Node) : Prop
  | file (kind : n.kind = .resolved) (known : finished.node? (n.path.key r.policy) = some id)
  | unreadable {cause : DiskError} (kind : n.kind = .unresolved (unreadableReason cause))
    (known : finished.node? (n.path.key r.policy) = some id)
  | leaf (kind : n.kind.IsLoose) (children : n.children = [])

theorem Accounted.mono {r : Reading} {finished later : Finished} {id : Nat} {n : Node} (h : Accounted r finished id n)
    (keeps : ∀ k id, finished.node? k = some id → later.node? k = some id) : Accounted r later id n := by
  cases h with
  | file kind known => exact .file kind (keeps _ _ known)
  | unreadable kind known => exact .unreadable kind (keeps _ _ known)
  | leaf kind children => exact .leaf kind children

theorem GrowsLeaf.accounted {r : Reading} {stack : List Frame} {finished later : Finished} {including : Path}
    {i : Included} {node : Node} {warnings : List Warning} {id : Nat}
    (h : GrowsLeaf r stack finished including i node warnings) : Accounted r later id node := by
  cases h with
  | excluded => exact .leaf trivial rfl
  | missing => exact .leaf ⟨_, rfl⟩ rfl
  | back => exact .leaf trivial rfl

/-- Every new node is accounted for. -/
theorem Grows.accounted {r : Reading} {arena : List Node} {stack : List Frame} {including : Path} {next : Nat}
    {finished : Finished} {includes : List Included} {g : Growth} (h : Grows r stack including next finished includes g)
    (unfinished : Unfinished stack finished) (holds : Holds arena next g.nodes) {id : Nat} {n : Node} (low : next ≤ id)
    (high : id < next + g.nodes.length) (stands : arena[id]? = some n) : Accounted r g.finished id n := by
  induction h with
  | done => exact absurd high (Nat.not_lt.2 low)
  | computed _ _ ih | shared _ _ _ ih => exact ih unfinished holds low high
  | leaf here _ ih =>
    rcases Nat.eq_or_lt_of_le low with rfl | low
    · cases stands.symm.trans holds.head
      exact here.accounted
    · refine ih unfinished holds.tail low ?_
      simp only [Growth.cons_nodes, List.length_append, List.length_singleton] at high
      omega
  | @unreadable _ _ next _ _ _ _ _ _ _ _ closed _ rest ih =>
    have unfinished' := unfinished.finish closed next
    rcases Nat.eq_or_lt_of_le low with rfl | low
    · cases stands.symm.trans holds.head
      exact .unreadable rfl (rest.node?_eq_some unfinished' (Finished.node?_cons_self _ _ _))
    · refine ih unfinished' holds.tail low ?_
      simp only [Growth.cons_nodes, List.length_append, List.length_singleton] at high
      omega
  | @file _ _ next _ _ _ _ _ below _ _ new closed _ down rest ihDown ihRest =>
    have belowUnfinished := down.unfinished (unfinished.push new)
    have unfinished' := belowUnfinished.pop.finish closed next
    simp only [Growth.cons_nodes, List.length_append, List.length_cons] at high
    rcases Nat.eq_or_lt_of_le low with rfl | low
    · cases stands.symm.trans holds.head
      exact .file rfl (rest.node?_eq_some unfinished' (Finished.node?_cons_self _ _ _))
    · rcases Nat.lt_or_ge id (next + 1 + below.nodes.length) with inner | after
      · refine (ihDown (unfinished.push new) holds.tail.left low inner).mono fun k id known => ?_
        refine rest.node?_eq_some unfinished' (Finished.node?_cons_of_eq_some ?_ known)
        exact belowUnfinished _ List.mem_cons_self
      · exact ihRest unfinished' holds.tail.right after (by omega)

end SolutionGraph.Include
