/-!
# Maps in insertion order

An ordered map is a list of keys with their values. A key that is put again keeps its place and its spelling, and takes
the new value.
-/

namespace SolutionGraph

/-- A map whose entries stay in the order in which their keys first came. -/
structure OrderedMap (α β : Type) where
  /-- The entries, oldest key first. -/
  entries : List (α × β)
  deriving Repr

namespace OrderedMap

section Operations

variable {α β : Type} [BEq α]

/-- The map without entries. -/
def empty : OrderedMap α β := ⟨[]⟩

instance : Inhabited (OrderedMap α β) := ⟨empty⟩

/-- The value of a key. -/
def get? (m : OrderedMap α β) (k : α) : Option β := (m.entries.find? fun e => e.1 == k).map Prod.snd

/-- Whether a key has a value. -/
def contains (m : OrderedMap α β) (k : α) : Bool := m.entries.any fun e => e.1 == k

/-- The map with a key set to a value. -/
def insert (m : OrderedMap α β) (k : α) (v : β) : OrderedMap α β :=
  if m.contains k then ⟨m.entries.map fun e => if e.1 == k then (e.1, v) else e⟩ else ⟨m.entries ++ [(k, v)]⟩

/-- The map with the value of a key changed; a key without a value starts from `start`. -/
def modify (m : OrderedMap α β) (k : α) (start : β) (f : β → β) : OrderedMap α β :=
  m.insert k (f ((m.get? k).getD start))

/-- The map of a list of entries, put in one after the other. -/
def ofList (entries : List (α × β)) : OrderedMap α β := entries.foldl (fun m e => m.insert e.1 e.2) empty

/-- The keys in order. -/
def keys (m : OrderedMap α β) : List α := m.entries.map Prod.fst

/-- The values in order. -/
def values (m : OrderedMap α β) : List β := m.entries.map Prod.snd

/-- The entries whose key and value pass a test. -/
def filter (m : OrderedMap α β) (p : α → β → Bool) : OrderedMap α β := ⟨m.entries.filter fun e => p e.1 e.2⟩

/-- The map with every value changed. -/
def mapValues (m : OrderedMap α β) (f : β → β) : OrderedMap α β := ⟨m.entries.map fun e => (e.1, f e.2)⟩

end Operations

end OrderedMap

/-- A list with an element at its end, unless it is in the list already. -/
def insertNew {α : Type} [BEq α] (xs : List α) (x : α) : List α := if xs.contains x then xs else xs ++ [x]

end SolutionGraph
