import Mathlib.Data.List.Induction
import Mathlib.Data.List.Nodup
import Mathlib.Logic.Relation
import SolutionGraph.OrderedMap
import SolutionGraph.Reach

/-!
# Lists without repetition, maps and walks

What projects have in common with each other is kept in lists in which nothing comes twice (`insertNew`) and in maps in
insertion order; what is reached from a project is found by a walk.

* **lists**: `mem_foldl_insertNew` and `nodup_foldl_insertNew`; what is put in again leaves the first occurrences
  (`foldl_insertNew_eraseDups`), and with those alone the same is found first (`findSome?_eraseDups`);
* **maps**: a new key goes to the end (`OrderedMap.entries_insert`, `OrderedMap.keys_ofList`), and an entry is found if no
  key comes twice (`OrderedMap.get?_eq_some`); to keep some keys only commutes with changing the map
  (`OrderedMap.modify_filter`);
* **walks**: a walk visits what is on its stack (`mem_preorder`) and what visited keys lead to (`preorder_closed`), and
  nothing else (`preorder_sound`).
-/

namespace SolutionGraph

section Lists

variable {α : Type} [BEq α] [LawfulBEq α] {xs ys : List α} {x y : α}

theorem mem_insertNew : y ∈ insertNew xs x ↔ y ∈ xs ∨ y = x := by
  unfold insertNew
  split
  · rename_i old
    have old : x ∈ xs := by simpa using old
    exact ⟨.inl, fun h => h.elim id fun e => e ▸ old⟩
  · simp

theorem nodup_insertNew (h : xs.Nodup) : (insertNew xs x).Nodup := by
  unfold insertNew
  split
  · exact h
  · rename_i new
    have new : x ∉ xs := by simpa using new
    rw [List.nodup_append]
    refine ⟨h, List.nodup_singleton x, ?_⟩
    rintro a ha b hb rfl
    exact new (List.mem_singleton.1 hb ▸ ha)

theorem mem_foldl_insertNew : y ∈ ys.foldl insertNew xs ↔ y ∈ xs ∨ y ∈ ys := by
  induction ys generalizing xs with
  | nil => simp
  | cons z ys ih =>
    rw [List.foldl_cons, ih, mem_insertNew, List.mem_cons]
    exact or_assoc

theorem eraseDups_concat : (xs ++ [x]).eraseDups = insertNew xs.eraseDups x := by
  have same : xs.eraseDups.contains x = xs.contains x := by
    rw [Bool.eq_iff_iff, List.contains_iff_mem, List.contains_iff_mem, List.mem_eraseDups]
  rw [List.eraseDups_append, insertNew, same]
  cases known : xs.contains x with
  | true => simp_all [List.removeAll]
  | false =>
    have left : [x].removeAll xs = [x] := by simp_all [List.removeAll]
    rw [left, List.eraseDups_cons]
    rfl

/-- Putting elements in one after the other keeps the first occurrence of each. -/
theorem foldl_insertNew_eraseDups : ys.foldl insertNew xs.eraseDups = (xs ++ ys).eraseDups := by
  induction ys generalizing xs with
  | nil => rw [List.foldl_nil, List.append_nil]
  | cons y ys ih => rw [List.foldl_cons, ← eraseDups_concat, ih, List.append_assoc, List.singleton_append]

theorem filter_insertNew {p : α → Bool} (kept : p x) : (insertNew xs x).filter p = insertNew (xs.filter p) x := by
  unfold insertNew
  have there : (xs.filter p).contains x = xs.contains x := by
    rw [Bool.eq_iff_iff]
    simp [List.mem_filter, kept]
  rw [there]
  split
  · rfl
  · rw [List.filter_append, List.filter_singleton, kept]
    rfl

theorem nodup_foldl_insertNew (h : xs.Nodup) : (ys.foldl insertNew xs).Nodup := by
  induction ys generalizing xs with
  | nil => exact h
  | cons z ys ih => exact ih (nodup_insertNew h)

theorem insertNew_of_mem (mem : x ∈ xs) : insertNew xs x = xs := by
  rw [insertNew, if_pos (List.contains_iff_mem.2 mem)]

theorem insertNew_of_not_mem (new : x ∉ xs) : insertNew xs x = xs ++ [x] := by
  rw [insertNew, if_neg (mt List.contains_iff_mem.1 new)]

/-- Later occurrences make no difference to what is put in. -/
theorem foldl_insertNew_of_eraseDups : ys.eraseDups.foldl insertNew xs = ys.foldl insertNew xs := by
  induction ys using List.reverseRecOn with
  | nil => rfl
  | append_singleton ys y ih =>
    rw [eraseDups_concat, List.foldl_append, ← ih]
    by_cases mem : y ∈ ys.eraseDups
    · rw [insertNew_of_mem mem]
      exact (insertNew_of_mem (mem_foldl_insertNew.2 (.inr mem))).symm
    · rw [insertNew_of_not_mem mem, List.foldl_append]

theorem eraseDups_append_eraseDups {zs : List α} : (xs ++ (ys.eraseDups ++ zs)).eraseDups = (xs ++ (ys ++ zs)).eraseDups := by
  rw [← foldl_insertNew_eraseDups, ← foldl_insertNew_eraseDups, List.foldl_append, List.foldl_append,
    foldl_insertNew_of_eraseDups]

/-- Nor do they to what is found first. -/
theorem findSome?_eraseDups {β : Type} (f : α → Option β) : xs.eraseDups.findSome? f = xs.findSome? f := by
  induction xs using List.reverseRecOn with
  | nil => rfl
  | append_singleton xs x ih =>
    rw [eraseDups_concat, List.findSome?_append, ← ih]
    by_cases mem : x ∈ xs.eraseDups
    · rw [insertNew_of_mem mem]
      cases found : xs.eraseDups.findSome? f with
      | some y => rfl
      | none => simp [List.findSome?_eq_none_iff.1 found x mem]
    · rw [insertNew_of_not_mem mem, List.findSome?_append]

end Lists

section Apart

variable {α : Type} [BEq α] {xs ys : List α}

theorem mem_of_mem_foldl_insertNew {x : α} (mem : x ∈ ys.foldl insertNew xs) : x ∈ xs ∨ x ∈ ys := by
  induction ys generalizing xs with
  | nil => exact .inl mem
  | cons y ys ih =>
    obtain mem | mem := ih mem
    · unfold insertNew at mem
      split at mem
      · exact .inl mem
      · exact (List.mem_append.1 mem).imp_right fun own => List.mem_cons.2 (.inl (List.mem_singleton.1 own))
    · exact .inr (List.mem_cons_of_mem y mem)

/-- What is put into a list goes to its end, the first occurrence of each new element. -/
theorem foldl_insertNew : ys.foldl insertNew xs = xs ++ (ys.filter fun y => !xs.contains y).eraseDups := by
  induction ys generalizing xs with
  | nil => exact (List.append_nil xs).symm
  | cons y ys ih =>
    cases known : xs.contains y with
    | true =>
      rw [List.foldl_cons, insertNew, if_pos known, ih, List.filter_cons_of_neg (by simpa using known)]
    | false =>
      have later : ys.filter (fun z => !(xs ++ [y]).contains z) =
          (ys.filter fun z => !xs.contains z).filter fun z => !z == y := by
        rw [List.filter_filter]
        refine List.filter_congr fun z _ => ?_
        simp [List.contains_eq_any_beq, Bool.and_comm]
      rw [List.foldl_cons, insertNew, known, if_neg Bool.false_ne_true, ih, later,
        List.filter_cons_of_pos (by simp [known]), List.eraseDups_cons, List.append_assoc, List.singleton_append]

theorem foldl_insertNew_nil : ys.foldl insertNew [] = ys.eraseDups := by
  have all : (ys.filter fun y => !([] : List α).contains y) = ys := List.filter_eq_self.2 fun _ _ => rfl
  rw [foldl_insertNew, List.nil_append, all]

/-- Whatever is put in, no two elements of the list are the same. -/
theorem pairwise_foldl_insertNew (apart : xs.Pairwise fun a b => (b == a) = false) :
    (ys.foldl insertNew xs).Pairwise fun a b => (b == a) = false := by
  induction ys generalizing xs with
  | nil => exact apart
  | cons y ys ih =>
    refine ih ?_
    unfold insertNew
    split
    · exact apart
    · rename_i new
      refine List.pairwise_append.2 ⟨apart, List.pairwise_singleton _ _, fun a mem b own => ?_⟩
      obtain rfl := List.mem_singleton.1 own
      simp only [List.contains_eq_any_beq, Bool.not_eq_true, List.any_eq_false] at new
      exact new a mem

/-- In such a list an element is found by any that is the same. -/
theorem find?_eq_some_of_pairwise [EquivBEq α] {x y : α} (apart : xs.Pairwise fun a b => (b == a) = false) (mem : x ∈ xs)
    (same : x == y) : xs.find? (· == y) = some x := by
  induction xs with
  | nil => cases mem
  | cons z xs ih =>
    rw [List.pairwise_cons] at apart
    obtain rfl | mem := List.mem_cons.1 mem
    · exact List.find?_cons_of_pos same
    · have other : ¬ z == y := by
        intro also
        have both : x == z := BEq.trans same (BEq.symm also)
        rw [apart.1 x mem] at both
        cases both
      rw [List.find?_cons_of_neg (p := (· == y)) other, ih apart.2 mem]

end Apart

/-- Elements that differ from each other and from the list are all put in. -/
theorem foldl_insertNew_of_pairwise {α : Type} [BEq α] {xs ys : List α} (apart : ys.Pairwise fun a b => (b == a) = false)
    (new : ∀ y ∈ ys, xs.contains y = false) : ys.foldl insertNew xs = xs ++ ys := by
  induction ys generalizing xs with
  | nil => rw [List.foldl_nil, List.append_nil]
  | cons y ys ih =>
    rw [List.pairwise_cons] at apart
    rw [List.forall_mem_cons] at new
    have here : insertNew xs y = xs ++ [y] := by rw [insertNew, new.1, if_neg Bool.false_ne_true]
    have later : ∀ z ∈ ys, (xs ++ [y]).contains z = false := by
      intro z mem
      simp [new.2 z mem, apart.1 z mem]
    rw [List.foldl_cons, here, ih apart.2 later, List.append_assoc, List.singleton_append]

namespace OrderedMap

variable {α β : Type} [BEq α] [LawfulBEq α] {m : OrderedMap α β} {k : α} {v : β}

theorem contains_iff : m.contains k ↔ k ∈ m.keys := by
  simp [contains, keys]

theorem entries_insert (new : k ∉ m.keys) : (m.insert k v).entries = m.entries ++ [(k, v)] := by
  rw [insert, if_neg]
  rw [contains_iff]
  exact new

theorem mem_entries_of_get?_eq_some (h : m.get? k = some v) : (k, v) ∈ m.entries := by
  obtain ⟨e, found, rfl⟩ := Option.map_eq_some_iff.1 h
  have same : e.1 = k := by simpa using List.find?_some found
  exact same ▸ List.mem_of_find?_eq_some found

theorem mem_keys_of_get?_eq_some (h : m.get? k = some v) : k ∈ m.keys :=
  List.mem_map_of_mem (mem_entries_of_get?_eq_some h)

theorem get?_eq_none_iff : m.get? k = none ↔ k ∉ m.keys := by
  rw [get?, Option.map_eq_none_iff, List.find?_eq_none, keys, List.mem_map]
  constructor
  · rintro none ⟨e, mem, rfl⟩
    exact none e mem (beq_self_eq_true e.1)
  · intro none e mem same
    exact none ⟨e, mem, eq_of_beq same⟩

theorem get?_eq_some (nodup : m.keys.Nodup) (mem : (k, v) ∈ m.entries) : m.get? k = some v := by
  have isSome : (m.get? k).isSome := by
    rw [get?, Option.isSome_map, List.find?_isSome]
    exact ⟨(k, v), mem, beq_self_eq_true k⟩
  obtain ⟨v', found⟩ := Option.isSome_iff_exists.1 isSome
  have same := List.inj_on_of_nodup_map nodup (mem_entries_of_get?_eq_some found) mem rfl
  rw [found, (Prod.mk.inj same).2]

theorem keys_insert (m : OrderedMap α β) (k : α) (v : β) : (m.insert k v).keys = insertNew m.keys k := by
  unfold insert insertNew
  rw [show m.keys.contains k = m.contains k by rw [Bool.eq_iff_iff, List.contains_iff_mem, contains_iff]]
  split
  · rw [keys, List.map_map, keys]
    refine List.map_congr_left fun e _ => ?_
    simp only [Function.comp]
    split <;> rfl
  · rw [keys, List.map_append]
    rfl

theorem mem_entries_insert {e : α × β} (mem : e ∈ (m.insert k v).entries) : e ∈ m.entries ∨ e = (k, v) := by
  unfold insert at mem
  split at mem
  · obtain ⟨old, stands, rfl⟩ := List.mem_map.1 mem
    split
    · rename_i same
      rw [eq_of_beq same]
      exact .inr rfl
    · exact .inl stands
  · exact (List.mem_append.1 mem).imp_right List.mem_singleton.1

theorem keys_ofList (entries : List (α × β)) : (ofList entries).keys = (entries.map Prod.fst).eraseDups := by
  have folded (m : OrderedMap α β) : (entries.foldl (fun m e => m.insert e.1 e.2) m).keys =
      (entries.map Prod.fst).foldl insertNew m.keys := by
    induction entries generalizing m with
    | nil => rfl
    | cons e entries ih => rw [List.foldl_cons, ih, keys_insert, List.map_cons, List.foldl_cons]
  rw [ofList, folded]
  exact foldl_insertNew_nil

theorem mem_of_mem_entries_ofList {entries : List (α × β)} {e : α × β} (mem : e ∈ (ofList entries).entries) :
    e ∈ entries := by
  have folded (m : OrderedMap α β) : e ∈ (entries.foldl (fun m e => m.insert e.1 e.2) m).entries →
      e ∈ m.entries ∨ e ∈ entries := by
    clear * -
    induction entries generalizing m with
    | nil => exact .inl
    | cons first entries ih =>
      intro mem
      rcases ih _ mem with mem | mem
      · exact (mem_entries_insert mem).imp_right fun same => List.mem_cons.2 (.inl same)
      · exact .inr (List.mem_cons_of_mem _ mem)
  exact (folded empty mem).resolve_left List.not_mem_nil

omit [LawfulBEq α] in
theorem get?_mapValues (f : β → β) (k : α) : (m.mapValues f).get? k = (m.get? k).map f := by
  rw [get?, mapValues, List.find?_map, Option.map_map, get?, Option.map_map]
  rfl

omit [BEq α] [LawfulBEq α] in
theorem mapValues_congr {f g : β → β} (h : ∀ e ∈ m.entries, f e.2 = g e.2) : m.mapValues f = m.mapValues g := by
  unfold mapValues
  rw [List.map_congr_left fun e mem => by rw [h e mem]]

omit [LawfulBEq α] in
theorem contains_mapValues (f : β → β) (m : OrderedMap α β) (k : α) : (m.mapValues f).contains k = m.contains k := by
  rw [contains, mapValues, List.any_map, contains]
  rfl

omit [BEq α] [LawfulBEq α] in
theorem keys_mapValues (f : β → β) (m : OrderedMap α β) : (m.mapValues f).keys = m.keys := by
  rw [keys, mapValues, List.map_map, keys]
  rfl

omit [LawfulBEq α] in
theorem insert_mapValues (f : β → β) (m : OrderedMap α β) (k : α) (v : β) :
    (m.mapValues f).insert k (f v) = (m.insert k v).mapValues f := by
  rw [insert, insert, contains_mapValues]
  split
  · rw [mapValues, mapValues, List.map_map, List.map_map]
    congr 2
    funext e
    simp only [Function.comp]
    split <;> rfl
  · rw [mapValues, mapValues, List.map_append]
    rfl

omit [LawfulBEq α] in
theorem ofList_mapValues (f : β → β) (entries : List (α × β)) :
    (ofList entries).mapValues f = ofList (entries.map fun e => (e.1, f e.2)) := by
  have onwards (m : OrderedMap α β) : (entries.foldl (fun m e => m.insert e.1 e.2) m).mapValues f =
      (entries.map fun e => (e.1, f e.2)).foldl (fun m e => m.insert e.1 e.2) (m.mapValues f) := by
    induction entries generalizing m with
    | nil => rfl
    | cons e entries ih => rw [List.foldl_cons, ih, List.map_cons, List.foldl_cons, insert_mapValues]
  exact onwards empty

/-! ### Keeping some keys -/

section Keeping

variable {p : α → Bool}

omit [BEq α] [LawfulBEq α] in
theorem mapValues_filter (m : OrderedMap α β) (f : β → β) :
    (m.filter fun k _ => p k).mapValues f = (m.mapValues f).filter fun k _ => p k := by
  rw [filter, mapValues, mapValues, filter, List.filter_map]
  rfl

theorem get?_filter (m : OrderedMap α β) (k : α) :
    (m.filter fun k _ => p k).get? k = if p k then m.get? k else none := by
  rw [get?, filter, List.find?_filter]
  split
  · rename_i kept
    rw [get?]
    congr 2
    funext e
    by_cases same : e.1 = k <;> simp [same, kept]
  · rename_i dropped
    rw [Option.map_eq_none_iff, List.find?_eq_none]
    intro e _
    by_cases same : e.1 = k <;> simp [same, dropped]

theorem contains_filter (m : OrderedMap α β) (k : α) :
    (m.filter fun k _ => p k).contains k = (p k && m.contains k) := by
  rw [contains, filter, List.any_filter, contains]
  cases kept : p k with
  | true =>
    rw [Bool.true_and]
    congr 1
    funext e
    by_cases same : e.1 = k <;> simp [same, kept]
  | false =>
    rw [Bool.false_and, List.any_eq_false]
    intro e _
    by_cases same : e.1 = k <;> simp [same, kept]

theorem insert_filter (m : OrderedMap α β) (k : α) (v : β) :
    (m.insert k v).filter (fun k _ => p k) =
      if p k then (m.filter fun k _ => p k).insert k v else m.filter fun k _ => p k := by
  have found := contains_filter (p := p) m k
  unfold insert
  rw [found]
  cases present : m.contains k with
  | true =>
    -- a key that is there keeps its place, so it is kept or dropped with its value
    have replaced : (m.entries.map fun e => if e.1 == k then (e.1, v) else e).filter (fun e => p e.1) =
        (m.entries.filter fun e => p e.1).map fun e => if e.1 == k then (e.1, v) else e := by
      rw [List.filter_map]
      congr 2
      funext e
      by_cases same : e.1 = k <;> simp [same]
    rw [if_pos rfl, filter, replaced]
    cases kept : p k with
    | true => simp [filter]
    | false =>
      have unchanged : ∀ e ∈ m.entries.filter fun e => p e.1, (if e.1 == k then (e.1, v) else e) = e := by
        intro e mem
        have passed := (List.mem_filter.1 mem).2
        have other : e.1 ≠ k := by
          rintro rfl
          simp [kept] at passed
        simp [other]
      simp [filter, List.map_congr_left unchanged]
  | false => cases kept : p k <;> simp [filter, kept]

/-- **Keeping some keys commutes with changing the map.** -/
theorem modify_filter (m : OrderedMap α β) (k : α) (start : β) (f : β → β) :
    (m.modify k start f).filter (fun k _ => p k) =
      if p k then (m.filter fun k _ => p k).modify k start f else m.filter fun k _ => p k := by
  rw [modify, insert_filter]
  split
  · rename_i kept
    rw [modify, get?_filter, if_pos kept]
  · rfl

/-- So the changes of the keys that are dropped may as well be left out. -/
theorem foldl_modify_filter {γ : Type} (keyOf : γ → α) (start : β) (f : γ → β → β) (m : OrderedMap α β) (xs : List γ) :
    (xs.foldl (fun m x => m.modify (keyOf x) start (f x)) m).filter (fun k _ => p k) =
      (xs.filter fun x => p (keyOf x)).foldl (fun m x => m.modify (keyOf x) start (f x)) (m.filter fun k _ => p k) := by
  induction xs generalizing m with
  | nil => rfl
  | cons x rest ih =>
    rw [List.foldl_cons, ih, modify_filter]
    cases kept : p (keyOf x) <;> simp [kept]

end Keeping

end OrderedMap

section Walks

variable {α : Type} [DecidableEq α] {next : α → List α} {keys seen stack : List α} {x y : α}

theorem mem_preorder (h : x ∈ stack) : x ∈ seen ∨ x ∈ preorder next keys seen stack := by
  fun_induction preorder next keys seen stack with
  | case1 => cases h
  | case2 seen z stack old ih =>
    rcases List.mem_cons.1 h with rfl | h
    · exact .inl old
    · exact ih h
  | case3 seen z stack new key ih =>
    rcases List.mem_cons.1 h with rfl | h
    · exact .inr List.mem_cons_self
    · have := ih (List.mem_append_right _ h)
      grind
  | case4 seen z stack new noKey ih =>
    rcases List.mem_cons.1 h with rfl | h
    · exact .inr List.mem_cons_self
    · have := ih h
      grind

/-- **A walk leaves nothing out**: what a key leads to is visited if the key is. -/
theorem preorder_closed (h : x ∈ preorder next keys seen stack) (key : x ∈ keys) (edge : y ∈ next x) :
    y ∈ seen ∨ y ∈ preorder next keys seen stack := by
  fun_induction preorder next keys seen stack with
  | case1 => cases h
  | case2 seen z stack old ih => exact ih h
  | case3 seen z stack new isKey ih =>
    rcases List.mem_cons.1 h with rfl | h
    · have visited : y ∈ x :: seen ∨ y ∈ preorder next keys (x :: seen) (next x ++ stack) :=
        mem_preorder (List.mem_append_left stack edge)
      grind
    · have := ih h
      grind
  | case4 seen z stack new noKey ih =>
    rcases List.mem_cons.1 h with rfl | h
    · exact absurd key noKey
    · have := ih h
      grind

/-- One key leads to another one. -/
def Follows (next : α → List α) (keys : List α) (x y : α) : Prop := x ∈ keys ∧ y ∈ next x

omit [DecidableEq α] in
/-- The order of what a key leads to does not matter. -/
theorem follows_reverse (next : α → List α) (keys : List α) :
    Follows (fun x => (next x).reverse) keys = Follows next keys := by
  funext x y
  simp only [Follows, List.mem_reverse]

/-- **A walk visits nothing else** than what was not seen and is reached from its stack. -/
theorem preorder_sound (h : x ∈ preorder next keys seen stack) :
    x ∉ seen ∧ ∃ y ∈ stack, Relation.ReflTransGen (Follows next keys) y x := by
  fun_induction preorder next keys seen stack with
  | case1 => cases h
  | case2 seen z stack old ih =>
    obtain ⟨unseen, y, mem, reached⟩ := ih h
    exact ⟨unseen, y, List.mem_cons_of_mem _ mem, reached⟩
  | case3 seen z stack new key ih =>
    rcases List.mem_cons.1 h with rfl | h
    · exact ⟨new, x, List.mem_cons_self, .refl⟩
    · obtain ⟨unseen, y, mem, reached⟩ := ih h
      refine ⟨fun old => unseen (List.mem_cons_of_mem _ old), ?_⟩
      rcases List.mem_append.1 mem with edge | mem
      · exact ⟨z, List.mem_cons_self, reached.head ⟨key, edge⟩⟩
      · exact ⟨y, List.mem_cons_of_mem _ mem, reached⟩
  | case4 seen z stack new noKey ih =>
    rcases List.mem_cons.1 h with rfl | h
    · exact ⟨new, x, List.mem_cons_self, .refl⟩
    · obtain ⟨unseen, y, mem, reached⟩ := ih h
      exact ⟨fun old => unseen (List.mem_cons_of_mem _ old), y, List.mem_cons_of_mem _ mem, reached⟩

/-- A walk from a stack visits what is reached from it. -/
theorem mem_preorder_nil :
    x ∈ preorder next keys [] stack ↔ ∃ y ∈ stack, Relation.ReflTransGen (Follows next keys) y x := by
  constructor
  · exact fun h => (preorder_sound h).2
  · rintro ⟨y, mem, reached⟩
    induction reached with
    | refl => exact (mem_preorder mem).resolve_left List.not_mem_nil
    | tail _ edge ih => exact (preorder_closed ih edge.1 edge.2).resolve_left List.not_mem_nil

/-- A walk from what a key leads to visits what else is reached from the key. -/
theorem mem_preorder_next (stop : x ∉ keys → next x = []) :
    y ∈ preorder next keys [x] (next x) ↔ y ≠ x ∧ Relation.ReflTransGen (Follows next keys) x y := by
  constructor
  · intro h
    obtain ⟨unseen, z, edge, reached⟩ := preorder_sound h
    have key : x ∈ keys := by
      by_contra noKey
      rw [stop noKey] at edge
      cases edge
    exact ⟨fun same => unseen (List.mem_singleton.2 same), reached.head ⟨key, edge⟩⟩
  · rintro ⟨other, reached⟩
    -- what is visited is closed, together with the key itself
    have visited : y = x ∨ y ∈ preorder next keys [x] (next x) := by
      clear other
      induction reached with
      | refl => exact .inl rfl
      | tail _ edge ih =>
        rw [← List.mem_singleton]
        rcases ih with rfl | ih
        · exact mem_preorder edge.2
        · exact preorder_closed ih edge.1 edge.2
    exact visited.resolve_left other

end Walks

end SolutionGraph
