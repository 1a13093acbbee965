import Mathlib.Data.List.Perm.Basic
import Mathlib.Logic.Relation
import SolutionGraph.Proofs.OrderedMap
import SolutionGraph.Target.Order

/-!
# What runs, and in which order

A target makes others run (`Leads`): the prerequisites that it follows and the targets that hook themselves before it,
which it waits for (`Awaits`), and those that hook themselves after it. `orderFrom` works off a list of steps: what has
run, what has been seen and what is left are the state of a walk (`WalkState`), and `WalkStep` is one step of it.

* **`Sound`**: what has been seen has either run or waits for its turn, each target once; all of it is reached from the
  root, and what a seen target leads to is seen or left to visit. So in the end exactly what is reached has run
  (`runOrder_exact`);
* **`InOrder`**: a target whose turn is to come finds what it waits for seen by then (`Awaited`), and everything above
  its turn is reached from it (`Above`). So what a target waits for runs before it, unless it is still open then and
  leads back to the target (`runOrder_respects`).
-/

namespace SolutionGraph.Target

open Relation (ReflTransGen TransGen)

/-! ## What leads to what -/

/-- A target follows a prerequisite: it is enabled and names a declared target. -/
def Requires (table : Table) (t p : Text) : Prop :=
  p ∈ table.keys ∧ ∃ target, table.get? t = some target ∧ target.enabled ∧ ∃ name ∈ target.prerequisites, key name = p

/-- A declared target hooks itself to another one, by one of the given names. -/
def HooksOnto (names : Target → List Text) (table : Table) (hook anchor : Text) : Prop :=
  ∃ target, (hook, target) ∈ table.entries ∧ ∃ name ∈ names target, key name = anchor

/-- A target has to wait for another one: for a prerequisite, or for one that hooks itself before it. -/
def Awaits (table : Table) (t p : Text) : Prop := Requires table t p ∨ HooksOnto Target.beforeTargets table p t

/-- A declared target makes another one run. -/
def Leads (table : Table) (t u : Text) : Prop :=
  t ∈ table.keys ∧ (Awaits table t u ∨ HooksOnto Target.afterTargets table u t)

section Edges

variable {table : Table} {names : Target → List Text} {k t p u : Text} {target : Target}

theorem HooksOnto.declared (h : HooksOnto names table u t) : u ∈ table.keys := by
  obtain ⟨target, mem, _⟩ := h
  exact List.mem_map_of_mem mem

theorem Awaits.declared (h : Awaits table t p) : p ∈ table.keys :=
  h.elim And.left HooksOnto.declared

theorem Leads.declared (h : Leads table t u) : u ∈ table.keys :=
  h.2.elim Awaits.declared HooksOnto.declared

theorem mem_hooks {hook anchor : Text} : hook ∈ hooks names table anchor ↔ HooksOnto names table hook anchor := by
  unfold hooks HooksOnto
  rw [List.mem_flatMap]
  constructor
  · rintro ⟨⟨_, target⟩, mem, named⟩
    obtain ⟨name, chosen, rfl⟩ := List.mem_map.1 named
    obtain ⟨listed, same⟩ := List.mem_filter.1 chosen
    exact ⟨target, mem, name, listed, eq_of_beq same⟩
  · rintro ⟨target, mem, name, named, rfl⟩
    exact ⟨(hook, target), mem, List.mem_map.2 ⟨name, List.mem_filter.2 ⟨named, beq_self_eq_true _⟩, rfl⟩⟩

/-- What is visited before the turn of a target. -/
def ahead (table : Table) (k : Text) (target : Target) : List Text := followed target ++ hooksBefore table k

theorem mem_ahead (found : table.get? k = some target) (declared : u ∈ table.keys) :
    u ∈ ahead table k target ↔ Awaits table k u := by
  have required : u ∈ followed target ↔ Requires table k u := by
    simp only [followed, Requires, found, declared, Option.some.injEq, exists_eq_left', true_and]
    split <;> simp_all
  rw [ahead, List.mem_append, required, hooksBefore, mem_hooks, Awaits]

/-- The steps that a target stands for. -/
def entered (table : Table) (k : Text) (target : Target) : List OrderTask :=
  (ahead table k target).map .visit ++ .emit k :: (hooksAfter table k).map .visit

end Edges

/-! ## Steps of a walk -/

/-- The target that a step is about. -/
def OrderTask.subject : OrderTask → Text
  | .visit k => k
  | .emit k => k

/-- The target whose turn a step is. -/
def OrderTask.turn? : OrderTask → Option Text
  | .visit _ => none
  | .emit k => some k

/-- How far a walk is: what has run, what has been seen, and the steps that are left. -/
structure WalkState where
  done : List Text
  seen : List Text
  tasks : List OrderTask

namespace WalkState

/-- The targets that have been seen, and whose turn is to come. -/
def opened (s : WalkState) : List Text := s.tasks.filterMap OrderTask.turn?

/-- A target has been seen, or is left to visit. -/
def Noticed (s : WalkState) (u : Text) : Prop := u ∈ s.seen ∨ .visit u ∈ s.tasks

end WalkState

/-- One step of a walk. -/
inductive WalkStep (table : Table) : WalkState → WalkState → Prop
  /-- A target runs. -/
  | emit {done seen k rest} : WalkStep table ⟨done, seen, .emit k :: rest⟩ ⟨done ++ [k], seen, rest⟩
  /-- A name that is not declared, or was seen, is passed over. -/
  | pass {done seen k rest} (known : k ∈ table.keys → k ∈ seen) :
    WalkStep table ⟨done, seen, .visit k :: rest⟩ ⟨done, seen, rest⟩
  /-- A target is entered. -/
  | enter {done seen k rest target} (found : table.get? k = some target) (new : k ∉ seen) :
    WalkStep table ⟨done, seen, .visit k :: rest⟩ ⟨done, k :: seen, entered table k target ++ rest⟩

section Walks

variable {table : Table} {root : Text}

theorem orderFrom_pass {seen : List Text} {k : Text} {rest : List OrderTask} (known : k ∈ table.keys → k ∈ seen) :
    orderFrom table seen (.visit k :: rest) = orderFrom table seen rest := by
  rw [orderFrom]
  split
  · rfl
  · rw [if_neg fun new => new.2 (known new.1)]

theorem orderFrom_enter {seen : List Text} {k : Text} {rest : List OrderTask} {target : Target}
    (found : table.get? k = some target) (new : k ∉ seen) :
    orderFrom table seen (.visit k :: rest) = orderFrom table (k :: seen) (entered table k target ++ rest) := by
  have key := OrderedMap.mem_keys_of_get?_eq_some found
  simp only [orderFrom, found, if_pos (And.intro key new), entered, ahead, List.map_append]

/-- `orderFrom` is a walk to the end. -/
theorem exists_walk_orderFrom (table : Table) (done seen : List Text) (tasks : List OrderTask) :
    ∃ seen', ReflTransGen (WalkStep table) ⟨done, seen, tasks⟩ ⟨done ++ orderFrom table seen tasks, seen', []⟩ := by
  fun_induction orderFrom table seen tasks generalizing done with
  | case1 seen => exact ⟨seen, by rw [List.append_nil]⟩
  | case2 seen k rest ih =>
    obtain ⟨seen', walk⟩ := ih (done ++ [k])
    rw [List.append_assoc] at walk
    exact ⟨seen', walk.head .emit⟩
  | case3 seen k rest missing ih =>
    obtain ⟨seen', walk⟩ := ih done
    exact ⟨seen', walk.head (.pass fun declared => absurd declared (OrderedMap.get?_eq_none_iff.1 missing))⟩
  | case4 seen k rest target found new ih =>
    obtain ⟨seen', walk⟩ := ih done
    refine ⟨seen', ReflTransGen.head (.enter found new.2) ?_⟩
    rw [entered, ahead, List.map_append]
    exact walk
  | case5 seen k rest target found old ih =>
    obtain ⟨seen', walk⟩ := ih done
    exact ⟨seen', walk.head (.pass fun declared => by_contra fun new => old ⟨declared, new⟩)⟩

theorem exists_walk_runOrder (table : Table) (root : Text) :
    ∃ seen, ReflTransGen (WalkStep table) ⟨[], [], [.visit root]⟩ ⟨runOrder table root, seen, []⟩ :=
  exists_walk_orderFrom table [] [] [.visit root]

/-- What entering a target puts on the list is reached from it. -/
theorem reaches_of_mem_entered {k : Text} {target : Target} {task : OrderTask} (found : table.get? k = some target)
    (mem : task ∈ entered table k target) (declared : task.subject ∈ table.keys) :
    ReflTransGen (Leads table) k task.subject := by
  have key := OrderedMap.mem_keys_of_get?_eq_some found
  rcases List.mem_append.1 mem with mem | mem
  · obtain ⟨u, ahead, rfl⟩ := List.mem_map.1 mem
    exact .single ⟨key, .inl ((mem_ahead found declared).1 ahead)⟩
  · rcases List.mem_cons.1 mem with rfl | mem
    · exact .refl
    · obtain ⟨u, after, rfl⟩ := List.mem_map.1 mem
      exact .single ⟨key, .inr (mem_hooks.1 after)⟩

/-- A target that the entered one leads to is visited. -/
theorem visit_mem_entered {k u : Text} {target : Target} (found : table.get? k = some target)
    (leads : Leads table k u) : .visit u ∈ entered table k target := by
  rcases leads.2 with awaits | after
  · exact List.mem_append_left _ (List.mem_map_of_mem ((mem_ahead found awaits.declared).2 awaits))
  · exact List.mem_append_right _ (List.mem_cons_of_mem _ (List.mem_map_of_mem (mem_hooks.2 after)))

theorem opened_entered (k : Text) (target : Target) (rest : List OrderTask) :
    (entered table k target ++ rest).filterMap OrderTask.turn? = k :: rest.filterMap OrderTask.turn? := by
  simp [entered, OrderTask.turn?, Function.comp_def]

theorem mem_opened {s : WalkState} {k : Text} : k ∈ s.opened ↔ .emit k ∈ s.tasks := by
  rw [WalkState.opened, List.mem_filterMap]
  constructor
  · rintro ⟨_ | _, mem, turn⟩
    · cases turn
    · cases turn
      exact mem
  · exact fun mem => ⟨_, mem, rfl⟩

/-- A declared target that is noticed stays so. -/
theorem WalkStep.noticed {s s' : WalkState} {u : Text} (step : WalkStep table s s') (declared : u ∈ table.keys)
    (h : s.Noticed u) : s'.Noticed u := by
  rcases h with seen | left
  · cases step with
    | emit => exact .inl seen
    | pass => exact .inl seen
    | enter => exact .inl (List.mem_cons_of_mem _ seen)
  · cases step with
    | emit => exact .inr ((List.mem_cons.1 left).resolve_left nofun)
    | pass known =>
      rcases List.mem_cons.1 left with same | left
      · cases same
        exact .inl (known declared)
      · exact .inr left
    | enter =>
      rcases List.mem_cons.1 left with same | left
      · cases same
        exact .inl List.mem_cons_self
      · exact .inr (List.mem_append_right _ left)

/-! ## What is visited -/

/-- What is true of a walk from a root at any time. -/
structure Sound (table : Table) (root : Text) (s : WalkState) : Prop where
  /-- Nothing is seen twice. -/
  nodup : s.seen.Nodup
  /-- What was seen has run or waits for its turn. -/
  perm : s.seen.Perm (s.done ++ s.opened)
  /-- Only declared targets are seen. -/
  declared : ∀ k ∈ s.seen, k ∈ table.keys
  /-- What was seen is reached from the root. -/
  reached : ∀ k ∈ s.seen, ReflTransGen (Leads table) root k
  /-- What is left to do is reached from the root. -/
  ahead : ∀ task ∈ s.tasks, task.subject ∈ table.keys → ReflTransGen (Leads table) root task.subject
  /-- What a seen target leads to is noticed. -/
  closed : ∀ k ∈ s.seen, ∀ u, Leads table k u → s.Noticed u
  /-- So is the root. -/
  start : root ∈ table.keys → s.Noticed root

theorem sound_start (table : Table) (root : Text) : Sound table root ⟨[], [], [.visit root]⟩ where
  nodup := .nil
  perm := .refl _
  declared := nofun
  reached := nofun
  ahead := by
    intro task mem _
    rw [List.mem_singleton.1 mem]
    exact .refl
  closed := nofun
  start _ := .inr List.mem_cons_self

/-- One step keeps a walk sound. -/
theorem Sound.step {s s' : WalkState} (h : Sound table root s) (step : WalkStep table s s') : Sound table root s' := by
  have closed : ∀ k ∈ s.seen, ∀ u, Leads table k u → s'.Noticed u := fun k mem u leads =>
    step.noticed leads.declared (h.closed k mem u leads)
  have start : root ∈ table.keys → s'.Noticed root := fun declared => step.noticed declared (h.start declared)
  cases step with
  | @emit done seen k rest =>
    refine ⟨h.nodup, ?_, h.declared, h.reached, fun task mem => h.ahead task (List.mem_cons_of_mem _ mem), closed,
      start⟩
    simpa [WalkState.opened, OrderTask.turn?] using h.perm
  | @pass done seen k rest known =>
    exact ⟨h.nodup, h.perm, h.declared, h.reached, fun task mem => h.ahead task (List.mem_cons_of_mem _ mem), closed,
      start⟩
  | @enter done seen k rest target found new =>
    have key := OrderedMap.mem_keys_of_get?_eq_some found
    have reached : ReflTransGen (Leads table) root k := h.ahead _ List.mem_cons_self key
    refine ⟨List.nodup_cons.2 ⟨new, h.nodup⟩, ?_, List.forall_mem_cons.2 ⟨key, h.declared⟩,
      List.forall_mem_cons.2 ⟨reached, h.reached⟩, ?_, List.forall_mem_cons.2 ⟨fun u leads => ?_, closed⟩, start⟩
    · -- the entered target has not run, but its turn is on the list
      rw [WalkState.opened, opened_entered]
      exact (h.perm.cons k).trans List.perm_middle.symm
    · intro task mem declared
      rcases List.mem_append.1 mem with mem | mem
      · exact reached.trans (reaches_of_mem_entered found mem declared)
      · exact h.ahead task (List.mem_cons_of_mem _ mem) declared
    · exact .inr (List.mem_append_left _ (visit_mem_entered found leads))

theorem Sound.run {s s' : WalkState} (h : Sound table root s) (walk : ReflTransGen (WalkStep table) s s') :
    Sound table root s' := by
  induction walk with
  | refl => exact h
  | tail _ step ih => exact ih.step step

/-- In the end, what was seen has run. -/
theorem Sound.perm_done {done seen : List Text} (h : Sound table root ⟨done, seen, []⟩) : seen.Perm done := by
  simpa [WalkState.opened] using h.perm

/-- **Exactly what is reached from the root runs, each target once**: its prerequisites if it is enabled, what hooks
itself before or after it, and so on. -/
theorem runOrder_exact (table : Table) (root : Text) :
    (runOrder table root).Nodup ∧
      ∀ k, k ∈ runOrder table root ↔ k ∈ table.keys ∧ ReflTransGen (Leads table) root k := by
  obtain ⟨seen, walk⟩ := exists_walk_runOrder table root
  have sound := (sound_start table root).run walk
  have perm := sound.perm_done
  refine ⟨perm.nodup_iff.1 sound.nodup, fun k => ?_⟩
  rw [← perm.mem_iff]
  constructor
  · exact fun mem => ⟨sound.declared k mem, sound.reached k mem⟩
  · rintro ⟨declared, reached⟩
    have rootDeclared : root ∈ table.keys := by
      rcases reached.cases_head with rfl | ⟨u, leads, _⟩
      · exact declared
      · exact leads.1
    clear declared
    induction reached with
    | refl => exact (sound.start rootDeclared).resolve_right List.not_mem_nil
    | tail _ leads ih => exact (sound.closed _ ih _ leads).resolve_right List.not_mem_nil

/-! ## What comes first -/

/-- What a target waits for counts as seen at its turn, if every visit above its turn is counted. -/
def Awaited (table : Table) (seen : Text → Prop) : List OrderTask → Prop
  | [] => True
  | .emit t :: rest => (∀ p, Awaits table t p → seen p) ∧ Awaited table seen rest
  | .visit k :: rest => Awaited table (fun p => p = k ∨ seen p) rest

theorem Awaited.mono {seen seen' : Text → Prop} {tasks : List OrderTask} (h : Awaited table seen tasks)
    (more : ∀ p ∈ table.keys, seen p → seen' p) : Awaited table seen' tasks := by
  induction tasks generalizing seen seen' with
  | nil => trivial
  | cons task rest ih =>
    cases task with
    | emit t => exact ⟨fun p awaits => more p awaits.declared (h.1 p awaits), ih h.2 more⟩
    | visit k => exact ih h fun p declared => Or.imp_right (more p declared)

theorem awaited_visits {seen : Text → Prop} {ks : List Text} {tasks : List OrderTask} :
    Awaited table seen (ks.map .visit ++ tasks) ↔ Awaited table (fun p => p ∈ ks ∨ seen p) tasks := by
  induction ks generalizing seen with
  | nil => simp
  | cons k ks ih =>
    rw [List.map_cons, List.cons_append, Awaited, ih]
    have same : (fun p => p ∈ ks ∨ p = k ∨ seen p) = fun p => p ∈ k :: ks ∨ seen p := by
      funext p
      rw [List.mem_cons, eq_iff_iff, or_left_comm, or_assoc]
    rw [same]

/-- One step is reached from another one below it, if that is the turn of a target. -/
def Above (table : Table) (task below : OrderTask) : Prop :=
  ∀ p, below = .emit p → task.subject ∈ table.keys → ReflTransGen (Leads table) p task.subject

/-- What is true of the order of a walk at any time. -/
structure InOrder (table : Table) (s : WalkState) : Prop where
  /-- A target finds what it waits for seen at its turn. -/
  awaited : Awaited table (· ∈ s.seen) s.tasks
  /-- What is above the turn of a target is reached from it. -/
  nested : s.tasks.Pairwise (Above table)
  /-- What a target had to wait for has run before it, or leads to it. -/
  ordered : ∀ t ∈ s.done, ∀ p, Awaits table t p → [p, t].Sublist s.done ∨ ReflTransGen (Leads table) p t

theorem inOrder_start (table : Table) (root : Text) : InOrder table ⟨[], [], [.visit root]⟩ where
  awaited := trivial
  nested := List.pairwise_singleton _ _
  ordered := nofun

/-- The turn of a target: what it waits for was seen, so it has run, or its own turn is further down. -/
theorem InOrder.turn {done seen : List Text} {k : Text} {rest : List OrderTask} {p : Text}
    (h : InOrder table ⟨done, seen, .emit k :: rest⟩) (sound : Sound table root ⟨done, seen, .emit k :: rest⟩)
    (awaits : Awaits table k p) : p ∈ done ∨ ReflTransGen (Leads table) p k := by
  have seenBefore : p ∈ seen := h.awaited.1 p awaits
  rcases List.mem_append.1 (sound.perm.mem_iff.1 seenBefore) with old | opened
  · exact .inl old
  · right
    have declared : k ∈ table.keys := by
      apply sound.declared
      rw [sound.perm.mem_iff]
      exact List.mem_append_right _ (mem_opened.2 List.mem_cons_self)
    rcases List.mem_cons.1 (mem_opened.1 opened) with same | below
    · cases same
      exact .refl
    · -- its turn is below this one, which is therefore reached from it
      exact (List.pairwise_cons.1 h.nested).1 _ below p rfl declared

/-- Entering a target keeps what is above a turn reached from it. -/
theorem nested_entered {k : Text} {target : Target} {rest : List OrderTask} (found : table.get? k = some target)
    (h : (OrderTask.visit k :: rest).Pairwise (Above table)) :
    (entered table k target ++ rest).Pairwise (Above table) := by
  obtain ⟨outer, nested⟩ := List.pairwise_cons.1 h
  -- visits are above each other in any way
  have visits : ∀ ks : List Text, (ks.map OrderTask.visit).Pairwise (Above table) := by
    intro ks
    rw [List.pairwise_map]
    exact List.pairwise_of_forall nofun
  rw [List.pairwise_append]
  refine ⟨?_, nested, ?_⟩
  · rw [entered, List.pairwise_append, List.pairwise_cons]
    refine ⟨visits _, ⟨?_, visits _⟩, ?_⟩
    · intro below mem p turn
      obtain ⟨u, _, rfl⟩ := List.mem_map.1 mem
      cases turn
    · intro task mem below mem' p turn declared
      rcases List.mem_cons.1 mem' with rfl | mem'
      · cases turn
        exact reaches_of_mem_entered found (List.mem_append_left _ mem) declared
      · obtain ⟨u, _, rfl⟩ := List.mem_map.1 mem'
        cases turn
  · intro task mem below mem' p turn declared
    have open_ : ReflTransGen (Leads table) p k := outer below mem' p turn (OrderedMap.mem_keys_of_get?_eq_some found)
    exact open_.trans (reaches_of_mem_entered found mem declared)

/-- One step keeps a walk in order. -/
theorem InOrder.step {s s' : WalkState} (h : InOrder table s) (sound : Sound table root s)
    (step : WalkStep table s s') : InOrder table s' := by
  cases step with
  | @emit done seen k rest =>
    refine ⟨h.awaited.2, (List.pairwise_cons.1 h.nested).2, ?_⟩
    intro t mem p awaits
    rcases List.mem_append.1 mem with old | now
    · exact (h.ordered t old p awaits).imp_left fun before => before.trans (List.sublist_append_left _ _)
    · rw [List.mem_singleton] at now
      subst now
      refine (h.turn sound awaits).imp_left fun before => ?_
      exact (List.singleton_sublist.2 before).append (List.Sublist.refl [t])
  | @pass done seen k rest known =>
    refine ⟨Awaited.mono h.awaited ?_, (List.pairwise_cons.1 h.nested).2, h.ordered⟩
    rintro p declared (rfl | old)
    · exact known declared
    · exact old
  | @enter done seen k rest target found new =>
    refine ⟨?_, nested_entered found h.nested, h.ordered⟩
    -- the visits above the new turn are what it waits for; for the turns below, the entered target counts as before
    rw [entered, List.append_assoc, awaited_visits, List.cons_append]
    refine ⟨fun p awaits => .inl ((mem_ahead found awaits.declared).2 awaits), awaited_visits.2 ?_⟩
    refine Awaited.mono h.awaited ?_
    rintro p _ (rfl | old)
    · exact .inr (.inr List.mem_cons_self)
    · exact .inr (.inr (List.mem_cons_of_mem _ old))

theorem InOrder.run {s s' : WalkState} (h : InOrder table s) (sound : Sound table root s)
    (walk : ReflTransGen (WalkStep table) s s') : InOrder table s' := by
  induction walk with
  | refl => exact h
  | tail walk step ih => exact ih.step (sound.run walk) step

/-- **A target runs after what it waits for**, its prerequisites and the targets that hook themselves before it, unless
they lie on a cycle: what it waits for runs as well, and before it, or else leads back to it. -/
theorem runOrder_respects {t p : Text} (runs : t ∈ runOrder table root) (awaits : Awaits table t p) :
    p ∈ runOrder table root ∧
      ([p, t].Sublist (runOrder table root) ∨ p = t ∨ TransGen (Leads table) p t) := by
  obtain ⟨seen, walk⟩ := exists_walk_runOrder table root
  have start := sound_start table root
  have sound := start.run walk
  have perm := sound.perm_done
  constructor
  · have seen : t ∈ seen := perm.mem_iff.2 runs
    have leads : Leads table t p := ⟨sound.declared t seen, .inl awaits⟩
    exact perm.mem_iff.1 ((sound.closed t seen p leads).resolve_right List.not_mem_nil)
  · rcases ((inOrder_start table root).run start walk).ordered t runs p awaits with before | back
    · exact .inl before
    · rcases Relation.reflTransGen_iff_eq_or_transGen.1 back with same | back
      · exact .inr (.inl same.symm)
      · exact .inr (.inr back)

end Walks

namespace Sample

/-- A target of a script, with its prerequisites and the targets that it hooks itself before and after. -/
def declare (name : Text) (prerequisites before after : List Text) : Text × Target :=
  (key name, ⟨name, prerequisites, before, after, "/w/a.proj", none, true⟩)

/-- `Pack` hooks itself after `Compile`, and has a prerequisite that waits for `Compile`. -/
def table : Table :=
  ⟨[declare "Build" ["compile"] [] [], declare "Compile" [] [] [], declare "Lint" [] ["COMPILE"] [],
    declare "Pack" ["BUILD"] [] ["Compile"]]⟩

def build : Text := "build"

def compile : Text := "compile"

def lint : Text := "lint"

def pack : Text := "pack"

theorem runOrder_table : runOrder table build = [lint, compile, pack, build] := by
  have buildFound : table.get? build = some _ := rfl
  have compileFound : table.get? compile = some _ := rfl
  have lintFound : table.get? lint = some _ := rfl
  have packFound : table.get? pack = some _ := rfl
  calc runOrder table build
    _ = orderFrom table [build] [.visit compile, .emit build] := orderFrom_enter buildFound (by decide)
    _ = orderFrom table [compile, build] [.visit lint, .emit compile, .visit pack, .emit build] :=
      orderFrom_enter compileFound (by decide)
    _ = orderFrom table [lint, compile, build] [.emit lint, .emit compile, .visit pack, .emit build] :=
      orderFrom_enter lintFound (by decide)
    _ = lint :: compile :: orderFrom table [lint, compile, build] [.visit pack, .emit build] := by
      rw [orderFrom, orderFrom]
    _ = lint :: compile :: orderFrom table [pack, lint, compile, build] [.visit build, .emit pack, .emit build] :=
      congrArg (lint :: compile :: ·) (orderFrom_enter packFound (by decide))
    _ = lint :: compile :: orderFrom table [pack, lint, compile, build] [.emit pack, .emit build] :=
      congrArg (lint :: compile :: ·) (orderFrom_pass fun _ => by decide)
    _ = [lint, compile, pack, build] := by rw [orderFrom, orderFrom, orderFrom]

end Sample

/-- In the sample, `Pack` runs before the prerequisite that it waits for, and they lie on a cycle. -/
theorem respects_sample : Sample.pack ∈ runOrder Sample.table Sample.build ∧
    Awaits Sample.table Sample.pack Sample.build ∧ Sample.build ∈ runOrder Sample.table Sample.build ∧
    ¬ [Sample.build, Sample.pack].Sublist (runOrder Sample.table Sample.build) ∧
    TransGen (Leads Sample.table) Sample.build Sample.pack := by
  have runs : Sample.pack ∈ runOrder Sample.table Sample.build := by
    rw [Sample.runOrder_table]
    decide
  have awaits : Awaits Sample.table Sample.pack Sample.build :=
    .inl ⟨by decide, _, rfl, rfl, _, List.mem_cons_self, rfl⟩
  have late : ¬ [Sample.build, Sample.pack].Sublist (runOrder Sample.table Sample.build) := by
    rw [Sample.runOrder_table]
    decide
  obtain ⟨builds, order⟩ := runOrder_respects runs awaits
  have different : Sample.build ≠ Sample.pack := by decide
  exact ⟨runs, awaits, builds, late, (order.resolve_left late).resolve_left different⟩

end SolutionGraph.Target
