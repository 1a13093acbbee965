import Mathlib
import SolutionGraph.Proofs.Target.Order
import SolutionGraph.Target.Cycle

/-!
# Which cycles are told

The search over prerequisites goes through the relation `Requires` in depth-first order. `searchFrom` works off a list of
steps; `SearchStep` is one step of it.

* **`Traced`**: the open targets are a path of prerequisites, the innermost first (`OnPath`), so coming back to one of
  them closes a cycle, and turning it to its smallest member leaves it one (`circuit_canonicalCycle`);
* **`Exhausted`**: as long as no cycle is told, a target that is left has no cycle below it (`Grounded`), because all of
  its prerequisites were left before it (`Accounted`).

So a cycle is told if and only if one is reached from the roots (`search_cycle_exact`).
-/

namespace SolutionGraph.Target

open Relation (ReflTransGen TransGen)

/-- A target is reached from one of the roots through prerequisites. -/
def Required (table : Table) (roots : List Text) (k : Text) : Prop := ∃ r ∈ roots, ReflTransGen (Requires table) r k

/-- A cycle of prerequisites as it is told: each target follows the next one, the first one is repeated at the end and is
the smallest, and no other one is repeated. -/
structure Circuit (table : Table) (roots cycle : List Text) : Prop where
  /-- There is at least one target before the repeated one. -/
  nonempty : 2 ≤ cycle.length
  /-- The last one is the first one. -/
  closed : cycle.getLast? = cycle.head?
  /-- The others are different. -/
  nodup : cycle.dropLast.Nodup
  /-- Each one is enabled and has the next one among its prerequisites. -/
  linked : cycle.IsChain (Requires table)
  /-- The first one is the smallest. -/
  least : ∀ first ∈ cycle.head?, ∀ k ∈ cycle, first ≤ k
  /-- All of them are reached. -/
  reached : ∀ k ∈ cycle, Required table roots k

/-! ## Turning a cycle -/

theorem smallest_mem (first : Text) (rest : List Text) : smallest first rest ∈ first :: rest := by
  induction rest generalizing first with
  | nil => exact List.mem_singleton_self first
  | cons t rest ih =>
    rw [smallest]
    split
    · exact List.mem_cons_of_mem _ (ih t)
    · rcases List.mem_cons.1 (ih first) with same | mem
      · rw [same]
        exact List.mem_cons_self
      · exact List.mem_cons_of_mem _ (List.mem_cons_of_mem _ mem)

theorem smallest_le (first : Text) (rest : List Text) : ∀ t ∈ first :: rest, smallest first rest ≤ t := by
  induction rest generalizing first with
  | nil => simp [smallest]
  | cons u rest ih =>
    intro t mem
    rw [smallest]
    split
    · rename_i smaller
      rcases List.mem_cons.1 mem with rfl | mem
      · exact (ih u u List.mem_cons_self).trans smaller.le
      · exact ih u t mem
    · rename_i larger
      rcases List.mem_cons.1 mem with rfl | mem
      · exact ih t t List.mem_cons_self
      · rcases List.mem_cons.1 mem with rfl | mem
        · exact (ih first first List.mem_cons_self).trans (not_lt.1 larger)
        · exact ih first t (List.mem_cons_of_mem _ mem)

/-- A list is cut at an element of it. -/
theorem exists_dropWhile_ne {k : Text} {ks : List Text} (mem : k ∈ ks) :
    ∃ after, ks.dropWhile (· ≠ k) = k :: after ∧ ks = ks.takeWhile (· ≠ k) ++ k :: after := by
  induction ks with
  | nil => cases mem
  | cons t ks ih =>
    by_cases same : t = k
    · subst same
      exact ⟨ks, by simp⟩
    · obtain ⟨after, cut, whole⟩ := ih ((List.mem_cons.1 mem).resolve_left (Ne.symm same))
      refine ⟨after, ?_, ?_⟩
      · rw [List.dropWhile_cons_of_pos (by simp [same]), cut]
      · rw [List.takeWhile_cons_of_pos (by simp [same]), List.cons_append, ← whole]

/-- **Turning a cycle leaves it a cycle**, now with its smallest member first. -/
theorem circuit_canonicalCycle {table : Table} {roots members : List Text} (nonempty : members ≠ [])
    (nodup : members.Nodup) (linked : Cycle.Chain (Requires table) members)
    (reached : ∀ k ∈ members, Required table roots k) : Circuit table roots (canonicalCycle members) := by
  obtain ⟨first, rest, rfl⟩ := List.exists_cons_of_ne_nil nonempty
  obtain ⟨after, cut, whole⟩ := exists_dropWhile_ne (smallest_mem first rest)
  have least := smallest_le first rest
  generalize hleast : smallest first rest = s at cut whole least
  generalize hbefore : (first :: rest).takeWhile (· ≠ s) = before at whole
  have told : canonicalCycle (first :: rest) = s :: (after ++ before ++ [s]) := by
    simp only [canonicalCycle, hleast, cut, hbefore, List.cons_append]
  -- the members from the smallest one on are the same ones, turned
  have turned : (first :: rest) ~r (s :: (after ++ before)) := by
    rw [whole]
    exact List.isRotated_append
  have mem : ∀ k, k ∈ canonicalCycle (first :: rest) → k ∈ first :: rest := by
    intro k h
    rw [turned.mem_iff]
    rw [told, List.mem_cons, List.mem_append, List.mem_singleton] at h
    rcases h with rfl | h | rfl
    · exact List.mem_cons_self
    · exact List.mem_cons_of_mem _ h
    · exact List.mem_cons_self
  refine ⟨by simp [told]; omega, ?_, ?_, ?_, ?_, fun k h => reached k (mem k h)⟩
  · rw [told, ← List.cons_append, List.getLast?_concat, List.head?_append, List.head?_cons, Option.some_or]
  · rw [told, ← List.cons_append, List.dropLast_concat]
    exact turned.nodup_iff.1 nodup
  · rw [told, ← Cycle.chain_coe_cons, ← Cycle.coe_eq_coe.2 turned]
    exact linked
  · intro _ isFirst k h
    rw [told, List.head?_cons, Option.mem_some_iff] at isFirst
    exact isFirst ▸ least k (mem k h)

/-! ## Steps of the search -/

/-- How far a search is: what has been seen, which targets are open, what is told, and the steps that are left. -/
structure SearchState where
  seen : List Text
  opened : List Text
  report : SearchReport
  tasks : List SearchTask

/-- The steps that a key stands for. -/
def tasksOf (table : Table) (k : Text) : List SearchTask := ((table.get? k).map (prerequisiteTasks table)).getD []

/-- One step of a search. -/
inductive SearchStep (table : Table) : SearchState → SearchState → Prop
  /-- The innermost target is left. -/
  | leave {seen opened report rest} :
    SearchStep table ⟨seen, opened, report, .leave :: rest⟩ ⟨seen, opened.tail, report, rest⟩
  /-- A prerequisite is not declared. -/
  | missing {seen opened report target prerequisite rest} :
    SearchStep table ⟨seen, opened, report, .missing target prerequisite :: rest⟩
      ⟨seen, opened, { report with missing := report.missing ++ [(target, prerequisite)] }, rest⟩
  /-- An open target closes a cycle, which is told if it is the first one. -/
  | close {seen opened report k rest} (old : k ∈ seen) (isOpen : k ∈ opened) :
    SearchStep table ⟨seen, opened, report, .enter k :: rest⟩
      ⟨seen, opened, { report with cycle := report.cycle.or (some (closedCycle opened k)) }, rest⟩
  /-- A target that was left is passed over. -/
  | pass {seen opened report k rest} (old : k ∈ seen) (left : k ∉ opened) :
    SearchStep table ⟨seen, opened, report, .enter k :: rest⟩ ⟨seen, opened, report, rest⟩
  /-- A new target is opened. -/
  | enter {seen opened report k rest} (new : k ∉ seen) :
    SearchStep table ⟨seen, opened, report, .enter k :: rest⟩
      ⟨k :: seen, k :: opened, report, tasksOf table k ++ .leave :: rest⟩

section Searches

variable {table : Table} {roots : List Text} {k p : Text}

/-- `searchFrom` is a search to the end. -/
theorem exists_search_searchFrom (table : Table) (seen opened : List Text) (report : SearchReport)
    (tasks : List SearchTask) :
    ∃ seen' opened', ReflTransGen (SearchStep table) ⟨seen, opened, report, tasks⟩
      ⟨seen', opened', searchFrom table seen opened report tasks, []⟩ := by
  fun_induction searchFrom table seen opened report tasks with
  | case1 seen opened report => exact ⟨seen, opened, .refl⟩
  | case2 seen opened report rest ih =>
    obtain ⟨seen', opened', search⟩ := ih
    exact ⟨seen', opened', search.head .leave⟩
  | case3 seen opened report target prerequisite rest ih =>
    obtain ⟨seen', opened', search⟩ := ih
    exact ⟨seen', opened', search.head .missing⟩
  | case4 seen opened report k rest old closed ih =>
    obtain ⟨seen', opened', search⟩ := ih
    refine ⟨seen', opened', ReflTransGen.head ?_ search⟩
    by_cases isOpen : k ∈ opened
    · rw [show closed = report.cycle.or (some (closedCycle opened k)) from if_pos isOpen]
      exact .close old isOpen
    · rw [show closed = report.cycle from if_neg isOpen]
      exact .pass old isOpen
  | case5 seen opened report k rest new declared tasks ih =>
    obtain ⟨seen', opened', search⟩ := ih
    have same : tasks = tasksOf table k := by
      unfold tasksOf
      cases found : table.get? k <;> simp [tasks, found]
    refine ⟨seen', opened', ReflTransGen.head ?_ search⟩
    rw [same]
    exact .enter new
  | case6 seen opened report k rest new undeclared ih =>
    obtain ⟨seen', opened', search⟩ := ih
    have nothing : tasksOf table k = [] := by rw [tasksOf, OrderedMap.get?_eq_none_iff.2 undeclared]; rfl
    refine ⟨seen', opened', ReflTransGen.head ?_ search⟩
    have step : SearchStep table ⟨seen, opened, report, .enter k :: rest⟩ _ := .enter new
    rw [nothing] at step
    exact step

theorem exists_search_search (table : Table) (roots : List Text) :
    ∃ seen opened, ReflTransGen (SearchStep table) ⟨[], [], ⟨none, []⟩, roots.map .enter⟩
      ⟨seen, opened, search table roots, []⟩ :=
  exists_search_searchFrom table [] [] ⟨none, []⟩ (roots.map .enter)

/-- A step that opens a target or tells a missing one, and leaves none. -/
def SearchTask.StaysInside : SearchTask → Prop
  | .leave => False
  | _ => True

theorem staysInside_of_mem_roots : ∀ task ∈ roots.map SearchTask.enter, task.StaysInside := by
  intro task mem
  obtain ⟨r, _, rfl⟩ := List.mem_map.1 mem
  trivial

theorem staysInside_of_mem_tasksOf {task : SearchTask} (mem : task ∈ tasksOf table k) : task.StaysInside := by
  unfold tasksOf at mem
  cases found : table.get? k with
  | none => simp [found] at mem
  | some t =>
    rw [found] at mem
    simp only [Option.map_some, Option.getD_some, prerequisiteTasks] at mem
    split at mem
    · obtain ⟨name, _, rfl⟩ := List.mem_map.1 mem
      split <;> trivial
    · cases mem

/-- The targets that are opened from a target are the prerequisites that it follows. -/
theorem enter_mem_tasksOf : .enter p ∈ tasksOf table k ↔ Requires table k p := by
  unfold tasksOf Requires
  cases found : table.get? k with
  | none => simp
  | some t =>
    simp only [Option.map_some, Option.getD_some, prerequisiteTasks, Option.some.injEq, exists_eq_left']
    cases t.enabled with
    | false => simp
    | true =>
      simp only [if_true, List.mem_map, true_and]
      constructor
      · rintro ⟨name, named, isEnter⟩
        split at isEnter
        · rename_i declared
          cases isEnter
          exact ⟨OrderedMap.contains_iff.1 declared, name, named, rfl⟩
        · cases isEnter
      · rintro ⟨declared, name, named, rfl⟩
        exact ⟨name, named, if_pos (OrderedMap.contains_iff.2 declared)⟩

/-! ## The open targets are a path -/

/-- The steps that are left fit the open targets: what is opened inside a target is a prerequisite of it, and every open
target is left. -/
def OnPath (table : Table) : List Text → List SearchTask → Prop
  | opened, [] => opened = []
  | opened, .leave :: rest => OnPath table opened.tail rest
  | opened, .missing _ _ :: rest => OnPath table opened rest
  | opened, .enter k :: rest => (∀ o ∈ opened.head?, Requires table o k) ∧ OnPath table opened rest

theorem onPath_append {opened : List Text} {tasks rest : List SearchTask} (inside : ∀ task ∈ tasks, task.StaysInside)
    (required : ∀ k, .enter k ∈ tasks → ∀ o ∈ opened.head?, Requires table o k) (h : OnPath table opened rest) :
    OnPath table opened (tasks ++ rest) := by
  induction tasks with
  | nil => exact h
  | cons task tasks ih =>
    have tail := ih (fun t mem => inside t (List.mem_cons_of_mem _ mem))
      fun k mem => required k (List.mem_cons_of_mem _ mem)
    cases task with
    | leave => exact absurd (inside _ List.mem_cons_self) id
    | missing => exact tail
    | enter k => exact ⟨required k List.mem_cons_self, tail⟩

/-- What is true of the open targets of a search at any time. -/
structure Traced (table : Table) (roots : List Text) (s : SearchState) : Prop where
  /-- The open targets fit the steps that are left. -/
  onPath : OnPath table s.opened s.tasks
  /-- Each one is a prerequisite of the one outside it. -/
  linked : s.opened.IsChain fun inner outer => Requires table outer inner
  /-- No target is open twice. -/
  nodup : s.opened.Nodup
  /-- What is open was seen. -/
  seen : ∀ k ∈ s.opened, k ∈ s.seen
  /-- What is open is reached from the roots. -/
  reached : ∀ k ∈ s.opened, Required table roots k
  /-- So is what is left to open. -/
  ahead : ∀ k, .enter k ∈ s.tasks → Required table roots k
  /-- What is told is a cycle. -/
  told : ∀ cycle, s.report.cycle = some cycle → Circuit table roots cycle

theorem traced_start (table : Table) (roots : List Text) :
    Traced table roots ⟨[], [], ⟨none, []⟩, roots.map .enter⟩ where
  onPath := by
    have path : OnPath table [] (roots.map .enter ++ []) := onPath_append staysInside_of_mem_roots (by simp) rfl
    rwa [List.append_nil] at path
  linked := .nil
  nodup := .nil
  seen := nofun
  reached := nofun
  ahead k mem := by
    obtain ⟨r, mem, same⟩ := List.mem_map.1 mem
    cases same
    exact ⟨_, mem, .refl⟩
  told := nofun

/-- Coming back to an open target closes a cycle. -/
theorem Traced.circuit {seen opened : List Text} {report : SearchReport} {rest : List SearchTask}
    (h : Traced table roots ⟨seen, opened, report, .enter k :: rest⟩) (isOpen : k ∈ opened) :
    Circuit table roots (closedCycle opened k) := by
  obtain ⟨after, cut, whole⟩ := exists_dropWhile_ne (List.mem_reverse.2 isOpen)
  have path : opened.reverse.IsChain (Requires table) := List.isChain_reverse.2 h.linked
  -- the path from the open target on, and the step from its innermost end back to it
  have part : (k :: after) <:+ opened.reverse := ⟨_, whole.symm⟩
  have back : ∀ o ∈ (k :: after).getLast?, Requires table o k := by
    intro o last
    apply h.onPath.1
    rw [Option.mem_def, ← List.getLast?_reverse, whole, List.getLast?_append]
    rw [Option.mem_def] at last
    rw [last, Option.some_or]
  unfold closedCycle
  rw [cut]
  refine circuit_canonicalCycle (List.cons_ne_nil _ _) (part.sublist.nodup (List.nodup_reverse.2 h.nodup)) ?_ ?_
  · rw [Cycle.chain_coe_cons, ← List.cons_append]
    refine (path.suffix part).append (List.isChain_singleton k) ?_
    intro o last first isFirst
    rw [List.head?_cons, Option.mem_some_iff] at isFirst
    exact isFirst ▸ back o last
  · exact fun t mem => h.reached t (List.mem_reverse.1 (part.subset mem))

/-- One step keeps the open targets a path. -/
theorem Traced.step {s s' : SearchState} (h : Traced table roots s) (step : SearchStep table s s') :
    Traced table roots s' := by
  cases step with
  | @leave seen opened report rest =>
    have inner : ∀ k ∈ opened.tail, k ∈ opened := fun k mem => List.mem_of_mem_tail mem
    exact ⟨h.onPath, h.linked.tail, h.nodup.tail, fun k mem => h.seen k (inner k mem),
      fun k mem => h.reached k (inner k mem), fun k mem => h.ahead k (List.mem_cons_of_mem _ mem), h.told⟩
  | missing =>
    exact ⟨h.onPath, h.linked, h.nodup, h.seen, h.reached, fun k mem => h.ahead k (List.mem_cons_of_mem _ mem), h.told⟩
  | @close seen opened report k rest old isOpen =>
    refine ⟨h.onPath.2, h.linked, h.nodup, h.seen, h.reached, fun k mem => h.ahead k (List.mem_cons_of_mem _ mem), ?_⟩
    intro cycle told
    rcases Option.or_eq_some_iff.1 told with first | ⟨_, now⟩
    · exact h.told cycle first
    · cases now
      exact h.circuit isOpen
  | pass => exact ⟨h.onPath.2, h.linked, h.nodup, h.seen, h.reached, fun k mem => h.ahead k (List.mem_cons_of_mem _ mem),
      h.told⟩
  | @enter seen opened report k rest new =>
    have reached : Required table roots k := h.ahead k List.mem_cons_self
    refine ⟨?_, ?_, ?_, ?_, List.forall_mem_cons.2 ⟨reached, h.reached⟩, ?_, h.told⟩
    · refine onPath_append (fun _ => staysInside_of_mem_tasksOf) ?_ h.onPath.2
      intro p mem o isHead
      rw [List.head?_cons, Option.mem_some_iff] at isHead
      exact isHead ▸ enter_mem_tasksOf.1 mem
    · exact h.linked.cons fun o isHead => h.onPath.1 o isHead
    · exact List.nodup_cons.2 ⟨fun isOpen => new (h.seen k isOpen), h.nodup⟩
    · exact List.forall_mem_cons.2 ⟨List.mem_cons_self, fun t mem => List.mem_cons_of_mem _ (h.seen t mem)⟩
    · intro p mem
      rcases List.mem_append.1 mem with mem | mem
      · obtain ⟨r, root, path⟩ := reached
        exact ⟨r, root, path.tail (enter_mem_tasksOf.1 mem)⟩
      · rcases List.mem_cons.1 mem with same | mem
        · cases same
        · exact h.ahead p (List.mem_cons_of_mem _ mem)

theorem Traced.run {s s' : SearchState} (h : Traced table roots s) (search : ReflTransGen (SearchStep table) s s') :
    Traced table roots s' := by
  induction search with
  | refl => exact h
  | tail _ step ih => exact ih.step step

/-! ## No cycle is missed -/

/-- Going on from a target through prerequisites comes to an end. -/
def Grounded (table : Table) (k : Text) : Prop := Acc (fun p t => Requires table t p) k

theorem Grounded.of_reaches (h : Grounded table k) (path : ReflTransGen (Requires table) k p) : Grounded table p := by
  induction path with
  | refl => exact h
  | tail _ edge ih => exact ih.inv edge

/-- A target with a cycle below it is not grounded. -/
theorem Grounded.not_transGen (h : Grounded table k) : ¬ TransGen (Requires table) k k := by
  induction h with
  | intro k _ ih =>
    intro cycle
    obtain ⟨p, edge, back⟩ := TransGen.head'_iff.1 cycle
    exact ih p edge (TransGen.tail' back edge)

/-- The prerequisites of an open target count as settled when it is left, if all that is opened before is counted. -/
def Accounted (table : Table) (settled : Text → Prop) : List Text → List SearchTask → Prop
  | _, [] => True
  | opened, .leave :: rest =>
    (∀ o ∈ opened.head?, ∀ p, Requires table o p → settled p) ∧
      Accounted table (fun p => p ∈ opened.head? ∨ settled p) opened.tail rest
  | opened, .missing _ _ :: rest => Accounted table settled opened rest
  | opened, .enter k :: rest => Accounted table (fun p => p = k ∨ settled p) opened rest

theorem Accounted.mono {settled settled' : Text → Prop} {opened : List Text} {tasks : List SearchTask}
    (h : Accounted table settled opened tasks) (more : ∀ p, settled p → settled' p) :
    Accounted table settled' opened tasks := by
  induction tasks generalizing settled settled' opened with
  | nil => trivial
  | cons task rest ih =>
    cases task with
    | leave => exact ⟨fun o isHead p edge => more p (h.1 o isHead p edge), ih h.2 fun p => Or.imp_right (more p)⟩
    | missing => exact ih h more
    | enter k => exact ih h fun p => Or.imp_right (more p)

theorem accounted_append {settled : Text → Prop} {opened : List Text} {tasks rest : List SearchTask}
    (inside : ∀ task ∈ tasks, task.StaysInside)
    (h : Accounted table (fun p => .enter p ∈ tasks ∨ settled p) opened rest) :
    Accounted table settled opened (tasks ++ rest) := by
  induction tasks generalizing settled with
  | nil => exact h.mono fun p => Or.rec (fun mem => absurd mem List.not_mem_nil) id
  | cons task tasks ih =>
    have inside' := fun t mem => inside t (List.mem_cons_of_mem task mem)
    cases task with
    | leave => exact absurd (inside _ List.mem_cons_self) id
    | missing =>
      refine ih inside' (h.mono fun p => Or.imp_left fun mem => ?_)
      exact (List.mem_cons.1 mem).resolve_left nofun
    | enter k =>
      refine ih inside' (h.mono fun p => ?_)
      rintro (mem | old)
      · rcases List.mem_cons.1 mem with same | mem
        · cases same
          exact .inr (.inl rfl)
        · exact .inl mem
      · exact .inr (.inr old)

/-- What is true of a search at any time, as long as it has told no cycle. -/
structure Exhausted (table : Table) (s : SearchState) : Prop where
  /-- What was left has no cycle below it. -/
  left : ∀ k ∈ s.seen, k ∉ s.opened → Grounded table k
  /-- What is open finds its prerequisites settled when it is left. -/
  accounted : Accounted table (Grounded table) s.opened s.tasks

theorem exhausted_start (table : Table) (roots : List Text) :
    Exhausted table ⟨[], [], ⟨none, []⟩, roots.map .enter⟩ where
  left := nofun
  accounted := by
    have all : Accounted table (Grounded table) [] (roots.map .enter ++ []) :=
      accounted_append staysInside_of_mem_roots trivial
    rwa [List.append_nil] at all

/-- A step that tells no cycle leaves no cycle behind. -/
theorem Exhausted.step {s s' : SearchState} (h : Exhausted table s) (traced : Traced table roots s)
    (step : SearchStep table s s') (quiet : s'.report.cycle = none) : Exhausted table s' := by
  cases step with
  | @leave seen opened report rest =>
    obtain ⟨settled, rest⟩ := h.accounted
    have grounded : ∀ o ∈ opened.head?, Grounded table o := fun o isHead => ⟨o, fun p edge => settled o isHead p edge⟩
    refine ⟨fun k mem closed => ?_, rest.mono fun p => Or.rec (grounded p) id⟩
    by_cases isOpen : k ∈ opened
    · cases opened with
      | nil => cases isOpen
      | cons o opened =>
        obtain rfl := (List.mem_cons.1 isOpen).resolve_right closed
        exact grounded k rfl
    · exact h.left k mem isOpen
  | missing => exact ⟨h.left, h.accounted⟩
  | @close seen opened report k rest old isOpen =>
    rw [Option.or_eq_none_iff] at quiet
    cases quiet.2
  | @pass seen opened report k rest old closed =>
    refine ⟨h.left, Accounted.mono h.accounted fun p => ?_⟩
    rintro (rfl | settled)
    · exact h.left p old closed
    · exact settled
  | @enter seen opened report k rest new =>
    refine ⟨fun t mem closed => ?_, accounted_append (fun _ => staysInside_of_mem_tasksOf) ⟨?_, ?_⟩⟩
    · rw [List.mem_cons, not_or] at closed
      exact h.left t ((List.mem_cons.1 mem).resolve_left closed.1) closed.2
    · intro o isHead p edge
      rw [List.head?_cons, Option.mem_some_iff] at isHead
      exact .inl (enter_mem_tasksOf.2 (isHead ▸ edge))
    · -- outside it, the opened target counts as settled, as its step did before
      refine Accounted.mono h.accounted fun p => ?_
      rintro (rfl | settled)
      · exact .inl rfl
      · exact .inr (.inr settled)

/-- What is told once stays told. -/
theorem SearchStep.quiet {s s' : SearchState} (step : SearchStep table s s') (h : s'.report.cycle = none) :
    s.report.cycle = none := by
  cases step with
  | close => exact (Option.or_eq_none_iff.1 h).1
  | leave | missing | pass | enter => exact h

theorem Exhausted.run {s s' : SearchState} (h : Exhausted table s) (traced : Traced table roots s)
    (search : ReflTransGen (SearchStep table) s s') (quiet : s'.report.cycle = none) : Exhausted table s' := by
  induction search with
  | refl => exact h
  | tail search step ih => exact (ih (step.quiet quiet)).step (traced.run search) step quiet

/-- A target has been seen, or is left to open. -/
def SearchState.Noticed (s : SearchState) (k : Text) : Prop := k ∈ s.seen ∨ .enter k ∈ s.tasks

theorem SearchStep.noticed {s s' : SearchState} (step : SearchStep table s s') (h : s.Noticed k) : s'.Noticed k := by
  rcases h with seen | left
  · cases step with
    | leave | missing | close | pass => exact .inl seen
    | enter => exact .inl (List.mem_cons_of_mem _ seen)
  · cases step with
    | leave => exact .inr ((List.mem_cons.1 left).resolve_left nofun)
    | missing => exact .inr ((List.mem_cons.1 left).resolve_left nofun)
    | close old =>
      rcases List.mem_cons.1 left with same | left
      · cases same
        exact .inl old
      · exact .inr left
    | pass old =>
      rcases List.mem_cons.1 left with same | left
      · cases same
        exact .inl old
      · exact .inr left
    | enter =>
      rcases List.mem_cons.1 left with same | left
      · cases same
        exact .inl List.mem_cons_self
      · exact .inr (List.mem_append_right _ (List.mem_cons_of_mem _ left))

theorem SearchState.Noticed.run {s s' : SearchState} (h : s.Noticed k) (search : ReflTransGen (SearchStep table) s s') :
    s'.Noticed k := by
  induction search with
  | refl => exact h
  | tail _ step ih => exact step.noticed ih

/-- If no cycle is told, going on from a root comes to an end. -/
theorem grounded_of_search (quiet : (search table roots).cycle = none) : ∀ r ∈ roots, Grounded table r := by
  intro r root
  obtain ⟨seen, opened, steps⟩ := exists_search_search table roots
  have traced := traced_start table roots
  have exhausted := (exhausted_start table roots).run traced steps quiet
  obtain rfl : opened = [] := (traced.run steps).onPath
  have noticed : SearchState.Noticed ⟨[], [], ⟨none, []⟩, roots.map .enter⟩ r := .inr (List.mem_map_of_mem root)
  have mem : r ∈ seen := (noticed.run steps).resolve_right List.not_mem_nil
  exact exhausted.left r mem List.not_mem_nil

theorem circuit_search {cycle : List Text} (told : (search table roots).cycle = some cycle) :
    Circuit table roots cycle := by
  obtain ⟨seen, opened, steps⟩ := exists_search_search table roots
  exact ((traced_start table roots).run steps).told cycle told

/-- A told cycle leads from each of its members back to it. -/
theorem Circuit.transGen {cycle : List Text} (h : Circuit table roots cycle) :
    ∃ k, Required table roots k ∧ TransGen (Requires table) k k := by
  obtain ⟨first, second, rest, rfl⟩ : ∃ first second rest, cycle = first :: second :: rest := by
    match cycle, h.nonempty with
    | first :: second :: rest, _ => exact ⟨first, second, rest, rfl⟩
  refine ⟨first, h.reached first List.mem_cons_self, ?_⟩
  obtain ⟨edge, path⟩ := List.isChain_cons_cons.1 h.linked
  have last : (second :: rest).getLast (List.cons_ne_nil _ _) = first := by
    have closed := h.closed
    rw [List.getLast?_cons_cons, List.getLast?_eq_some_getLast (List.cons_ne_nil _ _)] at closed
    exact Option.some.inj closed
  have back := List.relationReflTransGen_of_exists_isChain_cons rest path last
  exact TransGen.head' edge back

/-- **Cycles are told exactly.** The search tells a cycle if and only if one is reached from the roots through the
prerequisites of enabled targets; and what it tells is such a cycle, once around from its smallest member. -/
theorem search_cycle_exact (table : Table) (roots : List Text) :
    ((search table roots).cycle.isSome ↔ ∃ k, Required table roots k ∧ TransGen (Requires table) k k) ∧
      ∀ cycle, (search table roots).cycle = some cycle → Circuit table roots cycle := by
  refine ⟨⟨fun told => ?_, ?_⟩, fun cycle told => circuit_search told⟩
  · obtain ⟨cycle, told⟩ := Option.isSome_iff_exists.1 told
    exact (circuit_search told).transGen
  · rintro ⟨k, ⟨r, root, path⟩, cycle⟩
    by_contra missed
    have quiet : (search table roots).cycle = none := by simpa using missed
    exact ((grounded_of_search quiet r root).of_reaches path).not_transGen cycle

end Searches

namespace Sample

/-- `Pack` waits for `Compile` through `Lint`, and `Compile` for `Pack`; `Build` is outside the cycle. -/
def looped : Table :=
  ⟨[declare "Build" ["PACK"] [] [], declare "Compile" ["Gone", "pack"] [] [], declare "Lint" ["Compile"] [] [],
    declare "Pack" ["lint"] [] []]⟩

theorem search_looped : (search looped [build]).cycle = some [compile, pack, lint, compile] := by
  cbv

end Sample

/-- In the sample, the cycle is told from `Compile` on, although the search comes to `Pack` first. -/
theorem search_cycle_sample : (search Sample.looped [Sample.build]).cycle.isSome ∧
    Circuit Sample.looped [Sample.build] [Sample.compile, Sample.pack, Sample.lint, Sample.compile] ∧
    ∃ k, Required Sample.looped [Sample.build] k ∧ TransGen (Requires Sample.looped) k k := by
  obtain ⟨tells, told⟩ := search_cycle_exact Sample.looped [Sample.build]
  have some : (search Sample.looped [Sample.build]).cycle.isSome := by
    rw [Sample.search_looped]
    rfl
  exact ⟨some, told _ Sample.search_looped, tells.1 some⟩

end SolutionGraph.Target
