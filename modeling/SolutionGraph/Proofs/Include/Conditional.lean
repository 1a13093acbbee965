import Mathlib.Data.List.Basic
import SolutionGraph.Proofs.Include.Directive

/-!
# Conditional compilation is followed conservatively

A preprocessor that knows the truth of every condition processes, of each chain, the first branch whose condition holds,
or else the last branch. The scan knows literal conditions only.

* **nesting**: lines whose chains are properly nested (`isNested`) are the lines of a `Group`, and no other lines are
  (`isNested_iff`);
* **processing**: `Group.processed` are the includes that a preprocessor processes, given the truth of the conditions
  that are not literal;
* **scanning**: `Group.reported` are the includes that the scan reports (`scanLines_lines`);
* **comparison**: everything processed is reported, whatever the conditions are, and nothing else if all of them are
  literal (`scanLines_conservative`).
-/

namespace SolutionGraph.Include

/-! ## Properly nested lines -/

mutual

/-- Lines in which every chain is closed. -/
inductive Group where
  | done
  | line (line : LogicalLine) (plain : line.role = .plain) (rest : Group)
  | chain (line : LogicalLine) (literal : Option Bool) (opens : line.role = .opens literal) (body : Group)
      (branches : Branches) (rest : Group)

/-- The further branches of a chain, up to the line that closes it. -/
inductive Branches where
  | closed (line : LogicalLine) (closes : line.role = .closes)
  | next (line : LogicalLine) (literal : Option Bool) (continues : line.role = .continues literal) (body : Group)
      (more : Branches)
  | last (line : LogicalLine) (last : line.role = .last) (body : Group) (close : LogicalLine)
      (closes : close.role = .closes)

end

mutual

/-- The lines of a group. -/
def Group.lines : Group → List LogicalLine
  | .done => []
  | .line line _ rest => line :: rest.lines
  | .chain line _ _ body branches rest => line :: (body.lines ++ (branches.lines ++ rest.lines))

/-- The lines of further branches. -/
def Branches.lines : Branches → List LogicalLine
  | .closed line _ => [line]
  | .next line _ _ body more => line :: (body.lines ++ more.lines)
  | .last line _ body close _ => line :: (body.lines ++ [close])

end

/-- Whether chains are properly nested in lines: each is closed, and each has at most one last branch, after which it
has no other. The list tells of each open chain, innermost first, whether it is in its last branch. -/
def isNestedIn : List Bool → List LogicalLine → Bool
  | openChains, [] => openChains.isEmpty
  | openChains, line :: rest =>
    match line.role, openChains with
    | .plain, _ => isNestedIn openChains rest
    | .opens _, _ => isNestedIn (false :: openChains) rest
    | .continues _, false :: _ => isNestedIn openChains rest
    | .last, false :: outer => isNestedIn (true :: outer) rest
    | .closes, _ :: outer => isNestedIn outer rest
    | _, _ => false

/-- Whether chains are properly nested in lines. -/
def isNested (lines : List LogicalLine) : Bool := isNestedIn [] lines

section Nesting

variable {openChains : List Bool} {line : LogicalLine} {rest : List LogicalLine} {literal : Option Bool}

theorem isNestedIn_plain (h : line.role = .plain) :
    isNestedIn openChains (line :: rest) = isNestedIn openChains rest := by
  simp only [isNestedIn, h]

theorem isNestedIn_opens (h : line.role = .opens literal) :
    isNestedIn openChains (line :: rest) = isNestedIn (false :: openChains) rest := by
  simp only [isNestedIn, h]

theorem isNestedIn_continues (h : line.role = .continues literal) :
    isNestedIn (false :: openChains) (line :: rest) = isNestedIn (false :: openChains) rest := by
  simp only [isNestedIn, h]

theorem isNestedIn_last (h : line.role = .last) :
    isNestedIn (false :: openChains) (line :: rest) = isNestedIn (true :: openChains) rest := by
  simp only [isNestedIn, h]

theorem isNestedIn_closes (h : line.role = .closes) (inLast : Bool) :
    isNestedIn (inLast :: openChains) (line :: rest) = isNestedIn openChains rest := by
  simp only [isNestedIn, h]

mutual

/-- The lines of a group leave the open chains as they are. -/
theorem Group.isNestedIn_lines (openChains : List Bool) (rest : List LogicalLine) :
    (g : Group) → isNestedIn openChains (g.lines ++ rest) = isNestedIn openChains rest
  | .done => rfl
  | .line line plain more => by
    rw [Group.lines, List.cons_append, isNestedIn_plain plain]
    exact Group.isNestedIn_lines openChains rest more
  | .chain line _ opens body branches more => by
    rw [Group.lines, List.cons_append, isNestedIn_opens opens, List.append_assoc, List.append_assoc,
      Group.isNestedIn_lines _ _ body, Branches.isNestedIn_lines _ _ branches]
    exact Group.isNestedIn_lines openChains rest more

/-- The lines of further branches close the innermost chain. -/
theorem Branches.isNestedIn_lines (openChains : List Bool) (rest : List LogicalLine) :
    (b : Branches) → isNestedIn (false :: openChains) (b.lines ++ rest) = isNestedIn openChains rest
  | .closed line closes => isNestedIn_closes closes false
  | .next line _ continues body more => by
    rw [Branches.lines, List.cons_append, isNestedIn_continues continues, List.append_assoc,
      Group.isNestedIn_lines _ _ body]
    exact Branches.isNestedIn_lines openChains rest more
  | .last line last body close closes => by
    rw [Branches.lines, List.cons_append, isNestedIn_last last, List.append_assoc, Group.isNestedIn_lines _ _ body]
    exact isNestedIn_closes closes true

end

/-- What closes the innermost chain, before or in its last branch. -/
inductive Ends : Bool → List LogicalLine → Prop
  | branches (b : Branches) : Ends false b.lines
  | close (line : LogicalLine) (closes : line.role = .closes) : Ends true [line]

/-- Nested lines inside an open chain begin with a group, up to the end of the present branch, and go on with what
closes the chain. -/
theorem exists_of_isNestedIn_cons (n : Nat) {lines : List LogicalLine} (short : lines.length ≤ n) {inLast : Bool}
    {openChains : List Bool} (nested : isNestedIn (inLast :: openChains) lines) :
    ∃ (g : Group) (ending rest : List LogicalLine),
      lines = g.lines ++ (ending ++ rest) ∧ Ends inLast ending ∧ isNestedIn openChains rest := by
  induction n generalizing lines inLast openChains with
  | zero =>
    obtain rfl := List.length_eq_zero_iff.1 (Nat.le_zero.1 short)
    cases nested
  | succ n ih =>
    match lines with
    | [] => cases nested
    | line :: tail =>
    have short' : tail.length ≤ n := Nat.le_of_succ_le_succ short
    cases role : line.role with
    | plain =>
      rw [isNestedIn_plain role] at nested
      obtain ⟨g, ending, rest, rfl, ends, nested⟩ := ih short' nested
      exact ⟨.line line role g, ending, rest, rfl, ends, nested⟩
    | opens literal =>
      rw [isNestedIn_opens role] at nested
      obtain ⟨body, _, after, rfl, ⟨branches⟩, inner⟩ := ih short' nested
      have short'' : after.length ≤ n := by
        simp only [List.length_append] at short'
        omega
      obtain ⟨g, ending, rest, rfl, ends, outer⟩ := ih short'' inner
      exact ⟨.chain line literal role body branches g, ending, rest, by simp [Group.lines], ends, outer⟩
    | continues literal =>
      cases inLast with
      | true => simp [isNestedIn, role] at nested
      | false =>
        rw [isNestedIn_continues role] at nested
        obtain ⟨body, _, rest, rfl, ⟨more⟩, outer⟩ := ih short' nested
        refine ⟨.done, _, rest, ?_, .branches (.next line literal role body more), outer⟩
        simp [Group.lines, Branches.lines]
    | last =>
      cases inLast with
      | true => simp [isNestedIn, role] at nested
      | false =>
        rw [isNestedIn_last role] at nested
        obtain ⟨body, _, rest, rfl, _ | ⟨close, closes⟩, outer⟩ := ih short' nested
        refine ⟨.done, _, rest, ?_, .branches (.last line role body close closes), outer⟩
        simp [Group.lines, Branches.lines]
    | closes =>
      rw [isNestedIn_closes role] at nested
      cases inLast with
      | true => exact ⟨.done, _, tail, rfl, .close line role, nested⟩
      | false => exact ⟨.done, _, tail, rfl, .branches (.closed line role), nested⟩

theorem exists_group_of_isNested (n : Nat) {lines : List LogicalLine} (short : lines.length ≤ n)
    (nested : isNestedIn [] lines) : ∃ g : Group, g.lines = lines := by
  induction n generalizing lines with
  | zero => exact ⟨.done, (List.length_eq_zero_iff.1 (Nat.le_zero.1 short)).symm⟩
  | succ n ih =>
    match lines with
    | [] => exact ⟨.done, rfl⟩
    | line :: tail =>
    have short' : tail.length ≤ n := Nat.le_of_succ_le_succ short
    cases role : line.role with
    | plain =>
      rw [isNestedIn_plain role] at nested
      obtain ⟨g, rfl⟩ := ih short' nested
      exact ⟨.line line role g, rfl⟩
    | opens literal =>
      rw [isNestedIn_opens role] at nested
      obtain ⟨body, _, after, rfl, ⟨branches⟩, inner⟩ := exists_of_isNestedIn_cons n short' nested
      have short'' : after.length ≤ n := by
        simp only [List.length_append] at short'
        omega
      obtain ⟨g, rfl⟩ := ih short'' inner
      exact ⟨.chain line literal role body branches g, rfl⟩
    | continues literal => simp [isNestedIn, role] at nested
    | last => simp [isNestedIn, role] at nested
    | closes => simp [isNestedIn, role] at nested

/-- **Properly nested lines** are the lines of a group. -/
theorem isNested_iff (lines : List LogicalLine) : isNested lines ↔ ∃ g : Group, g.lines = lines := by
  constructor
  · exact exists_group_of_isNested lines.length (Nat.le_refl _)
  · rintro ⟨g, rfl⟩
    have whole := Group.isNestedIn_lines [] [] g
    rw [List.append_nil] at whole
    rw [isNested, whole]
    rfl

end Nesting

/-! ## What a preprocessor processes -/

mutual

/-- The includes that a preprocessor processes. Conditions that are not literal have the truth that is given for the
position of their line; the first line of the group has the given position. -/
def Group.processed (truth : Nat → Bool) (position : Nat) : Group → List Directive
  | .done => []
  | .line line _ rest => line.include?.toList ++ rest.processed truth (position + 1)
  | .chain _ literal _ body branches rest =>
    (if literal.getD (truth position) then body.processed truth (position + 1)
      else branches.processed truth (position + 1 + body.lines.length)) ++
    rest.processed truth (position + 1 + body.lines.length + branches.lines.length)

/-- The includes that a preprocessor processes if it takes no earlier branch of the chain. -/
def Branches.processed (truth : Nat → Bool) (position : Nat) : Branches → List Directive
  | .closed _ _ => []
  | .next _ literal _ body more =>
    if literal.getD (truth position) then body.processed truth (position + 1)
    else more.processed truth (position + 1 + body.lines.length)
  | .last _ _ body _ _ => body.processed truth (position + 1)

end

/-! ## What the scan reports -/

/-- A chain that has just been opened. -/
def Chain.opened (active : Bool) (literal : Option Bool) : Chain :=
  ⟨active, literal.getD true, literal == some true, literal.isNone⟩

mutual

/-- The includes that the scan reports inside active or inactive text. -/
def Group.reported (active : Bool) : Group → List Directive
  | .done => []
  | .line line _ rest => (if active then line.include?.toList else []) ++ rest.reported active
  | .chain _ literal _ body branches rest =>
    body.reported (isActive [.opened active literal]) ++
      (branches.reported (.opened active literal) ++ rest.reported active)

/-- The includes that the scan reports in the further branches of a chain. -/
def Branches.reported (chain : Chain) : Branches → List Directive
  | .closed _ _ => []
  | .next _ literal _ body more =>
    body.reported (isActive [chain.next literal]) ++ more.reported (chain.next literal)
  | .last _ _ body _ _ => body.reported (isActive [chain.last])

end

mutual

/-- **A scan of nested lines** reports these includes and goes on in the chains that were open before. -/
theorem Group.scanLines_lines (chains : List Chain) (rest : List LogicalLine) :
    (g : Group) → scanLines chains (g.lines ++ rest) = g.reported (isActive chains) ++ scanLines chains rest
  | .done => rfl
  | .line line plain more => by
    rw [Group.lines, List.cons_append, scanLines_cons, plain, Role.step, Group.scanLines_lines _ _ more, Group.reported,
      List.append_assoc]
  | .chain line literal opens body branches more => by
    rw [Group.lines, List.cons_append, scanLines_of_role _ _ (opens ▸ nofun), opens, Role.step, openChain,
      List.append_assoc, List.append_assoc, Group.scanLines_lines _ _ body, Branches.scanLines_lines _ _ _ branches,
      Group.scanLines_lines _ _ more, Group.reported, List.append_assoc, List.append_assoc]
    rfl

/-- The scan of the further branches of a chain leaves the chain. -/
theorem Branches.scanLines_lines (chain : Chain) (chains : List Chain) (rest : List LogicalLine) :
    (b : Branches) → scanLines (chain :: chains) (b.lines ++ rest) = b.reported chain ++ scanLines chains rest
  | .closed line closes => by
    rw [Branches.lines, List.singleton_append, scanLines_of_role _ _ (closes ▸ nofun), closes]
    rfl
  | .next line literal continues body more => by
    rw [Branches.lines, List.cons_append, scanLines_of_role _ _ (continues ▸ nofun), continues, Role.step, onInnermost,
      List.append_assoc, Group.scanLines_lines _ _ body, Branches.scanLines_lines _ _ _ more, Branches.reported,
      List.append_assoc]
    rfl
  | .last line last body close closes => by
    rw [Branches.lines, List.cons_append, scanLines_of_role _ _ (last ▸ nofun), last, Role.step, onInnermost,
      List.append_assoc, Group.scanLines_lines _ _ body, List.singleton_append, scanLines_of_role _ _ (closes ▸ nofun),
      closes]
    rfl

end

/-! ## The comparison -/

section Comparison

variable {chain : Chain} {literal : Option Bool} {truth : Nat → Bool}

/-- No branch of a chain that is still to come is active. -/
def Chain.IsSpent (chain : Chain) : Prop := chain.parentActive = false ∨ chain.taken = true ∧ chain.unknown = false

theorem Chain.IsSpent.next (spent : chain.IsSpent) (literal : Option Bool) :
    (chain.next literal).IsSpent ∧ isActive [chain.next literal] = false := by
  unfold Chain.next
  rcases spent with inactive | ⟨taken, known⟩
  · split
    · simp [IsSpent, isActive, inactive]
    · split <;> simp [IsSpent, isActive, inactive]
  · simp [IsSpent, isActive, taken, known]

theorem Chain.IsSpent.last (spent : chain.IsSpent) : isActive [chain.last] = false := by
  rcases spent with inactive | ⟨taken, known⟩
  · simp [isActive, Chain.last, inactive]
  · simp [isActive, Chain.last, taken, known]

theorem Chain.isSpent_opened (literal : Option Bool) :
    (Chain.opened false literal).IsSpent ∧ isActive [.opened false literal] = false := ⟨.inl rfl, rfl⟩

mutual

/-- Nothing is reported in inactive text. -/
theorem Group.reported_inactive : (g : Group) → g.reported false = []
  | .done => rfl
  | .line _ _ more => by
    rw [Group.reported, Group.reported_inactive more]
    rfl
  | .chain _ literal _ body branches more => by
    obtain ⟨spent, inactive⟩ := Chain.isSpent_opened literal
    rw [Group.reported, inactive, Group.reported_inactive body, Branches.reported_of_isSpent spent branches,
      Group.reported_inactive more]
    rfl

theorem Branches.reported_of_isSpent {chain : Chain} (spent : chain.IsSpent) : (b : Branches) → b.reported chain = []
  | .closed _ _ => rfl
  | .next _ literal _ body more => by
    obtain ⟨spent', inactive⟩ := spent.next literal
    rw [Branches.reported, inactive, Group.reported_inactive body, Branches.reported_of_isSpent spent' more]
    rfl
  | .last _ _ body _ _ => by rw [Branches.reported, spent.last, Group.reported_inactive body]

end

/-! ### Everything that is processed -/

/-- A chain in active text, no branch of which is known to be taken. -/
def Chain.IsOpen (chain : Chain) : Prop := chain.parentActive = true ∧ chain.taken = false

/-- What a chain knows after a condition that holds or does not hold. -/
structure Chain.Tracks (chain : Chain) (holds : Bool) : Prop where
  active : holds = true → isActive [chain] = true
  goesOn : holds = false → chain.IsOpen

theorem Chain.tracks_opened (literal : Option Bool) (truth : Bool) :
    (Chain.opened true literal).Tracks (literal.getD truth) := by
  rcases literal with _ | _ | _
  · exact ⟨fun _ => rfl, fun _ => ⟨rfl, rfl⟩⟩
  · exact ⟨nofun, fun _ => ⟨rfl, rfl⟩⟩
  · exact ⟨fun _ => rfl, nofun⟩

theorem Chain.IsOpen.tracks_next (isOpen : chain.IsOpen) (literal : Option Bool) (truth : Bool) :
    (chain.next literal).Tracks (literal.getD truth) := by
  obtain ⟨active, free⟩ := isOpen
  unfold Chain.next
  cases known : chain.unknown with
  | true => exact ⟨fun _ => by simp [isActive, active], fun _ => ⟨active, free⟩⟩
  | false =>
    rw [if_neg Bool.false_ne_true, free, if_neg Bool.false_ne_true]
    rcases literal with _ | _ | _
    · exact ⟨fun _ => by simp [isActive, active], fun _ => ⟨active, rfl⟩⟩
    · exact ⟨nofun, fun _ => ⟨active, rfl⟩⟩
    · exact ⟨fun _ => by simp [isActive, active], nofun⟩

theorem Chain.IsOpen.last (isOpen : chain.IsOpen) : isActive [chain.last] = true := by
  simp [isActive, Chain.last, isOpen.1, isOpen.2]

/-- The branch that a preprocessor takes is among those that are reported. -/
theorem Chain.Tracks.sublist {holds : Bool} (tracks : chain.Tracks holds) (body : Group)
    {taken passed others : List Directive} (inBody : taken.Sublist (body.reported true))
    (inOthers : holds = false → passed.Sublist others) :
    (if holds then taken else passed).Sublist (body.reported (isActive [chain]) ++ others) := by
  cases holds with
  | true =>
    rw [if_pos rfl, tracks.active rfl]
    exact inBody.trans (List.sublist_append_left _ _)
  | false =>
    rw [if_neg Bool.false_ne_true]
    exact (inOthers rfl).trans (List.sublist_append_right _ _)

mutual

/-- **What a preprocessor processes is reported**, in this order. -/
theorem Group.processed_sublist (truth : Nat → Bool) (position : Nat) :
    (g : Group) → (g.processed truth position).Sublist (g.reported true)
  | .done => .slnil
  | .line _ _ more => (List.Sublist.refl _).append (Group.processed_sublist truth _ more)
  | .chain _ literal _ body branches more => by
    have tracks := Chain.tracks_opened literal (truth position)
    rw [Group.processed, Group.reported, ← List.append_assoc]
    exact (tracks.sublist body (Group.processed_sublist truth _ body)
      fun passes => Branches.processed_sublist truth _ (tracks.goesOn passes) branches).append
        (Group.processed_sublist truth _ more)

theorem Branches.processed_sublist (truth : Nat → Bool) (position : Nat) {chain : Chain} (isOpen : chain.IsOpen) :
    (b : Branches) → (b.processed truth position).Sublist (b.reported chain)
  | .closed _ _ => .slnil
  | .next _ literal _ body more => by
    have tracks := isOpen.tracks_next literal (truth position)
    rw [Branches.processed, Branches.reported]
    exact tracks.sublist body (Group.processed_sublist truth _ body)
      fun passes => Branches.processed_sublist truth _ (tracks.goesOn passes) more
  | .last _ _ body _ _ => by
    rw [Branches.processed, Branches.reported, isOpen.last]
    exact Group.processed_sublist truth _ body

end

/-! ### Nothing else, if all conditions are literal -/

/-- Every condition on the lines is literal. -/
def AllLiteral (lines : List LogicalLine) : Prop :=
  ∀ line ∈ lines, line.role ≠ .opens none ∧ line.role ≠ .continues none

instance (lines : List LogicalLine) : Decidable (AllLiteral lines) :=
  inferInstanceAs (Decidable (∀ line ∈ lines, line.role ≠ .opens none ∧ line.role ≠ .continues none))

/-- An open chain all of whose conditions were literal. -/
def Chain.IsLiteral (chain : Chain) : Prop := chain.IsOpen ∧ chain.unknown = false

/-- What a chain knows after a literal condition. -/
structure Chain.Settles (chain : Chain) (value : Bool) : Prop where
  active : isActive [chain] = value
  spent : value = true → chain.IsSpent
  goesOn : value = false → chain.IsLiteral

theorem Chain.settles_opened (value : Bool) : (Chain.opened true (some value)).Settles value := by
  cases value with
  | true => exact ⟨rfl, fun _ => .inr ⟨rfl, rfl⟩, nofun⟩
  | false => exact ⟨rfl, nofun, fun _ => ⟨⟨rfl, rfl⟩, rfl⟩⟩

theorem Chain.IsLiteral.settles_next (literal : chain.IsLiteral) (value : Bool) :
    (chain.next (some value)).Settles value := by
  obtain ⟨⟨active, free⟩, known⟩ := literal
  unfold Chain.next
  rw [known, if_neg Bool.false_ne_true, free, if_neg Bool.false_ne_true]
  cases value with
  | true => exact ⟨by simp [isActive, active], fun _ => .inr ⟨rfl, rfl⟩, nofun⟩
  | false => exact ⟨by simp [isActive], nofun, fun _ => ⟨⟨active, rfl⟩, rfl⟩⟩

/-- The branch that a preprocessor takes is the one that is reported. -/
theorem Chain.Settles.eq_append {value : Bool} (settles : chain.Settles value) (body : Group)
    {taken passed others : List Directive} (inBody : taken = body.reported true)
    (noOthers : chain.IsSpent → others = []) (inOthers : value = false → passed = others) :
    (if value then taken else passed) = body.reported (isActive [chain]) ++ others := by
  rw [settles.active]
  cases value with
  | true => rw [if_pos rfl, inBody, noOthers (settles.spent rfl), List.append_nil]
  | false => rw [if_neg Bool.false_ne_true, inOthers rfl, Group.reported_inactive, List.nil_append]

mutual

/-- **With literal conditions only**, what a preprocessor processes is what is reported. -/
theorem Group.processed_eq (truth : Nat → Bool) (position : Nat) :
    (g : Group) → AllLiteral g.lines → g.processed truth position = g.reported true
  | .done, _ => rfl
  | .line line _ more, literal => by
    rw [Group.processed, Group.reported, if_pos rfl,
      Group.processed_eq truth _ more (List.forall_mem_cons.1 literal).2]
  | .chain _ none opens _ _ _, literal => absurd opens (List.forall_mem_cons.1 literal).1.1
  | .chain _ (some value) _ body branches more, literal => by
    simp only [AllLiteral, Group.lines, List.forall_mem_cons, List.forall_mem_append] at literal
    obtain ⟨_, inBody, inBranches, inMore⟩ := literal
    have settles := Chain.settles_opened value
    rw [Group.processed, Group.reported, ← List.append_assoc, Group.processed_eq truth _ more inMore]
    exact congrArg (· ++ _) (settles.eq_append body (Group.processed_eq truth _ body inBody)
      (fun spent => Branches.reported_of_isSpent spent branches)
      fun passes => Branches.processed_eq truth _ (settles.goesOn passes) branches inBranches)

theorem Branches.processed_eq (truth : Nat → Bool) (position : Nat) {chain : Chain} (isLiteral : chain.IsLiteral) :
    (b : Branches) → AllLiteral b.lines → b.processed truth position = b.reported chain
  | .closed _ _, _ => rfl
  | .next _ none continues _ _, literal => absurd continues (List.forall_mem_cons.1 literal).1.2
  | .next _ (some value) _ body more, literal => by
    simp only [AllLiteral, Branches.lines, List.forall_mem_cons, List.forall_mem_append] at literal
    obtain ⟨_, inBody, inMore⟩ := literal
    have settles := isLiteral.settles_next value
    rw [Branches.processed, Branches.reported]
    exact settles.eq_append body (Group.processed_eq truth _ body inBody)
      (fun spent => Branches.reported_of_isSpent spent more)
      fun passes => Branches.processed_eq truth _ (settles.goesOn passes) more inMore
  | .last _ _ body _ _, literal => by
    simp only [AllLiteral, Branches.lines, List.forall_mem_cons, List.forall_mem_append] at literal
    rw [Branches.processed, Branches.reported, isLiteral.1.last]
    exact Group.processed_eq truth _ body literal.2.1

end

end Comparison

/-- **The scan is conservative.** Properly nested lines are those of a group, and whatever the truth of the conditions
that are not literal, the scan reports all includes that a preprocessor processes, in order; if all conditions are
literal, it reports no others. -/
theorem scanLines_conservative {lines : List LogicalLine} (nested : isNested lines) :
    (∃ g : Group, g.lines = lines) ∧ ∀ g : Group, g.lines = lines → ∀ truth : Nat → Bool,
      (g.processed truth 0).Sublist (scanLines [] lines) ∧
        (AllLiteral lines → g.processed truth 0 = scanLines [] lines) := by
  refine ⟨(isNested_iff lines).1 nested, ?_⟩
  rintro g rfl truth
  have reported : scanLines [] g.lines = g.reported true := by
    have whole := Group.scanLines_lines [] [] g
    rw [List.append_nil] at whole
    exact whole.trans (List.append_nil _)
  rw [reported]
  exact ⟨Group.processed_sublist truth 0 g, Group.processed_eq truth 0 g⟩

/-- A chain of a literal condition, one that is not literal, another literal one and a last branch. -/
def mixedChain : Group :=
  .chain ⟨1, "#if 0"⟩ (some false) (by decide) (.line ⟨2, "#include <a.h>"⟩ (by decide) .done)
    (.next ⟨3, "#elif X"⟩ none (by decide) (.line ⟨4, "#include <b.h>"⟩ (by decide) .done)
      (.next ⟨5, "#elif 1"⟩ (some true) (by decide) (.line ⟨6, "#include <c.h>"⟩ (by decide) .done)
        (.last ⟨7, "#else"⟩ (by decide) (.line ⟨8, "#include <d.h>"⟩ (by decide) .done) ⟨9, "#endif"⟩ (by decide))))
    .done

theorem conservative_mixedChain : isNested mixedChain.lines ∧
    (mixedChain.processed (fun _ => false) 0).map (·.name) = ["c.h".toList] ∧
    (scanLines [] mixedChain.lines).map (·.name) = ["b.h".toList, "c.h".toList, "d.h".toList] ∧
    ∀ truth, (mixedChain.processed truth 0).Sublist (scanLines [] mixedChain.lines) :=
  ⟨by decide, by decide, by decide, fun truth => ((scanLines_conservative (by decide)).2 mixedChain rfl truth).1⟩

end SolutionGraph.Include
