import SolutionGraph.Proofs.Include.Splice

/-!
# Continuations

A preprocessor splices lines before it looks for comments or directives. The scan is line oriented: it takes the
comments out of each line first, a literal or a line comment ends where its line ends, and a blank is left where two
lines are joined. So a text and the spliced text need not be read alike (`scanDirectives_splice_ne`); they are if each
continuation is harmless.

* **harmless continuations** (`IsHarmless`, `harmlessLines_iff`): in code or in a block comment, beside a blank or where
  nothing that follows matters, and neither within the delimiter of a comment, nor within an operand, nor behind another
  backslash;
* **steps** (`Follows.continue`, `Follows.end_line`): the scan of the spliced text follows the scan of the text over a
  continuation and over the end of a line;
* **runs** (`reported_spliceLines`): it follows over all lines, and reports the same (`scanDirectives_splice`).
-/

namespace SolutionGraph.Include

open Text (trimEnd)

/-! ## Harmless continuations -/

/-- Deleting a continuation between `text`, of which `kept` was kept, and `next` makes no delimiter of a comment, nor
does deleting one more that follows at once. -/
def SplicesApart (place : Place) (kept text next : Text) : Prop :=
  match place with
  | .code => kept.getLast? = some '/' → next.head? ∉ [some '/', some '*', some '\\']
  | .block => text.getLast? = some '*' → next.head? ∉ [some '/', some '\\']
  | .literal _ => False

/-- A continuation between `before`, which was read from the state `s` on, and the next line can be deleted. -/
structure IsHarmless (s : LineState) (before next : Text) (place : Place) : Prop where
  /-- It does not stand in a line comment. -/
  stands : placeAfter s.place before = some place
  /-- It stands in code or in a block comment, and not in a literal, and not within the delimiter of a comment. -/
  apart : SplicesApart place (s.kept before) before next
  /-- In code, it has a blank or the start or end of a line beside it, or nothing behind it matters. A comment counts as
  the blank that it leaves. -/
  beside : place = .code → EndsBlank (s.kept before) ∨ StartsBlank next ∨ isSettled (s.pending ++ s.kept before)
  /-- The operand of an include has not begun, or a delimited name is complete in it. -/
  whole : ¬ opensOperand (s.pending ++ s.kept before)
  /-- There is no other backslash before it, blanks aside. -/
  single : (trimEnd (s.kept before)).getLast? ≠ some '\\'

/-- All continuations of the lines can be deleted. -/
def HarmlessLines (s : LineState) (number : Nat) : List Text → Prop
  | line :: next :: rest =>
    (∀ before ∈ beforeBackslash? line, ∃ place, IsHarmless s before next place) ∧
      HarmlessLines (s.step number line).2 (number + 1) (next :: rest)
  | _ => True

/-- All continuations of a text can be deleted. -/
def HarmlesslyContinued (source : Text) : Prop := HarmlessLines .initial 1 (Text.splitOn '\n' source)

/-- It is each continuation, read up to from the start, that has to be harmless. -/
theorem harmlessLines_iff (s : LineState) (number : Nat) (lines : List Text) :
    HarmlessLines s number lines ↔ ∀ a before next b, lines = a ++ (before ++ ['\\']) :: next :: b →
      ∃ place, IsHarmless (s.after number a) before next place := by
  induction lines generalizing s number with
  | nil => exact iff_of_true trivial fun a before next b split => by cases a <;> cases split
  | cons line rest ih =>
    cases rest with
    | nil =>
      refine iff_of_true trivial fun a before next b split => ?_
      have short := congrArg List.length split
      rw [List.length_append] at short
      simp at short
      omega
    | cons next rest =>
      constructor
      · rintro ⟨here, later⟩ a before next' b split
        cases a with
        | nil =>
          obtain ⟨rfl, same⟩ := List.cons.inj split
          obtain ⟨rfl, -⟩ := List.cons.inj same
          exact here before ((beforeBackslash?_concat before _).trans (if_pos rfl))
        | cons first a =>
          obtain ⟨rfl, same⟩ := List.cons.inj split
          exact (ih _ _).1 later a before next' b same
      · intro all
        refine ⟨fun before ends => ?_, (ih _ _).2 fun a before next' b split => ?_⟩
        · exact all [] before next rest (by rw [eq_of_beforeBackslash? ends]; rfl)
        · exact all (line :: a) before next' b (by rw [split]; rfl)

section Decidability

instance (place : Place) (kept text next : Text) : Decidable (SplicesApart place kept text next) :=
  match place with
  | .code => inferInstanceAs (Decidable (_ = _ → _ ∉ _))
  | .block => inferInstanceAs (Decidable (_ = _ → _ ∉ _))
  | .literal _ => inferInstanceAs (Decidable False)

instance (s : LineState) (before next : Text) (place : Place) : Decidable (IsHarmless s before next place) :=
  decidable_of_iff
    (placeAfter s.place before = some place ∧ SplicesApart place (s.kept before) before next ∧
      (place = .code → EndsBlank (s.kept before) ∨ StartsBlank next ∨ isSettled (s.pending ++ s.kept before)) ∧
      ¬ opensOperand (s.pending ++ s.kept before) ∧ (trimEnd (s.kept before)).getLast? ≠ some '\\')
    ⟨fun ⟨stands, apart, beside, whole, single⟩ => ⟨stands, apart, beside, whole, single⟩,
      fun ⟨stands, apart, beside, whole, single⟩ => ⟨stands, apart, beside, whole, single⟩⟩

instance (s : LineState) (before next : Text) : Decidable (∃ place, IsHarmless s before next place) :=
  match stands : placeAfter s.place before with
  | none => isFalse fun ⟨_, harmless⟩ => nomatch stands.symm.trans harmless.stands
  | some place => decidable_of_iff (IsHarmless s before next place)
    ⟨fun harmless => ⟨place, harmless⟩,
      fun ⟨_, harmless⟩ => Option.some.inj (stands.symm.trans harmless.stands) ▸ harmless⟩

/-- Whether all continuations of the lines can be deleted is decided line by line. -/
def HarmlessLines.decidable (s : LineState) (number : Nat) :
    (lines : List Text) → Decidable (HarmlessLines s number lines)
  | line :: next :: rest =>
    have := HarmlessLines.decidable (s.step number line).2 (number + 1) (next :: rest)
    inferInstanceAs (Decidable (_ ∧ _))
  | [_] => isTrue trivial
  | [] => isTrue trivial

instance (source : Text) : Decidable (HarmlesslyContinued source) := HarmlessLines.decidable _ _ _

end Decidability

/-- How the scan of a spliced text follows the scan of the text: the latter, in the state `s`, is at the start of the
line `next`; the former, in the state `s'`, has read `read` of a line that goes on with `next`. -/
structure Follows (s s' : LineState) (read next : Text) : Prop where
  /-- Both stand in the same place. -/
  place : placeAfter s'.place read = some s.place
  /-- The line goes on as if it were cut here. -/
  apart : SplicesApart s.place (s'.kept read) read next
  /-- What follows has the same effect on both sides; only if it starts with a blank it matters that it does. -/
  alike : (∀ z, effect (s.pending ++ z) = effect (s'.pending ++ s'.kept read ++ z)) ∨ StartsBlank (s.kept next) ∧
    ∀ z, StartsBlank z → effect (s.pending ++ z) = effect (s'.pending ++ s'.kept read ++ z)
  /-- What has been read of the line does not end within an operand. -/
  whole : s'.kept read = [] ∨ ¬ opensOperand (s'.pending ++ s'.kept read)
  /-- What has been read of the line is not taken for a continuation. -/
  single : (trimEnd (s'.kept read)).getLast? ≠ some '\\'
  /-- A logical line that goes on in code goes on behind a blank. -/
  blank : s.inBlock = false → EndsBlank s.pending

section Simulation

variable {s s' : LineState} {read next before line kept : Text} {inBlock : Bool} {place : Place}

/-- A cut that deleting makes is a cut for what the next line starts with. -/
theorem SplicesApart.apart (apart : SplicesApart place kept read next) (first : ∀ c ∈ line.head?, c ∈ next.head?) :
    Apart place kept read line := by
  cases place with
  | code =>
    refine fun last => ⟨fun found => apart last ?_, fun found => apart last ?_⟩
    · rw [first _ found]
      decide
    · rw [first _ found]
      decide
  | block =>
    refine fun last found => apart last ?_
    rw [first _ found]
    decide
  | literal _ => exact apart

theorem inBlock_of_place (code : s.place = .code) : s.inBlock = false := by
  unfold LineState.place at code
  cases inBlock : s.inBlock with
  | false => rfl
  | true =>
    rw [inBlock] at code
    cases code

theorem place_ne_escape (s : LineState) : s.place ≠ .literal '\\' := by
  unfold LineState.place
  split
  · exact block_ne_escape
  · exact code_ne_escape

/-- The rest of a line leaves on both sides what it leaves on its own. -/
theorem Follows.strip (follows : Follows s s' read next) (apart : Apart s.place (s'.kept read) read line) :
    stripFrom s'.place (read ++ line) = (s'.kept read ++ s.kept line, (stripFrom s.place line).2) ∧
      placeAfter s'.place (read ++ line) = placeAfter s.place line :=
  stripFrom_append (place_ne_escape s') follows.place apart

theorem opensOperand_congr {t t' : Text} (same : effect t = effect t') : opensOperand t = opensOperand t' := by
  rw [opensOperand, opensOperand, same]

/-- What follows has the same effect on both sides if it starts with a blank whenever the next line does. -/
theorem Follows.effect_append (follows : Follows s s' read next) {z : Text}
    (starts : StartsBlank (s.kept next) → StartsBlank z) :
    effect (s.pending ++ z) = effect (s'.pending ++ s'.kept read ++ z) := by
  rcases follows.alike with alike | ⟨blank, alike⟩
  · exact alike z
  · exact alike z (starts blank)

theorem endsBlank_append_blank (t : Text) : EndsBlank (t ++ [' ']) := by
  intro c mem
  rw [List.getLast?_concat] at mem
  obtain rfl := Option.some.inj mem
  decide

theorem StartsBlank.stripFrom_code (starts : StartsBlank next) : StartsBlank (stripFrom .code next).1 := by
  cases next with
  | nil =>
    rw [stripFrom]
    exact startsBlank_nil
  | cons c next =>
    have solid : c ≠ '/' := by
      rintro rfl
      exact absurd (starts _ rfl) (by decide)
    rw [stripFrom.eq_10 _ _ (fun _ slash => absurd slash solid) fun _ slash => absurd slash solid]
    exact starts

/-- Blanks that are lost at the end of a line do not matter before other blanks, unless an operand is open. -/
theorem effect_trimEnd_append {a b z : Text} (whole : ¬ opensOperand (a ++ b)) (starts : StartsBlank z) :
    effect (a ++ trimEnd b ++ z) = effect (a ++ b ++ z) := by
  obtain ⟨blanks, cut, blank⟩ := Text.exists_append_trimEnd b
  have regroup : a ++ b = a ++ trimEnd b ++ blanks := by rw [List.append_assoc, ← cut]
  have whole' : ¬ opensOperand (a ++ trimEnd b) := by
    rwa [regroup, opensOperand_congr (effect_append_blanks blank _)] at whole
  rw [regroup, effect_insert blank whole' (.inr starts)]

/-- What ends with no backslash still does not when something is put before it. -/
theorem getLast?_trimEnd_append {a b : Text} (first : (trimEnd a).getLast? ≠ some '\\')
    (last : (trimEnd b).getLast? ≠ some '\\') : (trimEnd (a ++ b)).getLast? ≠ some '\\' := by
  rcases Text.trimEnd_append_cases a b with ⟨-, same⟩ | ⟨nonempty, same⟩
  · rwa [same]
  · rw [same, List.getLast?_append_of_ne_nil _ nonempty]
    exact last

/-- The spliced line is read on to the next continuation. -/
theorem Follows.read_on (follows : Follows s s' read (before ++ ['\\'])) (harmless : IsHarmless s before next place) :
    s'.kept (read ++ before) = s'.kept read ++ s.kept before ∧ placeAfter s'.place (read ++ before) = some place := by
  have apart : Apart s.place (s'.kept read) read before :=
    follows.apart.apart fun c first => by rw [List.head?_append, first]; rfl
  obtain ⟨strip, after⟩ := follows.strip apart
  exact ⟨congrArg Prod.fst strip, after.trans harmless.stands⟩

/-- What follows a continuation has the same effect on both sides, but for the blank that the scan leaves. -/
theorem Follows.effect_kept_append (follows : Follows s s' read line)
    (kept : s'.kept (read ++ before) = s'.kept read ++ s.kept before) {z : Text}
    (starts : StartsBlank (s.kept line) → StartsBlank (s.kept before ++ z)) :
    effect (s.pending ++ s.kept before ++ z) = effect (s'.pending ++ s'.kept (read ++ before) ++ z) := by
  rw [kept, List.append_assoc, follows.effect_append starts, ← List.append_assoc, ← List.append_assoc]

/-- A continuation in code: the scan of the text takes in what stands before it, and a blank. -/
theorem Follows.continue_code (follows : Follows s s' read (before ++ ['\\']))
    (harmless : IsHarmless s before next .code) (number : Nat) : (s.step number (before ++ ['\\'])).1 = none ∧
      Follows (s.step number (before ++ ['\\'])).2 s' (read ++ before) next := by
  obtain ⟨kept', place'⟩ := follows.read_on harmless
  have strip : stripFrom s.place (before ++ ['\\']) = (s.kept before ++ ['\\'], false) :=
    (stripFrom_append (place_ne_escape s) harmless.stands fun _ => by decide).1
  have ends : beforeBackslash? (trimEnd (s.kept before ++ ['\\'])) = some (s.kept before) := by
    rw [Text.trimEnd_append_cons (by decide)]
    exact (beforeBackslash?_concat _ _).trans (if_pos rfl)
  have nothing : s.kept before = [] → s.place = .code ∧ before = [] := eq_nil_of_stripFrom_code harmless.stands
  have behind : ∀ z,
      effect (s.pending ++ s.kept before ++ z) = effect (s'.pending ++ s'.kept (read ++ before) ++ z) := by
    refine fun z => follows.effect_kept_append kept' fun starts => ?_
    rw [LineState.kept, strip] at starts
    refine starts.of_append (fun empty => ?_) z
    rw [empty] at starts
    exact absurd (starts _ rfl) (by decide)
  rw [step_of_joined number strip ends]
  refine ⟨rfl, place', ?apart, ?alike, .inr ?whole, ?single, fun _ => endsBlank_append_blank _⟩
  case apart =>
    -- a slash at the end of what has been read is in this line, or there is nothing in this line
    intro last
    by_cases empty : s.kept before = []
    · obtain ⟨code, rfl⟩ := nothing empty
      have apart := follows.apart
      rw [kept', empty, List.append_nil] at last
      rw [code] at apart
      exact absurd (by decide) (apart last)
    · rw [kept', List.getLast?_append_of_ne_nil _ empty] at last
      exact harmless.apart last
  case alike =>
    -- the blank that the scan leaves stands beside a blank, or it does not matter
    have blank : ∀ c ∈ " ".toList, Text.isBlank c := List.forall_mem_singleton.2 rfl
    rcases harmless.beside rfl with ends | starts | settled
    · have ends' : EndsBlank (s.pending ++ s.kept before) :=
        ends.append fun empty => follows.blank (inBlock_of_place (nothing empty).1)
      exact .inl fun z => (effect_insert blank harmless.whole (.inl ends')).trans (behind z)
    · exact .inr ⟨starts.stripFrom_code, fun z starts' =>
        (effect_insert blank harmless.whole (.inr starts')).trans (behind z)⟩
    · refine .inl fun z => ?_
      rw [List.append_assoc, effect_append_of_isSettled settled, ← behind, effect_append_of_isSettled settled]
  case whole =>
    have same := behind []
    rw [List.append_nil, List.append_nil] at same
    rw [← opensOperand_congr same]
    exact harmless.whole
  case single => exact kept' ▸ getLast?_trimEnd_append follows.single harmless.single

/-- A continuation in a block comment: the scan of the text loses the blanks before the comment. -/
theorem Follows.continue_block (follows : Follows s s' read (before ++ ['\\']))
    (harmless : IsHarmless s before next .block) (number : Nat) : (s.step number (before ++ ['\\'])).1 = none ∧
      Follows (s.step number (before ++ ['\\'])).2 s' (read ++ before) next := by
  obtain ⟨kept', place'⟩ := follows.read_on harmless
  have strip : stripFrom s.place (before ++ ['\\']) = (s.kept before, true) := by
    have split := (stripFrom_append (r := ['\\']) (place_ne_escape s) harmless.stands fun _ => by decide).1
    rwa [stripFrom.eq_3 _ _ fun _ star => absurd star (by decide), stripFrom, List.append_nil] at split
  have behind : ∀ z, StartsBlank z →
      effect (s.pending ++ s.kept before ++ z) = effect (s'.pending ++ s'.kept (read ++ before) ++ z) := by
    refine fun z starts => follows.effect_kept_append kept' fun starts' => ?_
    rw [LineState.kept, strip] at starts'
    exact starts'.append fun _ => starts
  rw [step_of_open number strip]
  refine ⟨rfl, place', ?apart, .inr ⟨head?_stripFrom_block next, fun z starts => ?alike⟩, .inr ?whole, ?single, ?blank⟩
  case apart =>
    intro last
    by_cases empty : before = []
    · subst empty
      have block : s.place = .block := Option.some.inj ((placeAfter_nil s.place).symm.trans harmless.stands)
      have apart := follows.apart
      rw [List.append_nil] at last
      rw [block] at apart
      exact absurd (by decide) (apart last)
    · rw [List.getLast?_append_of_ne_nil _ empty] at last
      exact harmless.apart last
  case alike =>
    rw [← behind z starts]
    exact effect_trimEnd_append harmless.whole starts
  case whole =>
    have same := behind [] startsBlank_nil
    rw [List.append_nil, List.append_nil] at same
    rw [← opensOperand_congr same]
    exact harmless.whole
  case single => exact kept' ▸ getLast?_trimEnd_append follows.single harmless.single
  case blank => exact fun code => Bool.noConfusion code

/-- **A deleted continuation.** It ends no logical line, and the scan of the spliced line goes on to follow. -/
theorem Follows.continue (follows : Follows s s' read (before ++ ['\\'])) (harmless : IsHarmless s before next place)
    (number : Nat) : (s.step number (before ++ ['\\'])).1 = none ∧
      Follows (s.step number (before ++ ['\\'])).2 s' (read ++ before) next := by
  cases place with
  | code => exact follows.continue_code harmless number
  | block => exact follows.continue_block harmless number
  | literal delimiter => exact harmless.apart.elim

theorem kept_nil (s : LineState) : s.kept [] = [] := by
  unfold LineState.kept
  cases s.place <;> rw [stripFrom]

/-- At the start of a spliced line nothing of it has been read. -/
theorem follows_nil (place : s.inBlock = s'.inBlock) (blank : s.inBlock = false → EndsBlank s.pending)
    (alike : (∀ z, effect (s.pending ++ z) = effect (s'.pending ++ z)) ∨
      s.inBlock ∧ ∀ z, StartsBlank z → effect (s.pending ++ z) = effect (s'.pending ++ z)) :
    Follows s s' [] next := by
  have same : s'.place = s.place := by rw [LineState.place, LineState.place, place]
  refine ⟨(placeAfter_nil _).trans (congrArg some same), ?apart, ?alike, .inl (kept_nil s'), ?single, blank⟩
  case apart =>
    rw [kept_nil, LineState.place]
    split <;> (intro last; cases last)
  case alike =>
    rw [kept_nil, List.append_nil]
    rcases alike with alike | ⟨inBlock, alike⟩
    · exact .inl alike
    refine .inr ⟨?_, alike⟩
    rw [LineState.kept, LineState.place, if_pos inBlock]
    exact head?_stripFrom_block next
  case single =>
    rw [kept_nil]
    intro last
    cases last

theorem effect_append_trimEnd (a b : Text) : effect (a ++ trimEnd b) = effect (a ++ b) := by
  obtain ⟨blanks, cut, blank⟩ := Text.exists_append_trimEnd b
  rw [← effect_append_blanks blank, List.append_assoc, ← cut]

/-- **The end of a line.** Both sides end logical lines of the same effect, or none, and are at the start of a line. -/
theorem Follows.end_line (follows : Follows s s' read line) (number number' : Nat) (next : Text) :
    ((s.step number line).1.map fun l => effect l.text) =
        ((s'.step number' (read ++ line)).1.map fun l => effect l.text) ∧
      Follows (s.step number line).2 (s'.step number' (read ++ line)).2 [] next := by
  obtain ⟨strip', -⟩ := follows.strip (follows.apart.apart fun _ first => first)
  have strip : stripFrom s.place line = (s.kept line, (stripFrom s.place line).2) := rfl
  obtain ⟨blanks, cut, -⟩ := Text.exists_append_trimEnd (s.kept line)
  cases inBlock : (stripFrom s.place line).2 with
  | true =>
    rw [inBlock] at strip strip'
    rw [step_of_open number strip, step_of_open number' strip']
    refine ⟨rfl, follows_nil rfl (fun code => Bool.noConfusion code) (.inr ⟨rfl, fun z starts => ?_⟩)⟩
    rcases Text.trimEnd_append_cases (s'.kept read) (s.kept line) with ⟨blank, same⟩ | ⟨nonempty, same⟩
    · have trimmed : effect (s'.pending ++ trimEnd (s'.kept read) ++ z) = effect (s'.pending ++ s'.kept read ++ z) := by
        rcases follows.whole with empty | whole
        · rw [empty]
          rfl
        · exact effect_trimEnd_append whole starts
      have nothing : trimEnd (s.kept line) = [] := List.rdropWhile_eq_nil_iff.2 blank
      rw [same, nothing, List.append_nil, trimmed]
      exact follows.effect_append fun _ => starts
    · rw [same, List.append_assoc, follows.effect_append fun starts' => ?_, ← List.append_assoc, ← List.append_assoc]
      rw [cut] at starts'
      exact starts'.of_append nonempty z
  | false =>
    rw [inBlock] at strip strip'
    cases ends : beforeBackslash? (trimEnd (s.kept line)) with
    | some joined =>
      have trimmed := eq_of_beforeBackslash? ends
      have ends' : beforeBackslash? (trimEnd (s'.kept read ++ s.kept line)) = some (s'.kept read ++ joined) := by
        rcases Text.trimEnd_append_cases (s'.kept read) (s.kept line) with ⟨blank, -⟩ | ⟨-, same⟩
        · have nothing : trimEnd (s.kept line) = [] := List.rdropWhile_eq_nil_iff.2 blank
          exact absurd (nothing.symm.trans trimmed) (List.concat_ne_nil _ _).symm
        · rw [same, trimmed, ← List.append_assoc, beforeBackslash?_concat, if_pos rfl]
      rw [step_of_joined number strip ends, step_of_joined number' strip' ends']
      refine ⟨rfl, follows_nil rfl (fun _ => endsBlank_append_blank _) (.inl fun z => ?_)⟩
      have starts : StartsBlank (s.kept line) → StartsBlank (joined ++ " " ++ z) := by
        intro starts
        rw [cut, trimmed] at starts
        cases joined with
        | nil => exact absurd (starts _ rfl) (by decide)
        | cons c joined => exact starts
      have same := follows.effect_append starts
      simpa only [List.append_assoc] using same
    | none =>
      have ends' : beforeBackslash? (trimEnd (s'.kept read ++ s.kept line)) = none :=
        beforeBackslash?_eq_none_iff.2 (getLast?_trimEnd_append follows.single (beforeBackslash?_eq_none_iff.1 ends))
      rw [step_of_ended number strip ends, step_of_ended number' strip' ends']
      refine ⟨congrArg some ?_, follows_nil rfl (fun _ => endsBlank_nil) (.inl fun _ => rfl)⟩
      dsimp only
      rw [effect_append_trimEnd, effect_append_trimEnd, follows.effect_append id, List.append_assoc]

theorem reported_toList_append {a b : Option LogicalLine} {rest rest' : List LogicalLine}
    (same : (a.map fun l => effect l.text) = b.map fun l => effect l.text)
    (later : ∀ chains, reported chains rest = reported chains rest') (chains : List Chain) :
    reported chains (a.toList ++ rest) = reported chains (b.toList ++ rest') := by
  cases a with
  | none =>
    cases b with
    | none => exact later chains
    | some b => cases same
  | some a =>
    cases b with
    | none => cases same
    | some b =>
      have effects : effect a.text = effect b.text := Option.some.inj same
      exact (reported_cons chains a rest).trans ((reported_cons chains b rest').trans (by rw [effects, later])).symm

/-- **A run of the scan** over the lines of a text and over the spliced lines reports the same. -/
theorem reported_spliceLines {rest : List Text} {number : Nat} (harmless : HarmlessLines s number (next :: rest))
    (follows : Follows s s' read next) (chains : List Chain) (number' : Nat) :
    reported chains (logicalLinesFrom s' number' ((spliceLines (next :: rest)).modifyHead (read ++ ·))) =
      reported chains (logicalLinesFrom s number (next :: rest)) := by
  induction rest generalizing next s s' read number number' chains with
  | nil =>
    obtain ⟨same, follows⟩ := follows.end_line number number' []
    have pending := follows.effect_append (z := []) fun _ => startsBlank_nil
    rw [kept_nil, List.append_nil, List.append_nil, List.append_nil] at pending
    refine (reported_toList_append same (fun chains => ?_) chains).symm
    rw [reported_pending chains _ _ 0, reported_pending chains _ _ 0]
    exact reported_single chains 0 0 pending
  | cons after rest ih =>
    cases ends : beforeBackslash? next with
    | some before =>
      obtain rfl := eq_of_beforeBackslash? ends
      obtain ⟨place, harmless'⟩ := harmless.1 before ends
      obtain ⟨unended, follows⟩ := follows.continue harmless' number
      rw [spliceLines_of_some ends, List.modifyHead_modifyHead, logicalLinesFrom_cons s, unended]
      have run := ih harmless.2 follows chains number'
      simp only [List.append_assoc] at run
      exact run
    | none =>
      obtain ⟨same, follows⟩ := follows.end_line number number' after
      rw [spliceLines_of_none ends]
      refine (reported_toList_append same (fun chains => ?_) chains).symm
      have run := ih harmless.2 follows chains (number' + 1)
      rw [modifyHead_nil_append] at run
      exact run.symm

end Simulation

/-- **Harmless continuations are transparent.** Deleting every backslash before a line end, and the line end with it,
does not change the names and styles that are reported, if each of them can be deleted. -/
theorem scanDirectives_splice {source : Text} (harmless : HarmlesslyContinued source) :
    (scanDirectives (splice source)).map Directive.target = (scanDirectives source).map Directive.target := by
  rw [target_scanDirectives, target_scanDirectives, splitOn_splice]
  unfold HarmlesslyContinued at harmless
  cases lines : Text.splitOn '\n' source with
  | nil => exact absurd lines (Text.splitOn_ne_nil _ _)
  | cons line rest =>
    rw [lines] at harmless
    have start : Follows .initial .initial [] line := follows_nil rfl (fun _ => endsBlank_nil) (.inl fun _ => rfl)
    have run := reported_spliceLines harmless start [] 1
    rwa [modifyHead_nil_append] at run

/-- A macro over lines, an include behind a comment that goes on over a continuation, and a condition. -/
def continuedSource : Text :=
  Text.join "\n" ["#define MAX(a, b) \\", "  ((a) > (b) ?\\", " (a) : (b))", "/* one \\", " two */ #include \\",
    " <a.h>", "#if 0\\", "", "#include \"b.h\"", "#endif"]

theorem scanDirectives_splice_continuedSource : HarmlesslyContinued continuedSource ∧
    (scanDirectives (splice continuedSource)).map Directive.target = [("a.h".toList, Style.angled)] := by
  have harmless : HarmlesslyContinued continuedSource := by decide +kernel
  have found : (scanDirectives continuedSource).map Directive.target = [("a.h".toList, Style.angled)] := by
    decide +kernel
  exact ⟨harmless, (scanDirectives_splice harmless).trans found⟩

/-- Texts with continuations that cannot be deleted: what is reported of them changes. -/
def brittleSources : List Text :=
  -- in a line comment, in a literal and in an operand
  ["// note \\\n#include \"b.h\"\n", "#include \"a\\\nb.h\"", "#include <a\\\nb.h>",
  -- in a keyword, and in a condition without a blank
    "#inc\\\nlude <b.h>", "#if ((1)\\\n)\n#else\n#include <b.h>\n#endif",
  -- within the delimiters of a comment
    "/\\\n* x\n#include <b.h>\n*/", "/* x *\\\n/ #include <b.h>",
  -- behind another backslash
    "x \\\\\n\n#include <b.h>"]

/-- **Continuations are not transparent in general.** -/
theorem scanDirectives_splice_ne :
    (∀ source ∈ brittleSources,
      (scanDirectives (splice source)).map Directive.target ≠ (scanDirectives source).map Directive.target) ∧
    ¬ ∀ source : Text,
      (scanDirectives (splice source)).map Directive.target = (scanDirectives source).map Directive.target := by
  have brittle : ∀ source ∈ brittleSources,
      (scanDirectives (splice source)).map Directive.target ≠ (scanDirectives source).map Directive.target := by
    decide +kernel
  exact ⟨brittle, fun transparent => brittle _ List.mem_cons_self (transparent _)⟩

end SolutionGraph.Include
