import SolutionGraph.Proofs.FileTree.Find
import SolutionGraph.Proofs.Property.List
import SolutionGraph.Proofs.Target.Override
import SolutionGraph.Target.Override

/-!
# Lists of overrides

Overrides are read off a list of entries, each of which gives a property a value (`Assigns`).

* **reading**: a list is read if each of its entries is, and else the first one that is not is at fault
  (`parseOverrides_eq_ok_iff`, `parseOverrides_eq_error_iff`);
* **last entries**: adding overrides one after the other keeps the last entry of every name, in its place
  (`foldl_addOverride`);
* **joined lists**: lists that are joined have the entries of each of them in turn (`splitList_join`), so all of this
  holds of joined lists too (`parseOverrides_join`).
-/

namespace SolutionGraph

/-! ## Reading element by element -/

section Reading

variable {α β ε : Type} {f : α → Except ε β} {x : α} {y : β} {xs before after : List α} {ys : List β} {e : ε}

theorem mapM_cons_of_ok (read : f x = .ok y) : (x :: xs).mapM f = (xs.mapM f).map (y :: ·) := by
  rw [List.mapM_cons, read]
  cases xs.mapM f <;> rfl

theorem mapM_cons_of_error (fault : f x = .error e) : (x :: xs).mapM f = .error e := by
  rw [List.mapM_cons, fault]
  rfl

theorem mapM_eq_ok_iff : xs.mapM f = .ok ys ↔ List.Forall₂ (fun x y => f x = .ok y) xs ys := by
  induction xs generalizing ys with
  | nil => simp [pure, Except.pure, eq_comm]
  | cons x xs ih =>
    rw [List.forall₂_cons_left_iff]
    cases read : f x with
    | error e => simp [mapM_cons_of_error read]
    | ok y =>
      rw [mapM_cons_of_ok read]
      cases rest : xs.mapM f <;> simp [Except.map, ← ih, rest, eq_comm]

theorem mapM_append_cons_of_error (reads : ∀ x' ∈ before, ∃ y, f x' = .ok y) (fault : f x = .error e) :
    (before ++ x :: after).mapM f = .error e := by
  induction before with
  | nil => exact mapM_cons_of_error fault
  | cons x' before ih =>
    obtain ⟨⟨y, read⟩, reads⟩ := List.forall_mem_cons.1 reads
    rw [List.cons_append, mapM_cons_of_ok read, ih reads]
    rfl

theorem exists_of_mapM_eq_error (fault : xs.mapM f = .error e) :
    ∃ before x after, xs = before ++ x :: after ∧ (∀ x' ∈ before, ∃ y, f x' = .ok y) ∧ f x = .error e := by
  induction xs with
  | nil => cases fault
  | cons x xs ih =>
    cases read : f x with
    | error e' =>
      rw [mapM_cons_of_error read] at fault
      cases fault
      exact ⟨[], x, xs, rfl, nofun, read⟩
    | ok y =>
      rw [mapM_cons_of_ok read] at fault
      have later : xs.mapM f = .error e := by
        cases rest : xs.mapM f with
        | error e' => rwa [rest] at fault
        | ok ys => rw [rest] at fault; cases fault
      obtain ⟨before, x', after, rfl, reads, fault'⟩ := ih later
      exact ⟨x :: before, x', after, rfl, List.forall_mem_cons.2 ⟨⟨y, read⟩, reads⟩, fault'⟩

end Reading

/-- Lists with semicolons between them have the entries of each of them. -/
theorem splitList_join (texts : List Text) : splitList (Text.join ";" texts) = texts.flatMap splitList := by
  induction texts with
  | nil => rfl
  | cons t texts ih =>
    cases texts with
    | nil => simp [Text.join]
    | cons next texts =>
      have cut : Text.join ";" (t :: next :: texts) = t ++ ';' :: Text.join ";" (next :: texts) :=
        Text.join_cons_cons ';' t next texts
      rw [cut, splitList_append, ih, ← List.flatMap_cons]

namespace Target

/-! ## Entries -/

/-- An entry gives a property a value: it is cut at its first equals sign, and blanks around the two parts do not count. -/
def Assigns (entry : Text) (pair : Text × Text) : Prop :=
  ∃ name value, entry = name ++ '=' :: value ∧ '=' ∉ name ∧ Text.trim name ≠ [] ∧ pair = (Text.trim name, Text.trim value)

section Entries

variable {entry : Text} {pair : Text × Text} {e : TargetError}

theorem parseOverride_eq_ok_iff : parseOverride entry = .ok pair ↔ Assigns entry pair := by
  unfold parseOverride Assigns
  constructor
  · intro read
    split at read
    · rename_i name value cut
      obtain ⟨rfl, clear⟩ := Text.splitOnce_eq_some_iff.1 cut
      split at read
      · cases read
      · rename_i named
        cases read
        exact ⟨name, value, rfl, clear, fun empty => named (List.isEmpty_iff.2 empty), rfl⟩
    · cases read
  · rintro ⟨name, value, rfl, clear, named, rfl⟩
    rw [Text.splitOnce_append_cons clear]
    exact if_neg fun empty => named (List.isEmpty_iff.1 empty)

theorem parseOverride_cases (entry : Text) :
    (∃ pair, parseOverride entry = .ok pair) ∨ parseOverride entry = .error (.invalidOverride entry) := by
  unfold parseOverride
  split
  · split
    · exact .inr rfl
    · exact .inl ⟨_, rfl⟩
  · exact .inr rfl

/-- An entry that gives no property a value is named as it is. -/
theorem parseOverride_eq_error_iff :
    parseOverride entry = .error e ↔ (¬ ∃ pair, Assigns entry pair) ∧ e = .invalidOverride entry := by
  simp only [← parseOverride_eq_ok_iff]
  rcases parseOverride_cases entry with ⟨pair, read⟩ | fault
  · simp [read]
  · simp [fault, eq_comm]

end Entries

/-! ## The last entry of every name -/

/-- Whether two entries have the same name, whatever its case. -/
def sameName (e e' : Text × Text) : Bool := Text.eqIgnoringCase e.1 e'.1

/-- The entries whose name no later entry has. -/
def lastByName : List (Text × Text) → List (Text × Text)
  | [] => []
  | e :: later => if later.any (sameName e) then lastByName later else e :: lastByName later

section LastByName

/-- **Adding overrides one after the other** keeps the last one of every name, in its place. -/
theorem foldl_addOverride (old es : List (Text × Text)) :
    es.foldl addOverride old = (old.filter fun e => !es.any (sameName e)) ++ lastByName es := by
  induction es generalizing old with
  | nil => simp [lastByName]
  | cons e es ih =>
    have added : addOverride old e = (old.filter fun e' => !sameName e' e) ++ [e] := rfl
    have kept : ((old.filter fun e' => !sameName e' e).filter fun e' => !es.any (sameName e')) =
        old.filter fun e' => !(e :: es).any (sameName e') := by
      simp only [List.filter_filter, List.any_cons, Bool.not_or, Bool.and_comm]
    have last : ([e].filter fun e' => !es.any (sameName e')) ++ lastByName es = lastByName (e :: es) := by
      rw [lastByName, List.filter_singleton]
      cases es.any (sameName e) <;> rfl
    rw [List.foldl_cons, ih, added, List.filter_append, List.append_assoc, kept, last]

theorem lastByName_sublist (es : List (Text × Text)) : (lastByName es).Sublist es := by
  induction es with
  | nil => exact .slnil
  | cons e es ih =>
    rw [lastByName]
    split
    · exact ih.cons e
    · exact ih.cons_cons e

theorem pairwise_lastByName (es : List (Text × Text)) :
    (lastByName es).Pairwise fun e e' => Text.asciiLower e.1 ≠ Text.asciiLower e'.1 := by
  induction es with
  | nil => exact .nil
  | cons e es ih =>
    rw [lastByName]
    split
    · exact ih
    · rename_i last
      refine .cons (fun e' mem same => last ?_) ih
      exact List.any_eq_true.2 ⟨e', (lastByName_sublist es).subset mem, Text.eqIgnoringCase_iff.2 same⟩

end LastByName

/-! ## Lists -/

section Lists

variable {text : Text} {m : Overrides} {e : TargetError}

theorem parseOverrides_eq (text : Text) :
    parseOverrides text = ((splitList text).mapM parseOverride).map fun pairs => ⟨lastByName pairs⟩ := by
  unfold parseOverrides
  cases (splitList text).mapM parseOverride with
  | error e => rfl
  | ok pairs =>
    simp only [bind, Except.bind, pure, Except.pure, Except.map, foldl_addOverride, List.filter_nil, List.nil_append]

theorem parseOverrides_eq_ok_iff :
    parseOverrides text = .ok m ↔ ∃ pairs, List.Forall₂ Assigns (splitList text) pairs ∧ m.entries = lastByName pairs := by
  have reads (pairs : List (Text × Text)) :
      (splitList text).mapM parseOverride = .ok pairs ↔ List.Forall₂ Assigns (splitList text) pairs := by
    simp only [mapM_eq_ok_iff, parseOverride_eq_ok_iff]
  simp only [← reads, parseOverrides_eq]
  constructor
  · intro read
    cases pairs : (splitList text).mapM parseOverride with
    | error e => rw [pairs] at read; cases read
    | ok pairs' =>
      rw [pairs] at read
      cases read
      exact ⟨pairs', rfl, rfl⟩
  · rintro ⟨pairs, read, entries⟩
    rw [read, Except.map, ← entries]

theorem parseOverrides_eq_error_iff : parseOverrides text = .error e ↔
    ∃ before entry after, splitList text = before ++ entry :: after ∧ (∀ entry' ∈ before, ∃ pair, Assigns entry' pair) ∧
      (¬ ∃ pair, Assigns entry pair) ∧ e = .invalidOverride entry := by
  have fault : parseOverrides text = .error e ↔ (splitList text).mapM parseOverride = .error e := by
    rw [parseOverrides_eq]
    cases (splitList text).mapM parseOverride <;> simp [Except.map]
  simp only [fault, ← parseOverride_eq_error_iff]
  simp only [← parseOverride_eq_ok_iff]
  constructor
  · exact exists_of_mapM_eq_error
  · rintro ⟨before, entry, after, split, reads, fault⟩
    rw [split]
    exact mapM_append_cons_of_error reads fault

/-- A list is read if each of its entries is. -/
theorem exists_parseOverrides_iff :
    (∃ m, parseOverrides text = .ok m) ↔ ∀ entry ∈ splitList text, ∃ pair, Assigns entry pair := by
  constructor
  · rintro ⟨m, read⟩ entry mem
    obtain ⟨pairs, assigns, -⟩ := parseOverrides_eq_ok_iff.1 read
    obtain ⟨i, inside, rfl⟩ := List.mem_iff_getElem.1 mem
    exact ⟨_, assigns.get inside (assigns.length_eq ▸ inside)⟩
  · intro assigns
    cases read : parseOverrides text with
    | ok m => exact ⟨m, rfl⟩
    | error e =>
      obtain ⟨before, entry, after, split, -, faulty, -⟩ := parseOverrides_eq_error_iff.1 read
      exact absurd (assigns entry (split ▸ List.mem_append_right before List.mem_cons_self)) faulty

/-- **The last override of every name counts.** Lists that are joined are read if each of them is. What is read are the
entries of all of them whose name no later one has in any case, in their order, and so every name once. Else the first
entry that gives no property a value is at fault, and is named. -/
theorem parseOverrides_join (texts : List Text) :
    ((∃ m, parseOverrides (Text.join ";" texts) = .ok m) ↔ ∀ text ∈ texts, ∃ m, parseOverrides text = .ok m) ∧
    (∀ m, parseOverrides (Text.join ";" texts) = .ok m ↔
      m.Distinct ∧ ∃ pairs, List.Forall₂ Assigns (texts.flatMap splitList) pairs ∧ m.entries = lastByName pairs) ∧
    ∀ e, parseOverrides (Text.join ";" texts) = .error e ↔
      ∃ before entry after, texts.flatMap splitList = before ++ entry :: after ∧
        (∀ entry' ∈ before, ∃ pair, Assigns entry' pair) ∧ (¬ ∃ pair, Assigns entry pair) ∧ e = .invalidOverride entry := by
  rw [← splitList_join]
  refine ⟨?_, fun m => ?_, fun e => parseOverrides_eq_error_iff⟩
  · simp only [exists_parseOverrides_iff, splitList_join, List.mem_flatMap]
    exact ⟨fun all text mem entry inside => all entry ⟨text, mem, inside⟩,
      fun all entry ⟨text, mem, inside⟩ => all text mem entry inside⟩
  · rw [parseOverrides_eq_ok_iff]
    refine ⟨fun read => ⟨?_, read⟩, And.right⟩
    obtain ⟨pairs, -, entries⟩ := read
    unfold Overrides.Distinct
    rw [entries]
    exact pairwise_lastByName pairs

/-- A name that comes again goes to the end, and is spelled as it is there. -/
example : (parseOverrides "mode=a; P = x=y ;;MODE=").toOption.map (·.entries) =
    some [("P".toList, "x=y".toList), ("MODE".toList, [])] := by
  decide

end Lists

end Target

end SolutionGraph
