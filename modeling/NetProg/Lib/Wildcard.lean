import Mathlib.Data.List.Count
import NetProg.Lib.Text

/-!
# Wildcard patterns

Sequences of fixed letters and gaps that any run of allowed letters may fill.  The rules say how a
pattern that is put together from two matches, and when a letter that separates two patterns can
only match one place of a text.
-/

namespace NetProg

/-- An element of a pattern. -/
inductive Wildcard (α : Type) where
  | letter (a : α)
  | gap
  deriving DecidableEq, Repr

namespace Wildcard

/-- The text is the pattern with these runs, in order, in its gaps. -/
inductive Fills {α : Type} : List (Wildcard α) → List (List α) → List α → Prop
  | nil : Fills [] [] []
  | letter {pattern : List (Wildcard α)} {runs : List (List α)} {text : List α} (a : α)
      (rest : Fills pattern runs text) : Fills (.letter a :: pattern) runs (a :: text)
  | gap {pattern : List (Wildcard α)} {runs : List (List α)} {text : List α} (run : List α)
      (rest : Fills pattern runs text) : Fills (.gap :: pattern) (run :: runs) (run ++ text)

variable {α : Type} [DecidableEq α]

/-- The whole text matches the pattern; `allowed` letters may fill a gap. -/
def matchAll (allowed : α → Bool) : List (Wildcard α) → List α → Bool
  | [], text => text.isEmpty
  | .letter _ :: _, [] => false
  | .letter a :: pattern, b :: text => b == a && matchAll allowed pattern text
  | .gap :: pattern, text =>
      (List.range (text.length + 1)).any fun n =>
        (text.take n).all allowed && matchAll allowed pattern (text.drop n)

variable {allowed : α → Bool} {pattern : List (Wildcard α)} {text : List α}

theorem matchAll_nil : matchAll allowed [] text = true ↔ text = [] := by
  rw [matchAll, List.isEmpty_iff]

theorem matchAll_letter {a : α} : matchAll allowed (.letter a :: pattern) text = true ↔
    ∃ rest, text = a :: rest ∧ matchAll allowed pattern rest = true := by
  cases text with
  | nil => simp [matchAll]
  | cons b rest =>
      rw [matchAll, Bool.and_eq_true, beq_iff_eq]
      constructor
      · intro both
        exact ⟨rest, by rw [both.1], both.2⟩
      · intro found
        obtain ⟨rest', same, matched⟩ := found
        obtain ⟨rfl, rfl⟩ := List.cons.inj same
        exact ⟨rfl, matched⟩

theorem matchAll_gap : matchAll allowed (.gap :: pattern) text = true ↔
    ∃ fill rest, text = fill ++ rest ∧ (∀ a ∈ fill, allowed a = true) ∧
      matchAll allowed pattern rest = true := by
  simp only [matchAll, List.any_eq_true, List.mem_range, Bool.and_eq_true, List.all_eq_true]
  constructor
  · intro found
    obtain ⟨n, -, filled, matched⟩ := found
    exact ⟨text.take n, text.drop n, (List.take_append_drop n text).symm, filled, matched⟩
  · intro found
    obtain ⟨fill, rest, rfl, filled, matched⟩ := found
    refine ⟨fill.length, ?_, ?_, ?_⟩
    · rw [List.length_append]
      omega
    · rw [List.take_left]
      exact filled
    · rw [List.drop_left]
      exact matched

/-- A text matches two patterns in a row when it falls into two parts that match them. -/
theorem matchAll_append (first second : List (Wildcard α)) :
    matchAll allowed (first ++ second) text = true ↔
      ∃ a b, text = a ++ b ∧ matchAll allowed first a = true ∧
        matchAll allowed second b = true := by
  induction first generalizing text with
  | nil =>
      constructor
      · intro matched
        exact ⟨[], text, rfl, matchAll_nil.mpr rfl, matched⟩
      · intro found
        obtain ⟨a, b, rfl, empty, matched⟩ := found
        rw [matchAll_nil.mp empty]
        exact matched
  | cons piece first ih =>
      cases piece with
      | letter c =>
          rw [List.cons_append, matchAll_letter]
          constructor
          · intro found
            obtain ⟨rest, rfl, matched⟩ := found
            obtain ⟨a, b, rfl, left, right⟩ := ih.mp matched
            exact ⟨c :: a, b, rfl, matchAll_letter.mpr ⟨a, rfl, left⟩, right⟩
          · intro found
            obtain ⟨a, b, rfl, left, right⟩ := found
            obtain ⟨rest, rfl, left'⟩ := matchAll_letter.mp left
            exact ⟨rest ++ b, rfl, ih.mpr ⟨rest, b, rfl, left', right⟩⟩
      | gap =>
          rw [List.cons_append, matchAll_gap]
          constructor
          · intro found
            obtain ⟨fill, rest, rfl, filled, matched⟩ := found
            obtain ⟨a, b, rfl, left, right⟩ := ih.mp matched
            exact ⟨fill ++ a, b, (List.append_assoc _ _ _).symm,
              matchAll_gap.mpr ⟨fill, a, rfl, filled, left⟩, right⟩
          · intro found
            obtain ⟨a, b, rfl, left, right⟩ := found
            obtain ⟨fill, rest, rfl, filled, left'⟩ := matchAll_gap.mp left
            exact ⟨fill, rest ++ b, List.append_assoc _ _ _, filled,
              ih.mpr ⟨rest, b, rfl, left', right⟩⟩

/-- When every letter of the text may fill a gap, it does not matter which others may. -/
theorem matchAll_allowed (all : ∀ a ∈ text, allowed a = true) :
    matchAll allowed pattern text = matchAll (fun _ => true) pattern text := by
  induction pattern generalizing text with
  | nil => rfl
  | cons piece pattern ih =>
      rw [Bool.eq_iff_iff]
      cases piece with
      | letter c =>
          rw [matchAll_letter, matchAll_letter]
          refine exists_congr (fun rest => and_congr_right (fun same => ?_))
          subst same
          rw [ih (fun a member => all a (List.mem_cons_of_mem _ member))]
      | gap =>
          rw [matchAll_gap, matchAll_gap]
          refine exists_congr (fun fill => exists_congr (fun rest => and_congr_right (fun same => ?_)))
          subst same
          rw [ih (fun a member => all a (List.mem_append_right _ member))]
          refine and_congr_left (fun _ => iff_of_true ?_ (fun _ _ => rfl))
          exact fun a member => all a (List.mem_append_left _ member)

/-- Every fixed letter of the pattern is found in the text. -/
theorem count_le_of_matchAll (c : α) (matched : matchAll allowed pattern text = true) :
    pattern.count (.letter c) ≤ text.count c := by
  induction pattern generalizing text with
  | nil => exact Nat.zero_le _
  | cons piece pattern ih =>
      cases piece with
      | letter a =>
          obtain ⟨rest, rfl, matched'⟩ := matchAll_letter.mp matched
          have later := ih matched'
          rw [List.count_cons, List.count_cons]
          by_cases same : a = c
          · subst same
            simpa using later
          · simpa [same] using later
      | gap =>
          obtain ⟨fill, rest, rfl, -, matched'⟩ := matchAll_gap.mp matched
          have later := ih matched'
          rw [List.count_cons_of_ne (by simp), List.count_append]
          omega

/-- A separator that the text has as often as the pattern matches in its own place only. -/
theorem matchAll_separated {c : α} {first second : List (Wildcard α)} {a b : List α}
    (free : c ∉ a) (asOften : b.count c = second.count (.letter c)) :
    matchAll allowed (first ++ .letter c :: second) (a ++ c :: b) = true ↔
      matchAll allowed first a = true ∧ matchAll allowed second b = true := by
  rw [matchAll_append]
  constructor
  · intro found
    obtain ⟨a', b', same, left, right⟩ := found
    obtain ⟨rest, rfl, right'⟩ := matchAll_letter.mp right
    have enough := count_le_of_matchAll c right'
    have total := congrArg (List.count c) same
    rw [List.count_append, List.count_append, List.count_cons_self, List.count_cons_self,
      List.count_eq_zero.mpr free] at total
    have free' : c ∉ a' := List.count_eq_zero.mp (by omega)
    obtain ⟨rfl, rfl⟩ := Text.split_unique free free' same
    exact ⟨left, right'⟩
  · intro both
    exact ⟨a, c :: b, rfl, both.1, matchAll_letter.mpr ⟨b, rfl, both.2⟩⟩

/-- A text matches when the gaps of the pattern can be filled. -/
theorem matchAll_iff_fills : matchAll allowed pattern text = true ↔
    ∃ runs, (∀ run ∈ runs, ∀ a ∈ run, allowed a = true) ∧ Fills pattern runs text := by
  constructor
  · intro matched
    induction pattern generalizing text with
    | nil =>
        obtain rfl := matchAll_nil.mp matched
        exact ⟨[], by simp, .nil⟩
    | cons piece pattern ih =>
        cases piece with
        | letter a =>
            obtain ⟨rest, rfl, later⟩ := matchAll_letter.mp matched
            obtain ⟨runs, filled, fills⟩ := ih later
            exact ⟨runs, filled, .letter a fills⟩
        | gap =>
            obtain ⟨run, rest, rfl, allowed, later⟩ := matchAll_gap.mp matched
            obtain ⟨runs, filled, fills⟩ := ih later
            exact ⟨run :: runs, List.forall_mem_cons.mpr ⟨allowed, filled⟩, .gap run fills⟩
  · intro found
    obtain ⟨runs, filled, fills⟩ := found
    induction fills with
    | nil => rfl
    | letter a rest ih => exact matchAll_letter.mpr ⟨_, rfl, ih filled⟩
    | gap run rest ih =>
        obtain ⟨here, later⟩ := List.forall_mem_cons.mp filled
        exact matchAll_gap.mpr ⟨run, _, rfl, here, ih later⟩

namespace Fills

variable {first second : List (Wildcard α)} {runs : List (List α)}

omit [DecidableEq α] in
/-- A run is a part of the text. -/
theorem subset (fills : Fills pattern runs text) {run : List α} (member : run ∈ runs) :
    run ⊆ text := by
  induction fills with
  | nil => simp at member
  | letter a rest ih => exact List.subset_cons_of_subset a (ih member)
  | gap run' rest ih =>
      rcases List.mem_cons.mp member with rfl | later
      · exact List.subset_append_left _ _
      · exact List.subset_append_of_subset_right _ (ih later)

omit [DecidableEq α] in
/-- What fills two patterns in a row falls into what fills the one and what fills the other. -/
theorem split (fills : Fills (first ++ second) runs text) :
    ∃ runs' runs'' a b, runs = runs' ++ runs'' ∧ text = a ++ b ∧ Fills first runs' a ∧
      Fills second runs'' b := by
  induction first generalizing runs text with
  | nil => exact ⟨[], runs, [], text, rfl, rfl, .nil, fills⟩
  | cons piece first ih =>
      cases fills with
      | letter a rest =>
          obtain ⟨runs', runs'', x, y, rfl, rfl, left, right⟩ := ih rest
          exact ⟨runs', runs'', a :: x, y, rfl, rfl, .letter a left, right⟩
      | gap run rest =>
          obtain ⟨runs', runs'', x, y, rfl, rfl, left, right⟩ := ih rest
          exact ⟨run :: runs', runs'', run ++ x, y, rfl, (List.append_assoc _ _ _).symm,
            .gap run left, right⟩

/-- Every fixed letter of the pattern stands in the text. -/
theorem count_le (c : α) (fills : Fills pattern runs text) :
    pattern.count (.letter c) ≤ text.count c := by
  have matched : matchAll (fun _ => true) pattern text = true :=
    matchAll_iff_fills.mpr ⟨runs, fun _ _ _ _ => rfl, fills⟩
  exact count_le_of_matchAll c matched

/-- A separator that the text has as often as the pattern is never in a run. -/
theorem separated {c : α} {a b : List α} (free : c ∉ a)
    (asOften : b.count c = second.count (.letter c))
    (fills : Fills (first ++ .letter c :: second) runs (a ++ c :: b)) :
    ∃ runs' runs'', runs = runs' ++ runs'' ∧ Fills first runs' a ∧ Fills second runs'' b := by
  obtain ⟨runs', runs'', a', b', rfl, same, left, right⟩ := fills.split
  cases right with
  | letter _ right =>
      have enough := right.count_le c
      have total := congrArg (List.count c) same
      rw [List.count_append, List.count_append, List.count_cons_self, List.count_cons_self,
        List.count_eq_zero.mpr free] at total
      have free' : c ∉ a' := List.count_eq_zero.mp (by omega)
      obtain ⟨rfl, rfl⟩ := Text.split_unique free free' same
      exact ⟨runs', runs'', rfl, left, right⟩

end Fills

end Wildcard

end NetProg
