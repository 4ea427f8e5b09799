import Mathlib.Data.List.TakeWhile

/-!
# Patterns with groups and back references

A matcher that backtracks, and the search for the leftmost match, for patterns that are sequences of
characters, captured characters, captured stretches of a class and references to what was captured.
A stretch is taken as long as possible, and shorter if the rest does not match.
-/

namespace NetProg.Pattern

/-- A part of a pattern over a class of characters. -/
inductive Part where
  | char (p : Char → Bool)
  | group (p : Char → Bool)
  | stretch (p : Char → Bool)
  /-- The group with this number once more; one that has not matched is empty. -/
  | back (group : Nat)

/-- The first success among `n`, `n - 1`, ..., `0`. -/
def firstDown {β : Type} (f : Nat → Option β) : Nat → Option β
  | 0 => f 0
  | n + 1 => (f (n + 1)).orElse fun _ => firstDown f n

/-- A match at the beginning of the text: the groups, and what is behind it. -/
def exec : List Part → List (List Char) → List Char → Option (List (List Char) × List Char)
  | [], groups, s => some (groups, s)
  | .char _ :: _, _, [] => none
  | .char p :: parts, groups, c :: s => if p c then exec parts groups s else none
  | .group _ :: _, _, [] => none
  | .group p :: parts, groups, c :: s => if p c then exec parts (groups ++ [[c]]) s else none
  | .stretch p :: parts, groups, s =>
      firstDown (fun n => exec parts (groups ++ [s.take n]) (s.drop n)) (s.takeWhile p).length
  | .back n :: parts, groups, s =>
      let again := (groups[n]?).getD []
      if again.isPrefixOf s then exec parts groups (s.drop again.length) else none

/-- The leftmost match. -/
def search (parts : List Part) : List Char → Option (List (List Char) × List Char)
  | [] => exec parts [] []
  | c :: s => (exec parts [] (c :: s)).orElse fun _ => search parts s

/-- The literal text as parts. -/
def literal (text : List Char) : List Part := text.map fun c => .char (· == c)

section Laws

variable {parts : List Part} {groups : List (List Char)} {p : Char → Bool} {x rest s : List Char}
  {r : List (List Char) × List Char}

theorem firstDown_last {β : Type} {f : Nat → Option β} {n : Nat} {value : β} (ok : f n = some value) :
    firstDown f n = some value := by
  cases n with
  | zero => exact ok
  | succ n => rw [firstDown, ok, Option.orElse_some]

theorem firstDown_some {β : Type} {f : Nat → Option β} {n : Nat} {value : β}
    (ok : firstDown f n = some value) : ∃ m, m ≤ n ∧ f m = some value := by
  induction n with
  | zero => exact ⟨0, Nat.le_refl _, ok⟩
  | succ n ih =>
      rw [firstDown] at ok
      cases first : f (n + 1) with
      | some other =>
          rw [first, Option.orElse_some] at ok
          exact ⟨n + 1, Nat.le_refl _, first.trans ok⟩
      | none =>
          rw [first, Option.orElse_none] at ok
          obtain ⟨m, small, found⟩ := ih ok
          exact ⟨m, Nat.le_succ_of_le small, found⟩

theorem exec_char (c : Char) (s : List Char) :
    exec (.char p :: parts) groups (c :: s) = if p c then exec parts groups s else none := rfl

theorem exec_literal (text : List Char) (s : List Char) :
    exec (literal text ++ parts) groups (text ++ s) = exec parts groups s := by
  induction text with
  | nil => rfl
  | cons c text ih =>
      show exec (.char (· == c) :: (literal text ++ parts)) groups (c :: (text ++ s)) = _
      rw [exec_char, if_pos (beq_self_eq_true c), ih]

/-- A match of a literal begins with it. -/
theorem exec_literal_some {text : List Char} (ok : exec (literal text ++ parts) groups s = some r) :
    text <+: s := by
  induction text generalizing s with
  | nil => exact List.nil_prefix
  | cons c text ih =>
      cases s with
      | nil => cases ok
      | cons d s =>
          have step : exec (literal (c :: text) ++ parts) groups (d :: s) =
              if d == c then exec (literal text ++ parts) groups s else none := rfl
          rw [step] at ok
          split at ok
          · rename_i same
            rw [beq_iff_eq.mp same]
            exact List.cons_prefix_cons.mpr ⟨rfl, ih ok⟩
          · cases ok

/-- A match of a literal, and the match of the rest behind it. -/
theorem exec_literal_rest {text : List Char} (ok : exec (literal text ++ parts) groups s = some r) :
    ∃ y, s = text ++ y ∧ exec parts groups y = some r := by
  obtain ⟨y, rfl⟩ := exec_literal_some ok
  exact ⟨y, rfl, (exec_literal text y).symm.trans ok⟩

/-- The last stretch of a pattern takes all it can. -/
theorem exec_stretch_last (groups : List (List Char)) (s : List Char) :
    exec [.stretch p] groups s = some (groups ++ [s.takeWhile p], s.dropWhile p) := by
  have front : s.take (s.takeWhile p).length = s.takeWhile p :=
    (List.prefix_iff_eq_take.mp (List.takeWhile_prefix p)).symm
  have back : s.drop (s.takeWhile p).length = s.dropWhile p := by
    have halves := List.take_append_drop (s.takeWhile p).length s
    rw [front] at halves
    exact List.append_cancel_left (halves.trans List.takeWhile_append_dropWhile.symm)
  rw [exec]
  apply firstDown_last
  rw [exec, front, back]

/-- The longest stretch, if the rest matches behind it. -/
theorem exec_stretch (all : ∀ c ∈ x, p c = true) (stops : ∀ c ∈ rest.head?, p c = false)
    (ok : exec parts (groups ++ [x]) rest = some r) :
    exec (.stretch p :: parts) groups (x ++ rest) = some r := by
  have run : (x ++ rest).takeWhile p = x := by
    rw [List.takeWhile_append_of_pos all]
    cases rest with
    | nil => exact List.append_nil x
    | cons c rest =>
        have no : ¬ p c = true := by simp [stops c rfl]
        rw [List.takeWhile_cons_of_neg no, List.append_nil]
  rw [exec, run]
  apply firstDown_last
  rw [List.take_left, List.drop_left, ok]

/-- A match of a stretch ends somewhere in front of what the stretch leaves out. -/
theorem exec_stretch_some (ok : exec (.stretch p :: parts) groups s = some r) :
    ∃ x y, s = x ++ y ∧ (∀ c ∈ x, p c = true) ∧ exec parts (groups ++ [x]) y = some r := by
  rw [exec] at ok
  obtain ⟨n, short, found⟩ := firstDown_some ok
  refine ⟨s.take n, s.drop n, (List.take_append_drop n s).symm, ?_, found⟩
  intro c member
  have inside : s.take n <+: s.takeWhile p :=
    List.prefix_of_prefix_length_le (List.take_prefix n s) (List.takeWhile_prefix p)
      ((List.length_take_le n s).trans short)
  exact List.mem_takeWhile_imp (inside.subset member)

end Laws

/-- A match needs `key` behind the first separator, and something in front of it. -/
def Needs (parts : List Part) (sep : Char) (key : List Char) : Prop :=
  ∀ s r, exec parts [] s = some r → ∃ x y, s = x ++ sep :: y ∧ x ≠ [] ∧ sep ∉ x ∧ key <+: y

section Search

variable {parts : List Part} {sep : Char} {key x y s : List Char}
  {r : List (List Char) × List Char}

theorem search_here (ok : exec parts [] s = some r) : search parts s = some r := by
  cases s with
  | nil => exact ok
  | cons c s => rw [search, ok, Option.orElse_some]

theorem dropWhile_cut (noSep : sep ∉ x) : (x ++ sep :: y).dropWhile (· != sep) = sep :: y := by
  have all : ∀ c ∈ x, (c != sep) = true := fun c member => bne_iff_ne.mpr fun same =>
    noSep (same ▸ member)
  rw [List.dropWhile_append_of_pos all, List.dropWhile_cons_of_neg (by simp)]

/-- A stretch without a separator is passed if something else than `key` is behind it. -/
theorem search_skip (needs : Needs parts sep key) (noSep : sep ∉ x) (other : ¬ key <+: y) :
    search parts (x ++ sep :: y) = search parts y := by
  have fails : ∀ x, sep ∉ x → exec parts [] (x ++ sep :: y) = none := by
    intro x noSep
    cases ended : exec parts [] (x ++ sep :: y) with
    | none => rfl
    | some r =>
        obtain ⟨x', y', same, -, noSep', found⟩ := needs _ _ ended
        have rest := congrArg (List.dropWhile (· != sep)) same
        rw [dropWhile_cut noSep, dropWhile_cut noSep'] at rest
        exact absurd ((List.cons.inj rest).2 ▸ found) other
  induction x with
  | nil =>
      have here : exec parts [] (sep :: y) = none := fails [] noSep
      rw [List.nil_append, search, here, Option.orElse_none]
  | cons c x ih =>
      have inner : sep ∉ x := fun member => noSep (List.mem_cons_of_mem c member)
      rw [List.cons_append, search, ← List.cons_append, fails _ noSep, Option.orElse_none, ih inner]

/-- Nothing is found without a separator. -/
theorem search_none (needs : Needs parts sep key) (noSep : sep ∉ s) : search parts s = none := by
  have fails : ∀ s, sep ∉ s → exec parts [] s = none := by
    intro s noSep
    cases ended : exec parts [] s with
    | none => rfl
    | some r =>
        obtain ⟨x, y, rfl, -⟩ := needs _ _ ended
        exact absurd (List.mem_append_right x List.mem_cons_self) noSep
  induction s with
  | nil => exact fails [] noSep
  | cons c s ih =>
      rw [search, fails _ noSep, Option.orElse_none]
      exact ih fun member => noSep (List.mem_cons_of_mem c member)

/-- What is found is the match that begins first. -/
theorem search_some (found : search parts s = some r) : ∃ x y, s = x ++ y ∧ exec parts [] y = some r ∧
    ∀ x' y', s = x' ++ y' → x'.length < x.length → exec parts [] y' = none := by
  induction s with
  | nil => exact ⟨[], [], rfl, found, fun _ _ _ less => absurd less (Nat.not_lt_zero _)⟩
  | cons c s ih =>
      rw [search] at found
      cases here : exec parts [] (c :: s) with
      | some r' =>
          rw [here, Option.orElse_some] at found
          exact ⟨[], c :: s, rfl, here.trans found, fun _ _ _ less => absurd less (Nat.not_lt_zero _)⟩
      | none =>
          rw [here, Option.orElse_none] at found
          obtain ⟨x, y, rfl, ok, first⟩ := ih found
          refine ⟨c :: x, y, rfl, ok, ?_⟩
          intro x' y' same less
          cases x' with
          | nil =>
              rw [← here, same]
              rfl
          | cons d x' =>
              exact first x' y' (List.cons.inj same).2 (Nat.lt_of_succ_lt_succ less)

/-- The match that begins first is found. -/
theorem search_first (ok : exec parts [] y = some r)
    (first : ∀ x' y', x ++ y = x' ++ y' → x'.length < x.length → exec parts [] y' = none) :
    search parts (x ++ y) = some r := by
  induction x with
  | nil => exact search_here ok
  | cons c x ih =>
      have here : exec parts [] (c :: (x ++ y)) = none := first [] _ rfl (Nat.succ_pos _)
      rw [List.cons_append, search, here, Option.orElse_none]
      exact ih fun x' y' same less => first (c :: x') y' (congrArg (c :: ·) same) (Nat.succ_lt_succ less)

/-- Something is found if there is a match somewhere. -/
theorem search_ne_none (ok : exec parts [] y = some r) (x : List Char) :
    search parts (x ++ y) ≠ none := by
  induction x with
  | nil => simp [search_here ok]
  | cons c x ih =>
      rw [List.cons_append, search]
      cases exec parts [] (c :: (x ++ y)) with
      | some r' => simp
      | none => exact ih

end Search

end NetProg.Pattern
