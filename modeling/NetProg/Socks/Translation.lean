import NetProg.Socks.Firewall

/-!
# The loops of `convertToRegexPattern`, turn by turn

Both loops search the text they are growing.  What keeps them going forward is the position: in front
of it stands what they have rewritten, and behind it nothing has been touched yet.
-/

namespace NetProg

namespace Firewall

/-- What the two loops make of a character. -/
def substitute (x : Char) : Text :=
  if x = '.' then ['\\', '.'] else if x = '*' then ['.', '*'] else [x]

/-- The variables of a loop at its test. -/
structure Scan where
  startPos : Nat
  str : Text

namespace Scan

/-- The search that the loop tests and the body behind it
(`np_project4/socks4server/socks4_util.cpp:4-20`); `none` when nothing is found. -/
def turn (c : Char) (replacement : Char × Char) (s : Scan) : Option Scan :=
  let offset := (s.str.drop s.startPos).findIdx (· = c)
  if s.startPos + offset < s.str.length then
    some ⟨s.startPos + offset + 2,
      s.str.take (s.startPos + offset) ++ replacement.1 :: replacement.2 ::
        s.str.drop (s.startPos + offset + 1)⟩
  else none

def turns (c : Char) (replacement : Char × Char) : Nat → Scan → Option Scan
  | 0, s => some s
  | n + 1, s => (turns c replacement n s).bind (turn c replacement)

/-- The position stands behind a part of the text in which `n` characters were replaced; the rest
is as it was. -/
def Behind (c : Char) (replacement : Char × Char) (str : Text) (n : Nat) (s : Scan) : Prop :=
  ∃ done rest, str = done ++ rest ∧ done.count c = n ∧
    s = ⟨(done.flatMap (replaceChar c replacement)).length,
      done.flatMap (replaceChar c replacement) ++ rest⟩

/-- The loop over `str` ends with `result`, after one turn for each place of the character, and
stays in front of what it has not searched. -/
structure Ends (c : Char) (replacement : Char × Char) (str result : Text) : Prop where
  last : ∃ s, turns c replacement (str.count c) ⟨0, str⟩ = some s ∧ s.turn c replacement = none ∧
    s.str = result
  behind : ∀ n s, turns c replacement n ⟨0, str⟩ = some s → s.Behind c replacement str n

variable {c : Char} {replacement : Char × Char} {str : Text} {n : Nat} {s next : Scan}

/-- `replaceFrom` is the loop of these turns. -/
theorem replaceFrom_turn (s : Scan) : replaceFrom c replacement s.startPos s.str =
    (s.turn c replacement).elim s.str (fun next => replaceFrom c replacement next.startPos next.str) := by
  rw [replaceFrom, turn]
  split <;> rfl

theorem replaceFrom_turns (ran : turns c replacement n s = some next) :
    replaceFrom c replacement s.startPos s.str =
      replaceFrom c replacement next.startPos next.str := by
  induction n generalizing next with
  | zero =>
      cases ran
      rfl
  | succ n ih =>
      obtain ⟨before, ran, turned⟩ := Option.bind_eq_some_iff.mp ran
      rw [ih ran, replaceFrom_turn before, turned]
      rfl

/-- Nothing is found in a rest without the character. -/
theorem turn_none {done rest : Text} (free : c ∉ rest) :
    turn c replacement ⟨done.length, done ++ rest⟩ = none := by
  have nowhere : rest.findIdx (· = c) = rest.length :=
    List.findIdx_eq_length.mpr (fun x member => decide_eq_false (fun same => free (same ▸ member)))
  simp [turn, nowhere]

/-- The first place in the rest is replaced and passed. -/
theorem turn_some {done plain rest : Text} (free : c ∉ plain) :
    turn c replacement ⟨done.length, done ++ (plain ++ c :: rest)⟩ =
      some ⟨(done ++ (plain ++ [replacement.1, replacement.2])).length,
        done ++ (plain ++ [replacement.1, replacement.2]) ++ rest⟩ := by
  have found : (plain ++ c :: rest).findIdx (· = c) = plain.length := by
    rw [List.findIdx_append, if_neg]
    · simp [List.findIdx_cons]
    · refine Nat.not_lt.mpr (List.findIdx_eq_length.mpr ?_).ge
      exact fun x member => decide_eq_false (fun same => free (same ▸ member))
  have front : (done ++ (plain ++ c :: rest)).take (done.length + plain.length) = done ++ plain := by
    simp [← List.append_assoc, ← List.length_append]
  have behind : (done ++ (plain ++ c :: rest)).drop (done.length + plain.length + 1) = rest := by
    have whole : done ++ (plain ++ c :: rest) = done ++ plain ++ [c] ++ rest := by simp
    rw [whole]
    exact List.drop_left' (by simp [Nat.add_assoc])
  have within : done.length + plain.length < (done ++ (plain ++ c :: rest)).length := by simp
  simp only [turn, List.drop_left, found, front, behind, if_pos within]
  simp [Nat.add_assoc]

/-- One turn passes one place of the character. -/
theorem Behind.turn (h : s.Behind c replacement str n) (turned : s.turn c replacement = some next) :
    next.Behind c replacement str (n + 1) := by
  obtain ⟨done, rest, rfl, count, rfl⟩ := h
  by_cases inside : c ∈ rest
  · obtain ⟨plain, later, rfl, free⟩ := List.eq_append_cons_of_mem inside
    rw [turn_some free] at turned
    refine ⟨done ++ (plain ++ [c]), later, by simp, ?_, ?_⟩
    · simp [count, List.count_eq_zero.mpr free]
    · rw [← Option.some.inj turned]
      simp [flatMap_replaceChar free, replaceChar]
  · rw [turn_none inside] at turned
    cases turned

/-- The loop goes on as long as a place is left. -/
theorem Behind.goes_on (h : s.Behind c replacement str n) (left : n < str.count c) :
    ∃ next, s.turn c replacement = some next := by
  obtain ⟨done, rest, rfl, count, rfl⟩ := h
  have inside : c ∈ rest := by
    rw [List.count_append] at left
    exact List.count_pos_iff.mp (by omega)
  obtain ⟨plain, later, rfl, free⟩ := List.eq_append_cons_of_mem inside
  exact ⟨_, turn_some free⟩

/-- With every place passed the loop ends. -/
theorem Behind.stops (h : s.Behind c replacement str (str.count c)) :
    s.turn c replacement = none := by
  obtain ⟨done, rest, rfl, count, rfl⟩ := h
  refine turn_none (List.count_eq_zero.mp ?_)
  rw [List.count_append] at count
  omega

theorem behind (ran : turns c replacement n ⟨0, str⟩ = some s) : s.Behind c replacement str n := by
  induction n generalizing s with
  | zero =>
      cases ran
      exact ⟨[], str, rfl, rfl, rfl⟩
  | succ n ih =>
      obtain ⟨before, ran, turned⟩ := Option.bind_eq_some_iff.mp ran
      exact (ih ran).turn turned

theorem turns_some (enough : n ≤ str.count c) : ∃ s, turns c replacement n ⟨0, str⟩ = some s := by
  induction n with
  | zero => exact ⟨_, rfl⟩
  | succ n ih =>
      obtain ⟨before, ran⟩ := ih (by omega)
      obtain ⟨next, turned⟩ := (behind ran).goes_on (by omega)
      exact ⟨next, by rw [turns, ran, Option.bind_some, turned]⟩

/-- Every loop of `convertToRegexPattern` ends. -/
theorem ends (c : Char) (replacement : Char × Char) (str : Text) :
    Ends c replacement str (replaceFrom c replacement 0 str) := by
  obtain ⟨s, ran⟩ : ∃ s, turns c replacement (str.count c) ⟨0, str⟩ = some s :=
    turns_some (Nat.le_refl _)
  have ended := (behind ran).stops
  refine ⟨⟨s, ran, ended, ?_⟩, fun n s ran => behind ran⟩
  have whole := replaceFrom_turns ran
  rw [replaceFrom_turn s, ended] at whole
  exact whole.symm

end Scan

/-- What `convertToRegexPattern` does to a rule. -/
structure Translated (str : Text) : Prop where
  substituted : convertToRegexPattern str = str.flatMap substitute
  dots : Scan.Ends '.' ('\\', '.') str (replaceFrom '.' ('\\', '.') 0 str)
  stars : Scan.Ends '*' ('.', '*') (replaceFrom '.' ('\\', '.') 0 str) (convertToRegexPattern str)
  untouched : (replaceFrom '.' ('\\', '.') 0 str).count '*' = str.count '*'

theorem count_star_dots (str : Text) :
    (replaceFrom '.' ('\\', '.') 0 str).count '*' = str.count '*' := by
  rw [replaceFrom_eq _ _ _ _ (Nat.zero_le _), List.take_zero, List.drop_zero, List.nil_append]
  induction str with
  | nil => rfl
  | cons x rest ih =>
      have here : (replaceChar '.' ('\\', '.') x).count '*' = [x].count '*' := by
        by_cases dot : x = '.'
        · subst dot
          rfl
        · rw [replaceChar, if_neg dot]
      rw [List.flatMap_cons, List.count_append, here, ih, ← List.count_append, List.singleton_append]

/-- Both loops end, and together they substitute every character for itself alone. -/
theorem translated (str : Text) : Translated str := by
  refine ⟨?_, Scan.ends _ _ _, Scan.ends _ _ _, count_star_dots str⟩
  rw [convertToRegexPattern_eq, List.flatMap_map]
  congr 1
  funext x
  by_cases dot : x = '.'
  · subst dot
    rfl
  · by_cases star : x = '*'
    · subst star
      rfl
    · simp [wildcardOf, render, substitute, dot, star]

end Firewall

end NetProg
