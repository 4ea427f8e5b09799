import Mathlib.Data.List.Basic
import Mathlib.Data.List.Infix

/-!
# Find and replace

The first occurrence of a pattern in a list, and how often the pattern occurs.  Two patterns that
cannot overlap, each there once, cut a list into three parts.
-/

namespace NetProg.Find

variable {α : Type}

/-- What stands in front of the first occurrence of the pattern, and what behind it. -/
def cut [DecidableEq α] (p : List α) : List α → Option (List α × List α)
  | [] => if p = [] then some ([], []) else none
  | c :: s =>
      if p <+: c :: s then some ([], (c :: s).drop p.length)
      else (cut p s).map fun r => (c :: r.1, r.2)

/-- The list with its first occurrence of the pattern replaced. -/
def replaceFirst [DecidableEq α] (p new s : List α) : List α :=
  match cut p s with
  | none => s
  | some (before, behind) => before ++ (new ++ behind)

/-- How many occurrences begin in the list. -/
def occurrences [DecidableEq α] (p : List α) : List α → Nat
  | [] => if p = [] then 1 else 0
  | c :: s => (if p <+: c :: s then 1 else 0) + occurrences p s

/-- No occurrence begins in `x`, with `s` behind it. -/
def Free (p x s : List α) : Prop := ∀ v, v <:+ x → v ≠ [] → ¬ p <+: v ++ s

/-- No occurrence of `p` reaches into an occurrence of `mark` behind its beginning. -/
def Clear (p mark : List α) : Prop :=
  ∀ i < p.length, ¬ mark <+: p.drop i ∧ ¬ p.drop i <+: mark

instance [DecidableEq α] (p mark : List α) : Decidable (Clear p mark) := Nat.decidableBallLT _ _

/-- No proper suffix of the pattern begins it. -/
def Borderless (p : List α) : Prop := ∀ i < p.length, 0 < i → ¬ p.drop i <+: p

instance [DecidableEq α] (p : List α) : Decidable (Borderless p) := Nat.decidableBallLT _ _

section Laws

variable {p q mark x y s a b a' b' new : List α}

theorem Free.nil : Free p [] s := by
  intro v suffix nonempty
  exact absurd (List.suffix_nil.mp suffix) nonempty

theorem Free.append (first : Free p x (y ++ s)) (second : Free p y s) : Free p (x ++ y) s := by
  intro v suffix nonempty begins
  obtain ⟨u, cut⟩ := suffix
  rcases List.append_eq_append_iff.mp cut with ⟨m, rfl, rfl⟩ | ⟨m, rfl, rfl⟩
  · by_cases empty : m = []
    · subst empty
      exact second y (List.suffix_refl y) nonempty begins
    · rw [List.append_assoc] at begins
      exact first m (List.suffix_append u m) empty begins
  · exact second v (List.suffix_append m v) nonempty begins

theorem Free.left (free : Free p (x ++ y) s) : Free p x (y ++ s) := by
  intro v suffix nonempty begins
  obtain ⟨u, rfl⟩ := suffix
  rw [← List.append_assoc] at begins
  apply free (v ++ y) _ _ begins
  · exact ⟨u, (List.append_assoc u v y).symm⟩
  · exact List.append_ne_nil_of_left_ne_nil nonempty y

theorem Free.right (free : Free p (x ++ y) s) : Free p y s := by
  intro v suffix nonempty begins
  exact free v (suffix.trans (List.suffix_append x y)) nonempty begins

theorem Free.cons {c : α} (here : ¬ p <+: c :: (x ++ s)) (more : Free p x s) : Free p (c :: x) s := by
  apply Free.append (x := [c]) _ more
  intro v suffix nonempty
  rcases List.suffix_cons_iff.mp suffix with rfl | inner
  · exact here
  · exact absurd (List.suffix_nil.mp inner) nonempty

/-- A stretch whose suffixes the pattern neither begins nor extends. -/
theorem Free.closed (closed : ∀ v ∈ x.tails, v ≠ [] → ¬ p <+: v ∧ ¬ v <+: p) (s : List α) :
    Free p x s := by
  intro v suffix nonempty begins
  obtain ⟨notHere, notLonger⟩ := closed v ((List.mem_tails v x).mpr suffix) nonempty
  rcases List.prefix_or_prefix_of_prefix begins (List.prefix_append v s) with here | longer
  · exact notHere here
  · exact notLonger longer

/-- An occurrence that cannot reach into the mark ends in front of it. -/
theorem Clear.within (clear : Clear p mark) (begins : p <+: x ++ (mark ++ s)) : p <+: x := by
  rcases List.prefix_or_prefix_of_prefix begins (List.prefix_append x (mark ++ s)) with here | longer
  · exact here
  · obtain ⟨w, rfl⟩ := longer
    cases w with
    | nil =>
        rw [List.append_nil]
    | cons c w =>
        have inner : c :: w <+: mark ++ s := (List.prefix_append_right_inj x).mp begins
        have behind : (x ++ c :: w).drop x.length = c :: w := List.drop_left
        obtain ⟨notMark, notPattern⟩ := clear x.length (by simp)
        rw [behind] at notMark notPattern
        rcases List.prefix_or_prefix_of_prefix inner (List.prefix_append mark s) with short | long
        · exact absurd short notPattern
        · exact absurd long notMark

/-- A stretch is free in front of an occurrence whatever stands behind that. -/
theorem Free.behind (free : Free p x (p ++ s)) (t : List α) : Free p x (p ++ t) := by
  intro v suffix nonempty begins
  have inner : p <+: v ++ p := by
    apply List.prefix_of_prefix_length_le begins
    · rw [← List.append_assoc]
      exact List.prefix_append _ t
    · rw [List.length_append]
      exact Nat.le_add_left _ _
  apply free v suffix nonempty
  rw [← List.append_assoc]
  exact inner.trans (List.prefix_append _ s)

/-- An occurrence in front of another one ends there. -/
theorem Borderless.within (borderless : Borderless p) (nonempty : x ≠ [])
    (begins : p <+: x ++ (p ++ s)) : p <+: x := by
  rcases List.prefix_or_prefix_of_prefix begins (List.prefix_append x (p ++ s)) with here | longer
  · exact here
  · obtain ⟨w, whole⟩ := longer
    by_cases empty : w = []
    · rw [empty, List.append_nil] at whole
      rw [whole]
    · have behind : p.drop x.length = w := by rw [← whole, List.drop_left]
      have long : 0 < w.length := List.length_pos_iff.mpr empty
      have sizes := congrArg List.length whole
      rw [List.length_append] at sizes
      rw [← whole, List.append_assoc, List.prefix_append_right_inj] at begins
      have border : w <+: p := by
        apply List.prefix_of_prefix_length_le begins _ (by omega)
        rw [← List.append_assoc, whole]
        exact List.prefix_append p s
      apply absurd border
      rw [← behind]
      exact borderless x.length (by omega) (List.length_pos_iff.mpr nonempty)

/-- A stretch free in front of one text is free in front of a mark. -/
theorem Clear.free (clear : Clear p mark) (free : Free p x y) (s : List α) :
    Free p x (mark ++ s) := by
  intro v suffix nonempty begins
  exact free v suffix nonempty ((clear.within begins).trans (List.prefix_append v y))

/-- Two patterns that cannot overlap stand one behind the other. -/
theorem apart (clear : Clear p q) (clear' : Clear q p) (first : s = a ++ (p ++ b))
    (second : s = a' ++ (q ++ b')) :
    (∃ m, a' = a ++ (p ++ m) ∧ b = m ++ (q ++ b')) ∨ (∃ m, a = a' ++ (q ++ m) ∧ b' = m ++ (p ++ b)) := by
  subst first
  rcases List.append_eq_append_iff.mp second with ⟨u, same, rest⟩ | ⟨u, same, rest⟩
  · left
    have begins : p <+: u ++ (q ++ b') := rest ▸ List.prefix_append p b
    obtain ⟨m, rfl⟩ := clear.within begins
    refine ⟨m, same, ?_⟩
    rw [List.append_assoc] at rest
    exact List.append_cancel_left rest
  · right
    have begins : q <+: u ++ (p ++ b) := rest ▸ List.prefix_append q b'
    obtain ⟨m, rfl⟩ := clear'.within begins
    refine ⟨m, same, ?_⟩
    rw [List.append_assoc] at rest
    exact List.append_cancel_left rest

variable [DecidableEq α]

theorem cut_free (free : Free p x s) :
    cut p (x ++ s) = (cut p s).map fun r => (x ++ r.1, r.2) := by
  induction x with
  | nil => simp
  | cons c x ih =>
      have here : ¬ p <+: c :: (x ++ s) := free (c :: x) (List.suffix_refl _) (by simp)
      have inner : Free p x s := Free.right (x := [c]) free
      rw [List.cons_append, cut, if_neg here, ih inner, Option.map_map]
      rfl

theorem cut_here (p s : List α) : cut p (p ++ s) = some ([], s) := by
  cases p with
  | nil => cases s <;> simp [cut]
  | cons c p =>
      have here : c :: p <+: c :: (p ++ s) := List.prefix_append (c :: p) s
      rw [List.cons_append, cut, if_pos here]
      simp

theorem cut_eq (free : Free p x (p ++ s)) : cut p (x ++ (p ++ s)) = some (x, s) := by
  rw [cut_free free, cut_here, Option.map_some, List.append_nil]

/-- What is cut is the first occurrence. -/
theorem cut_some (found : cut p s = some (a, b)) : s = a ++ (p ++ b) ∧ Free p a (p ++ b) := by
  induction s generalizing a with
  | nil =>
      rw [cut] at found
      split at found
      · rename_i empty
        cases found
        exact ⟨by rw [empty]; rfl, .nil⟩
      · cases found
  | cons c s ih =>
      rw [cut] at found
      split at found
      · rename_i here
        cases found
        exact ⟨(List.prefix_iff_eq_append.mp here).symm, .nil⟩
      · rename_i notHere
        obtain ⟨r, inner, same⟩ := Option.map_eq_some_iff.mp found
        cases same
        obtain ⟨whole, free⟩ := ih inner
        refine ⟨congrArg (c :: ·) whole, .cons ?_ free⟩
        rw [← whole]
        exact notHere

theorem cut_none (missing : cut p s = none) : ¬ p <:+: s := by
  induction s with
  | nil =>
      rw [cut] at missing
      split at missing
      · cases missing
      · rename_i nonempty
        exact fun within => nonempty (List.infix_nil.mp within)
  | cons c s ih =>
      rw [cut] at missing
      split at missing
      · cases missing
      · rename_i notHere
        intro within
        rcases List.infix_cons_iff.mp within with here | inner
        · exact notHere here
        · exact ih (Option.map_eq_none_iff.mp missing) inner

theorem exists_cut (within : p <:+: s) : ∃ a b, cut p s = some (a, b) := by
  cases found : cut p s with
  | none => exact absurd within (cut_none found)
  | some r => exact ⟨r.1, r.2, rfl⟩

theorem replaceFirst_eq (free : Free p x (p ++ s)) (new : List α) :
    replaceFirst p new (x ++ (p ++ s)) = x ++ (new ++ s) := by
  rw [replaceFirst, cut_eq free]

/-- Whatever comes first, the length is known. -/
theorem length_replaceFirst (within : p <:+: s) (new : List α) :
    (replaceFirst p new s).length + p.length = s.length + new.length := by
  obtain ⟨a, b, found⟩ := exists_cut within
  rw [replaceFirst, found, (cut_some found).1]
  simp only [List.length_append]
  omega

/-- The first occurrence is the one that is there, or lies in front of it. -/
theorem cut_front (borderless : Borderless p) (found : cut p (x ++ (p ++ s)) = some (a, b)) :
    (a = x ∧ b = s) ∨ ∃ y, x = a ++ (p ++ y) ∧ b = y ++ (p ++ s) := by
  obtain ⟨whole, free⟩ := cut_some found
  rcases List.append_eq_append_iff.mp whole with ⟨m, rfl, rest⟩ | ⟨m, rfl, rest⟩
  · by_cases empty : m = []
    · subst empty
      exact .inl ⟨List.append_nil x, (List.append_cancel_left rest).symm⟩
    · have begins : p <+: m ++ (p ++ b) := rest ▸ List.prefix_append p s
      exact absurd begins (free m (List.suffix_append x m) empty)
  · by_cases empty : m = []
    · subst empty
      exact .inl ⟨(List.append_nil a).symm, List.append_cancel_left rest⟩
    · have begins : p <+: m ++ (p ++ s) := rest ▸ List.prefix_append p b
      obtain ⟨y, rfl⟩ := borderless.within empty begins
      rw [List.append_assoc] at rest
      exact .inr ⟨y, rfl, List.append_cancel_left rest⟩

/-- Taking out the first occurrence takes out the one that is there, if what stands in front of it
holds none, or one at its very end. -/
theorem remove_iff (borderless : Borderless p) (nonempty : p ≠ [])
    (once : ∀ a b, x ≠ a ++ (p ++ (p ++ b))) :
    replaceFirst p [] (x ++ (p ++ s)) = x ++ s ↔ ∀ a b, x = a ++ (p ++ b) → b = [] := by
  obtain ⟨a, b, found⟩ := exists_cut (List.infix_append x p s)
  rw [List.append_assoc] at found
  rw [replaceFirst, found]
  constructor
  · intro same a' b' place
    obtain ⟨-, free⟩ := cut_some found
    rcases cut_front borderless found with ⟨rfl, rfl⟩ | ⟨y, rfl, rfl⟩
    · have begins : p <+: (p ++ b') ++ (p ++ b) := by
        rw [List.append_assoc]
        exact List.prefix_append p _
      have suffix : p ++ b' <:+ a := place ▸ List.suffix_append a' (p ++ b')
      exact absurd begins (free _ suffix (List.append_ne_nil_of_left_ne_nil nonempty b'))
    · have swap : y ++ p = p ++ y := by
        simp only [List.nil_append, List.append_assoc, List.append_cancel_left_eq] at same
        rw [← List.append_assoc, ← List.append_assoc] at same
        exact List.append_cancel_right same
      have none : y = [] := by
        by_contra some
        have begins : p <+: y ++ (p ++ []) := by
          rw [List.append_nil, swap]
          exact List.prefix_append p y
        obtain ⟨z, rfl⟩ := borderless.within some begins
        exact once a z rfl
      subst none
      rw [List.append_nil] at place
      rcases List.append_eq_append_iff.mp place with ⟨m, rfl, rest⟩ | ⟨m, rfl, rest⟩
      · have sizes := congrArg List.length rest
        simp only [List.length_append] at sizes
        exact List.length_eq_zero_iff.mp (by omega)
      · by_cases empty : m = []
        · subst empty
          exact List.append_right_eq_self.mp rest
        · apply absurd _ (free m (List.suffix_append a' m) empty)
          rw [← List.append_assoc, ← rest, List.append_assoc]
          exact List.prefix_append p _
  · intro last
    rcases cut_front borderless found with ⟨rfl, rfl⟩ | ⟨y, rfl, rfl⟩
    · rfl
    · obtain rfl := last a y rfl
      simp only [List.nil_append, List.append_nil, List.append_assoc]

theorem occurrences_pos (whole : s = a ++ (p ++ b)) : 1 ≤ occurrences p s := by
  induction a generalizing s with
  | nil =>
      cases s with
      | nil =>
          have empty : p = [] := (List.append_eq_nil_iff.mp (List.append_eq_nil_iff.mp whole.symm).2).1
          rw [occurrences, if_pos empty]
      | cons c s =>
          have here : p <+: c :: s := whole ▸ List.prefix_append p b
          rw [occurrences, if_pos here]
          exact Nat.le_add_right 1 _
  | cons c a ih =>
      subst whole
      exact (ih rfl).trans (Nat.le_add_left _ _)

theorem infix_of_occurrences (once : occurrences p s ≠ 0) : p <:+: s := by
  induction s with
  | nil =>
      rw [occurrences] at once
      split at once
      · rename_i empty
        rw [empty]
      · exact absurd rfl once
  | cons c s ih =>
      by_cases here : p <+: c :: s
      · exact here.isInfix
      · rw [occurrences, if_neg here, Nat.zero_add] at once
        exact (ih once).trans (List.suffix_cons c s).isInfix

theorem exists_once (once : occurrences p s = 1) : ∃ a b, s = a ++ (p ++ b) := by
  obtain ⟨a, b, whole⟩ := infix_of_occurrences (once ▸ Nat.one_ne_zero)
  exact ⟨a, b, by rw [← whole, List.append_assoc]⟩

/-- A pattern that occurs once occurs in one place. -/
theorem once_unique (once : occurrences p s = 1) (first : s = a ++ (p ++ b))
    (second : s = a' ++ (p ++ b')) : a = a' := by
  have begins : ∀ {c : α} {s a b : List α}, occurrences p (c :: s) = 1 → p <+: c :: s →
      s = a ++ (p ++ b) → False := by
    intro c s a b once here later
    rw [occurrences, if_pos here] at once
    have := occurrences_pos later
    omega
  induction a generalizing s a' with
  | nil =>
      cases a' with
      | nil => rfl
      | cons c a' =>
          subst second
          have here : p <+: c :: (a' ++ (p ++ b')) := ⟨b, first.symm⟩
          exact (begins once here rfl).elim
  | cons c a ih =>
      cases a' with
      | nil =>
          subst first
          have here : p <+: c :: (a ++ (p ++ b)) := ⟨b', second.symm⟩
          exact (begins once here rfl).elim
      | cons d a' =>
          subst first
          obtain ⟨rfl, inner⟩ := List.cons.inj second
          have notHere : ¬ p <+: c :: (a ++ (p ++ b)) := fun here => begins once here rfl
          have less : occurrences p (a ++ (p ++ b)) = 1 := by
            rw [List.cons_append, occurrences, if_neg notHere, Nat.zero_add] at once
            exact once
          rw [ih less rfl inner]

theorem once_free (once : occurrences p s = 1) (whole : s = a ++ (p ++ b)) : Free p a (p ++ b) := by
  intro v suffix nonempty begins
  obtain ⟨u, rfl⟩ := suffix
  obtain ⟨r, more⟩ := begins
  have again : s = u ++ (p ++ r) := by
    rw [whole, List.append_assoc, more]
  have same := once_unique once whole again
  exact nonempty (List.append_right_eq_self.mp same)

end Laws

end NetProg.Find
