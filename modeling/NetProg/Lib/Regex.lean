import Mathlib.Computability.RegularExpressions

/-!
# Regular expressions over characters

The constructions that a pattern is written with, as regular expressions, and the words that
each of them matches.
-/

namespace NetProg

namespace Regex

variable {α : Type}

/-- A fixed word. -/
def literal : List α → RegularExpression α
  | [] => 1
  | a :: word => .char a * literal word

/-- One of the letters of a list. -/
def oneOf : List α → RegularExpression α
  | [] => 0
  | a :: letters => .char a + oneOf letters

/-- At most `n` words of an expression. -/
def upTo : Nat → RegularExpression α → RegularExpression α
  | 0, _ => 1
  | n + 1, r => 1 + r * upTo n r

theorem mem_literal (word x : List α) : x ∈ (literal word).matches' ↔ x = word := by
  induction word generalizing x with
  | nil => exact Language.mem_one x
  | cons a word ih =>
      rw [literal, RegularExpression.matches'_mul, Language.mem_mul]
      constructor
      · rintro ⟨first, single, later, rest, rfl⟩
        rw [(ih later).mp rest, Set.mem_singleton_iff.mp single]
        rfl
      · intro same
        exact ⟨[a], rfl, word, (ih word).mpr rfl, same.symm⟩

theorem mem_oneOf (letters x : List α) :
    x ∈ (oneOf letters).matches' ↔ ∃ a ∈ letters, x = [a] := by
  induction letters with
  | nil => simp [oneOf]
  | cons a letters ih =>
      rw [oneOf, RegularExpression.matches'_add, Language.mem_add, ih]
      constructor
      · intro either
        rcases either with single | ⟨b, member, same⟩
        · exact ⟨a, List.mem_cons_self, Set.mem_singleton_iff.mp single⟩
        · exact ⟨b, List.mem_cons_of_mem _ member, same⟩
      · intro found
        obtain ⟨b, member, same⟩ := found
        rcases List.mem_cons.mp member with rfl | member
        · exact Or.inl (Set.mem_singleton_iff.mpr same)
        · exact Or.inr ⟨b, member, same⟩

/-- At most `n` letters of a list. -/
theorem mem_upTo_oneOf (n : Nat) (letters x : List α) :
    x ∈ (upTo n (oneOf letters)).matches' ↔ x.length ≤ n ∧ ∀ a ∈ x, a ∈ letters := by
  induction n generalizing x with
  | zero =>
      rw [upTo, RegularExpression.matches'_epsilon, Language.mem_one]
      constructor
      · intro empty
        simp [empty]
      · intro short
        exact List.length_eq_zero_iff.mp (Nat.le_zero.mp short.1)
  | succ n ih =>
      rw [upTo, RegularExpression.matches'_add, RegularExpression.matches'_mul, Language.mem_add,
        Language.mem_mul]
      constructor
      · intro either
        rcases either with empty | ⟨first, single, later, rest, rfl⟩
        · rw [(Language.mem_one x).mp empty]
          simp
        · obtain ⟨a, member, rfl⟩ := (mem_oneOf letters first).mp single
          obtain ⟨short, all⟩ := (ih later).mp rest
          constructor
          · simpa using short
          · simpa using ⟨member, all⟩
      · intro both
        obtain ⟨short, all⟩ := both
        cases x with
        | nil => exact Or.inl rfl
        | cons a later =>
            have shorter : later.length ≤ n := by simpa using short
            have member := all a List.mem_cons_self
            have others : ∀ b ∈ later, b ∈ letters := fun b inside =>
              all b (List.mem_cons_of_mem _ inside)
            exact Or.inr ⟨[a], (mem_oneOf letters [a]).mpr ⟨a, member, rfl⟩, later,
              (ih later).mpr ⟨shorter, others⟩, rfl⟩

end Regex

end NetProg
