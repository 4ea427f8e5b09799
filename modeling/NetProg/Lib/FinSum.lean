import Mathlib.Algebra.BigOperators.Group.Finset.Basic
import Mathlib.Algebra.BigOperators.Group.Finset.Piecewise
import Mathlib.Algebra.Order.BigOperators.Group.Finset
import Mathlib.Data.Fintype.Card

/-!
# Sums with one summand in front

The accounting proofs take one summand out of a finite sum, or replace it.
-/

namespace NetProg

theorem card_sum_le {ι α : Type} [Fintype ι] (f : ι → Multiset α) (n : Nat)
    (each : ∀ i, (f i).card ≤ n) : (∑ i, f i).card ≤ Fintype.card ι * n := by
  rw [Multiset.card_sum]
  exact Finset.sum_le_card_nsmul Finset.univ _ n (fun i _ => each i)

section Whole

variable {ι M : Type} [Fintype ι] [DecidableEq ι] [AddCommMonoid M]

theorem sum_split (f : ι → M) (i : ι) : ∑ j, f j = f i + ∑ j ∈ Finset.univ.erase i, f j :=
  (Finset.add_sum_erase Finset.univ f (Finset.mem_univ i)).symm

/-- Replacing a summand leaves the others alone. -/
theorem sum_update (f : ι → M) (i : ι) (x : M) :
    ∑ j, Function.update f i x j = x + ∑ j ∈ Finset.univ.erase i, f j := by
  rw [Finset.sum_update_of_mem (Finset.mem_univ i), Finset.sdiff_singleton_eq_erase]

end Whole

variable {ι : Type} [DecidableEq ι]

/-- An amount that one summand gives to another. -/
theorem sum_move {s : Finset ι} {f f' : ι → Nat} {a c : ι} {b : Nat} (giver : a ∈ s) (taker : c ∈ s)
    (each : ∀ x ∈ s, f' x + (if x = a then b else 0) = f x + (if x = c then b else 0)) :
    ∑ x ∈ s, f' x = ∑ x ∈ s, f x := by
  have sums := Finset.sum_congr rfl each
  rw [Finset.sum_add_distrib, Finset.sum_add_distrib, Finset.sum_ite_eq' s a, if_pos giver,
    Finset.sum_ite_eq' s c, if_pos taker] at sums
  exact Nat.add_right_cancel sums

/-- An amount that one summand loses. -/
theorem sum_take {s : Finset ι} {f f' : ι → Nat} {a : ι} {b : Nat} (giver : a ∈ s)
    (each : ∀ x ∈ s, f' x + (if x = a then b else 0) = f x) :
    ∑ x ∈ s, f' x + b = ∑ x ∈ s, f x := by
  have sums := Finset.sum_congr rfl each
  rw [Finset.sum_add_distrib, Finset.sum_ite_eq' s a, if_pos giver] at sums
  exact sums

end NetProg
