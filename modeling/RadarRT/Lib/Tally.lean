import Mathlib.Algebra.BigOperators.Group.Finset.Basic
import Mathlib.Algebra.Order.Monoid.Defs
import Mathlib.Tactic.Abel

/-!
# Totals over a family in which one member changed

The threads of a system are a function from a finite type of thread names to their program
points; a step of one thread is `Function.update`. A total over the family (a sum of weights,
a count, a multiset of what the threads hold) then changes by what that one thread contributes.
-/

namespace RadarRT.Tally

open Finset

variable {ι α M : Type*} [Fintype ι] [DecidableEq ι]

/-- The sum of `g` over the family, with member `i` moved to `v`: what `i` contributed before
and what it contributes now account for the difference. -/
theorem sum_update_add [AddCommMonoid M] (g : α → M) (f : ι → α) (i : ι) (v : α) :
    (∑ j, g (Function.update f i v j)) + g (f i) = (∑ j, g (f j)) + g v := by
  have hnew : ∑ j, g (Function.update f i v j) = g v + ∑ j ∈ univ.erase i, g (f j) := by
    rw [← add_sum_erase univ _ (mem_univ i), Function.update_self]
    congr 1
    refine sum_congr rfl ?_
    intro j hj
    rw [Function.update_of_ne (ne_of_mem_erase hj)]
  rw [hnew, ← add_sum_erase univ (fun j => g (f j)) (mem_univ i)]
  abel

/-- A move that keeps the contribution keeps the total. -/
theorem sum_update_eq [AddCommMonoid M] {g : α → M} {f : ι → α} {i : ι} {v : α}
    (h : g v = g (f i)) : ∑ j, g (Function.update f i v j) = ∑ j, g (f j) := by
  refine sum_congr rfl ?_
  intro j _
  by_cases hj : j = i
  · subst hj; rw [Function.update_self, h]
  · rw [Function.update_of_ne hj]

/-- The books `x = y + total` stay balanced when one member moves, if its own books do. -/
theorem balance_update [AddCancelCommMonoid M] {g : α → M} {f : ι → α} {i : ι} {v : α}
    {x x' y y' : M} (h : x = y + ∑ j, g (f j)) (hi : x' + (y + g (f i)) = x + (y' + g v)) :
    x' = y' + ∑ j, g (Function.update f i v j) := by
  have hsum := sum_update_add g f i v
  refine add_right_cancel (b := y + g (f i)) ?_
  calc x' + (y + g (f i)) = y + (∑ j, g (f j)) + (y' + g v) := by rw [hi, h]
    _ = y + y' + ((∑ j, g (f j)) + g v) := by abel
    _ = y' + (∑ j, g (Function.update f i v j)) + (y + g (f i)) := by
      rw [← hsum]
      abel

/-- A bound `y + total ≤ x` stays when one member moves, if its own books allow it. -/
theorem bound_update [AddCommMonoid M] [PartialOrder M] [IsOrderedCancelAddMonoid M] {g : α → M}
    {f : ι → α} {i : ι} {v : α} {x x' y y' : M} (h : y + ∑ j, g (f j) ≤ x)
    (hi : x + (y' + g v) ≤ x' + (y + g (f i))) :
    y' + ∑ j, g (Function.update f i v j) ≤ x' := by
  have hsum := sum_update_add g f i v
  refine le_of_add_le_add_right (a := x + g (f i)) ?_
  calc y' + (∑ j, g (Function.update f i v j)) + (x + g (f i))
      = x + y' + ((∑ j, g (Function.update f i v j)) + g (f i)) := by abel
    _ = x + (y' + g v) + ∑ j, g (f j) := by
      rw [hsum]
      abel
    _ ≤ x' + (y + g (f i)) + ∑ j, g (f j) := add_le_add_left hi _
    _ = x' + g (f i) + (y + ∑ j, g (f j)) := by abel
    _ ≤ x' + g (f i) + x := add_le_add_right h _
    _ = x' + (x + g (f i)) := by abel

end RadarRT.Tally
