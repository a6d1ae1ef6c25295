import Mathlib.Algebra.BigOperators.Group.Finset.Basic
import Mathlib.Algebra.BigOperators.Ring.Finset
import Mathlib.Tactic.Ring

/-!
# The discrete Fourier transform

`dft n z u k` is the `k`-th coefficient of the transform of `u 0, …, u (n - 1)` with respect to
`z`, in any commutative ring. The lemmas are the two facts a radix-2 algorithm rests on: a
transform of even length splits into the transforms of the even and the odd terms, and the
coefficients repeat with the length when `z` is a root of unity.
-/

namespace RadarRT.DiscreteFourier

open Finset

variable {R : Type*} [CommRing R]

def dft (n : ℕ) (z : R) (u : ℕ → R) (k : ℕ) : R := ∑ j ∈ range n, u j * z ^ (j * k)

theorem sum_range_two_mul (n : ℕ) (f : ℕ → R) :
    ∑ j ∈ range (2 * n), f j = (∑ j ∈ range n, f (2 * j)) + ∑ j ∈ range n, f (2 * j + 1) := by
  induction n with
  | zero => simp
  | succ n ih =>
    rw [Nat.mul_succ, sum_range_succ, sum_range_succ, ih, sum_range_succ, sum_range_succ]
    ring

/-- Decimation in time. -/
theorem dft_two_mul (n : ℕ) (z : R) (u : ℕ → R) (k : ℕ) :
    dft (2 * n) z u k =
      dft n (z ^ 2) (fun j => u (2 * j)) k + dft n (z ^ 2) (fun j => u (2 * j + 1)) k * z ^ k := by
  unfold dft
  rw [sum_range_two_mul, sum_mul]
  congr 1
  · refine sum_congr rfl ?_
    intro j _
    rw [← pow_mul, mul_assoc]
  · refine sum_congr rfl ?_
    intro j _
    rw [mul_assoc, ← pow_mul, ← pow_add]
    congr 2
    ring

/-- The coefficients repeat after `n` when `z ^ n = 1`. -/
theorem dft_add_period {n : ℕ} {z : R} (hz : z ^ n = 1) (u : ℕ → R) (k : ℕ) :
    dft n z u (n + k) = dft n z u k := by
  unfold dft
  refine sum_congr rfl ?_
  intro j _
  rw [mul_add, pow_add, mul_comm j n, pow_mul, hz, one_pow, one_mul]

/-- The other half of the coefficients, when `z ^ n = -1`. -/
theorem dft_two_mul_add {n : ℕ} {z : R} (hz : z ^ n = -1) (u : ℕ → R) (k : ℕ) :
    dft (2 * n) z u (n + k) =
      dft n (z ^ 2) (fun j => u (2 * j)) k - dft n (z ^ 2) (fun j => u (2 * j + 1)) k * z ^ k := by
  have hperiod : (z ^ 2) ^ n = 1 := by
    rw [← pow_mul, mul_comm, pow_mul, hz, neg_one_sq]
  rw [dft_two_mul, dft_add_period hperiod, dft_add_period hperiod, pow_add, hz]
  ring

/-- The coefficient at which `z` has become `-1` is the alternating sum. -/
theorem dft_alternating {n h : ℕ} {z : R} (hz : z ^ h = -1) (u : ℕ → R) :
    dft n z u h = ∑ j ∈ range n, u j * (-1) ^ j := by
  unfold dft
  refine sum_congr rfl ?_
  intro j _
  rw [mul_comm j h, pow_mul, hz]

end RadarRT.DiscreteFourier
