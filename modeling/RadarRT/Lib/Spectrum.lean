import Mathlib.Algebra.Field.GeomSum
import Mathlib.Analysis.Complex.Basic
import RadarRT.Lib.Fourier

/-!
# The spectrum of a complex or real sequence

Magnitudes of the coefficients of the discrete Fourier transform over the complex numbers, for a
`z` on the unit circle: they are bounded by the magnitudes of the sequence, and for a real
sequence the coefficients `k` and `n - k` are conjugate.
-/

namespace RadarRT.DiscreteFourier

open Finset Complex
open scoped ComplexConjugate

variable {n k : ℕ} {z : ℂ}

theorem norm_dft_le (hz : ‖z‖ = 1) (u : ℕ → ℂ) (n k : ℕ) :
    ‖dft n z u k‖ ≤ ∑ j ∈ range n, ‖u j‖ := by
  unfold dft
  refine (norm_sum_le _ _).trans ?_
  refine sum_le_sum ?_
  intro j _
  rw [norm_mul, norm_pow, hz, one_pow, mul_one]

/-- The coefficients of a real sequence are symmetric up to conjugation. -/
theorem conj_dft (hz : ‖z‖ = 1) (hroot : z ^ n = 1) (u : ℕ → ℝ) (hk : k ≤ n) :
    conj (dft n z (fun j => (u j : ℂ)) k) = dft n z (fun j => (u j : ℂ)) (n - k) := by
  unfold dft
  rw [map_sum]
  refine sum_congr rfl ?_
  intro j _
  have hnorm : ‖z ^ (j * k)‖ = 1 := by
    rw [norm_pow, hz, one_pow]
  have hinv : z ^ (j * (n - k)) = (z ^ (j * k))⁻¹ := by
    refine eq_inv_of_mul_eq_one_left ?_
    rw [← pow_add, ← Nat.mul_add, Nat.sub_add_cancel hk, mul_comm, pow_mul, hroot, one_pow]
  rw [map_mul, conj_ofReal, hinv, inv_eq_conj hnorm]

theorem norm_dft_reflect (hz : ‖z‖ = 1) (hroot : z ^ n = 1) (u : ℕ → ℝ) (hk : k ≤ n) :
    ‖dft n z (fun j => (u j : ℂ)) (n - k)‖ = ‖dft n z (fun j => (u j : ℂ)) k‖ := by
  rw [← conj_dft hz hroot u hk, norm_conj]

/-- A full turn of a root of unity other than one adds up to zero. -/
theorem sum_pow_eq_zero (hroot : z ^ n = 1) (hne : z ≠ 1) : ∑ j ∈ range n, z ^ j = 0 := by
  rw [geom_sum_eq hne, hroot, sub_self, zero_div]

end RadarRT.DiscreteFourier
