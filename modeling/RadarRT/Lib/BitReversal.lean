import Mathlib.Algebra.Group.Nat.Defs
import Mathlib.Data.Nat.Bitwise
import Mathlib.Logic.Equiv.Defs

/-!
# Bit reversal of indices

`rev m i` is the number whose `m` binary digits are those of `i` in the opposite order. The
digits of `i` can be taken off at the bottom (`rev_succ`), which is how a radix-2 transform meets
them; and adding one to `i` is a carry that starts at the top digit of `rev m i`.
-/

namespace RadarRT.BitReversal

/-- The lower `m` bits of `i` in reverse order. -/
def rev (m i : ℕ) : ℕ := (BitVec.ofNat m i).reverse.toNat

theorem rev_lt (m i : ℕ) : rev m i < 2 ^ m := BitVec.isLt _

theorem testBit_rev (m i k : ℕ) :
    (rev m i).testBit k = (decide (k < m) && i.testBit (m - 1 - k)) := by
  unfold rev
  rw [BitVec.testBit_toNat, BitVec.getLsbD_reverse, BitVec.getMsbD_eq_getLsbD,
    BitVec.getLsbD_ofNat]
  by_cases hk : k < m
  · have hlt : m - 1 - k < m := by omega
    simp [hk, hlt]
  · simp [hk]

theorem rev_rev {m i : ℕ} (h : i < 2 ^ m) : rev m (rev m i) = i := by
  unfold rev
  rw [BitVec.ofNat_toNat, BitVec.setWidth_eq, BitVec.reverse_reverse_eq, BitVec.toNat_ofNat,
    Nat.mod_eq_of_lt h]

@[simp]
theorem rev_zero_width (i : ℕ) : rev 0 i = 0 := by
  have := rev_lt 0 i
  omega

/-- The lowest digit becomes the highest. -/
theorem rev_succ (m i : ℕ) : rev (m + 1) i = 2 ^ m * (i % 2) + rev m (i / 2) := by
  refine Nat.eq_of_testBit_eq ?_
  intro k
  rw [testBit_rev, Nat.testBit_two_pow_mul_add _ (rev_lt m _), testBit_rev]
  by_cases hk : k < m
  · have hsub : m + 1 - 1 - k = m - 1 - k + 1 := by omega
    have hk' : k < m + 1 := by omega
    rw [if_pos hk, hsub, Nat.testBit_add_one]
    simp only [hk, hk', decide_true]
  · rw [if_neg hk]
    by_cases hkm : k = m
    · subst hkm
      simp
    · have hk' : ¬ k < m + 1 := by omega
      have hpos : k - m = k - m - 1 + 1 := by omega
      have hdigit : i % 2 / 2 = 0 := by omega
      rw [hpos, Nat.testBit_add_one, hdigit]
      simp [hk']

theorem rev_even (m b : ℕ) : rev (m + 1) (2 * b) = rev m b := by
  have hmod : 2 * b % 2 = 0 := by omega
  have hdiv : 2 * b / 2 = b := by omega
  rw [rev_succ, hmod, hdiv, Nat.mul_zero, Nat.zero_add]

theorem rev_odd (m b : ℕ) : rev (m + 1) (2 * b + 1) = 2 ^ m + rev m b := by
  have hmod : (2 * b + 1) % 2 = 1 := by omega
  have hdiv : (2 * b + 1) / 2 = b := by omega
  rw [rev_succ, hmod, hdiv, Nat.mul_one]

@[simp]
theorem rev_zero (m : ℕ) : rev m 0 = 0 := by
  induction m with
  | zero => exact rev_zero_width 0
  | succ m ih =>
    have := rev_even m 0
    rwa [ih] at this

/-- As a permutation of the indices of a buffer. -/
def revPerm (m : ℕ) : Equiv.Perm (Fin (2 ^ m)) where
  toFun i := ⟨rev m i, rev_lt m i⟩
  invFun i := ⟨rev m i, rev_lt m i⟩
  left_inv i := Fin.ext (rev_rev i.isLt)
  right_inv i := Fin.ext (rev_rev i.isLt)

@[simp]
theorem val_revPerm {m : ℕ} (i : Fin (2 ^ m)) : (revPerm m i).val = rev m i := rfl

@[simp]
theorem revPerm_revPerm {m : ℕ} (i : Fin (2 ^ m)) : revPerm m (revPerm m i) = i :=
  (revPerm m).left_inv i

/-! ## The digit a carry looks at -/

theorem and_two_pow_of_lt {m x : ℕ} (h : x < 2 ^ m) : x &&& 2 ^ m = 0 := by
  rw [Nat.and_two_pow, Nat.testBit_lt_two_pow h]
  simp

theorem two_pow_add_and {m x : ℕ} (h : x < 2 ^ m) : (2 ^ m + x) &&& 2 ^ m = 2 ^ m := by
  rw [Nat.and_two_pow, Nat.testBit_two_pow_add_eq, Nat.testBit_lt_two_pow h]
  simp

theorem xor_two_pow_of_lt {m x : ℕ} (h : x < 2 ^ m) : x ^^^ 2 ^ m = 2 ^ m + x := by
  have hor := Nat.two_pow_add_eq_or_of_lt h 1
  rw [Nat.mul_one] at hor
  rw [hor]
  refine Nat.eq_of_testBit_eq ?_
  intro k
  rw [Nat.testBit_xor, Nat.testBit_or, Nat.testBit_two_pow]
  by_cases hk : m = k
  · subst hk
    simp [Nat.testBit_lt_two_pow h]
  · simp [hk]

theorem two_pow_add_xor {m x : ℕ} (h : x < 2 ^ m) : (2 ^ m + x) ^^^ 2 ^ m = x := by
  rw [← xor_two_pow_of_lt h, Nat.xor_assoc, Nat.xor_self, Nat.xor_zero]

end RadarRT.BitReversal
