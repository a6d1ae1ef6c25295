import Mathlib.Data.List.Nodup
import RadarRT.Lib.BitReversal
import RadarRT.Lib.InPlace

/-!
# The bit-reversal loop of `FFT::apply`

The first loop of `fft.cpp`. It advances the reversed counter `j` by a carry from the top bit
down, and swaps `data[i]` with `data[j]` when `i < j`. The size `n` of the buffer is a parameter
(the program has 256); sizes and indices are natural numbers, since every value the loop computes
stays below `n`.

The swaps made so far are recorded beside the buffer.
-/

namespace RadarRT.FFT

open InPlace BitReversal

variable {α : Type} {n m : ℕ}

/-! ## The loop -/

/-- The state of the outer loop. -/
structure Reversal (n : ℕ) (α : Type) where
  j : ℕ
  data : Fin n → α
  /-- The pairs of indices swapped so far. -/
  swaps : List (ℕ × ℕ)

/-- `(j & bit) != 0`, on the pair of `j` and `bit`. -/
def carryTest (p : ℕ × ℕ) : Bool := decide (p.1 &&& p.2 ≠ 0)

/-- `j ^= bit; bit >>= 1`. -/
def carryRound (p : ℕ × ℕ) : Option (ℕ × ℕ) := some (p.1 ^^^ p.2, p.2 >>> 1)

/-- The inner loop, with `j` and `bit` at its end. A zero `bit` ends it, so `bit` rounds are
enough. -/
def carryLoop (j bit : ℕ) : Option (ℕ × ℕ) := whileLoop carryTest carryRound bit (j, bit)

/-- The body of the outer loop, at `i`. -/
def reversalRound (i : ℕ) (r : Reversal n α) : Option (Reversal n α) := do
  let (j, bit) ← carryLoop r.j (n >>> 1)
  let j := j ^^^ bit
  if i < j then
    let data ← swap r.data i j
    some { j := j, data := data, swaps := r.swaps ++ [(i, j)] }
  else
    some { r with j := j }

/-- The outer loop up to `limit`, which is `n` in the source. -/
def reversalLoop (limit : ℕ) (data : Fin n → α) : Option (Reversal n α) :=
  forLt limit (· + 1) reversalRound 1 { j := 0, data := data, swaps := [] }

/-- The whole loop. -/
def bitReversal (data : Fin n → α) : Option (Fin n → α) :=
  (reversalLoop n data).map Reversal.data

/-! ## The carry -/

/-- Nothing is carried past a clear bit. -/
theorem carry_clear {j m fuel : ℕ} (h : j < 2 ^ m) :
    whileLoop carryTest carryRound fuel (j, 2 ^ m) = some (j, 2 ^ m) := by
  refine whileLoop_done ?_
  simp [carryTest, and_two_pow_of_lt h]

/-- A set bit is cleared, and the carry goes on at the next one. -/
theorem carry_set {j m fuel : ℕ} (h : j < 2 ^ (m + 1)) :
    whileLoop carryTest carryRound (fuel + 1) (2 ^ (m + 1) + j, 2 ^ (m + 1)) =
      whileLoop carryTest carryRound fuel (j, 2 ^ m) := by
  have hshift : 2 ^ (m + 1) >>> 1 = 2 ^ m := by
    rw [Nat.shiftRight_one, pow_succ, Nat.mul_div_cancel _ (by decide)]
  have htest : carryTest (2 ^ (m + 1) + j, 2 ^ (m + 1)) = true := by
    simp [carryTest, two_pow_add_and h]
  have hround : carryRound (2 ^ (m + 1) + j, 2 ^ (m + 1)) = some (j, 2 ^ m) := by
    simp [carryRound, two_pow_add_xor h, hshift]
  rw [whileLoop_step htest hround]

/-- Counting up: the carry runs down the set bits of the reversed counter and stops at the first
clear one, which the statement after the loop sets. -/
theorem carry_rounds {m i fuel : ℕ} (hi : i + 1 < 2 ^ (m + 1)) (hfuel : m ≤ fuel) :
    ∃ j bit, whileLoop carryTest carryRound fuel (rev (m + 1) i, 2 ^ m) = some (j, bit) ∧
      1 ≤ bit ∧ j < 2 ^ (m + 1) ∧ j ^^^ bit = rev (m + 1) (i + 1) := by
  induction m generalizing i fuel with
  | zero =>
    have hi0 : i = 0 := by omega
    subst hi0
    refine ⟨0, 1, ?_, le_rfl, by decide, by decide⟩
    rw [rev_zero]
    exact carry_clear (by decide)
  | succ m ih =>
    have hpow : 2 ^ (m + 1 + 1) = 2 ^ (m + 1) * 2 := pow_succ 2 (m + 1)
    obtain ⟨b, hb | hb⟩ : ∃ b, i = 2 * b ∨ i = 2 * b + 1 := ⟨i / 2, by omega⟩
    · -- the top bit is clear: nothing to carry
      subst hb
      have hlt := rev_lt (m + 1) b
      refine ⟨rev (m + 1) b, 2 ^ (m + 1), ?_, Nat.one_le_two_pow, by omega, ?_⟩
      · rw [rev_even]
        exact carry_clear hlt
      · rw [xor_two_pow_of_lt hlt, rev_odd]
    · -- the top bit is set: what remains is the reversed counter `b`, one bit shorter
      subst hb
      obtain ⟨fuel, rfl⟩ : ∃ f, fuel = f + 1 := ⟨fuel - 1, by omega⟩
      have hb : b + 1 < 2 ^ (m + 1) := by omega
      have hfuel' : m ≤ fuel := by omega
      obtain ⟨j, bit, hrun, hbit, hj, hxor⟩ := ih hb hfuel'
      refine ⟨j, bit, ?_, hbit, by omega, ?_⟩
      · rw [rev_odd, carry_set (rev_lt (m + 1) b), hrun]
      · have hsucc : 2 * b + 1 + 1 = 2 * (b + 1) := by omega
        rw [hxor, hsucc, rev_even]

/-- From the reversal of `i` to the reversal of `i + 1`, in a buffer of `2 ^ m` cells. -/
theorem carryLoop_spec {m i : ℕ} (hi : i + 1 < 2 ^ m) :
    ∃ j bit, carryLoop (rev m i) (2 ^ m >>> 1) = some (j, bit) ∧
      1 ≤ bit ∧ j < 2 ^ m ∧ j ^^^ bit = rev m (i + 1) := by
  cases m with
  | zero => omega
  | succ m =>
    have hshift : 2 ^ (m + 1) >>> 1 = 2 ^ m := by
      rw [Nat.shiftRight_one, pow_succ, Nat.mul_div_cancel _ (by decide)]
    rw [hshift]
    exact carry_rounds hi Nat.lt_two_pow_self.le

/-! ## The swaps -/

/-- Where the cell `k` gets its value from once the loop has reached `i`: a pair is exchanged
when the loop passes its smaller index. -/
def sourceAt (i : ℕ) (k : Fin (2 ^ m)) : Fin (2 ^ m) :=
  if min k.val (rev m k) < i then revPerm m k else k

theorem sourceAt_one (k : Fin (2 ^ m)) : sourceAt 1 k = k := by
  unfold sourceAt
  split
  · -- only the index zero has a reversal or itself below one
    next h =>
    have hzero : k.val = 0 ∨ rev m k = 0 := by omega
    have hk : k.val = 0 := by
      rcases hzero with hk | hrev
      · exact hk
      · have hback := rev_rev k.isLt
        rw [hrev, rev_zero] at hback
        exact hback.symm
    refine Fin.ext ?_
    rw [val_revPerm, hk, rev_zero]
  · rfl

theorem sourceAt_all (k : Fin (2 ^ m)) : sourceAt (2 ^ m) k = revPerm m k := by
  have hlt : min k.val (rev m k) < 2 ^ m := lt_of_le_of_lt (min_le_left _ _) k.isLt
  rw [sourceAt, if_pos hlt]

/-- The round that swaps `i` with its reversal. -/
theorem sourceAt_swap {i : ℕ} (hi : i < 2 ^ m) (hlt : i < rev m i) (k : Fin (2 ^ m)) :
    sourceAt i (Equiv.swap ⟨i, hi⟩ ⟨rev m i, rev_lt m i⟩ k) = sourceAt (i + 1) k := by
  have hback := rev_rev hi
  rw [Equiv.swap_apply_def]
  split
  · next hk =>
    subst hk
    have hlater : ¬ min (rev m i) (rev m (rev m i)) < i := by omega
    have hnow : min i (rev m i) < i + 1 := by omega
    simp only [sourceAt, if_neg hlater, if_pos hnow]
    rfl
  · split
    · next _ hk =>
      subst hk
      have hlater : ¬ min i (rev m i) < i := by omega
      have hnow : min (rev m i) (rev m (rev m i)) < i + 1 := by omega
      simp only [sourceAt, if_neg hlater, if_pos hnow]
      exact Fin.ext hback.symm
    · next hki hkj =>
      -- neither index of `k`'s pair is `i`
      have hk : k.val ≠ i := fun h => hki (Fin.ext h)
      have hrev : rev m k ≠ i := by
        intro h
        have hkback := rev_rev k.isLt
        rw [h] at hkback
        exact hkj (Fin.ext hkback.symm)
      have hiff : min k.val (rev m k) < i ↔ min k.val (rev m k) < i + 1 := by omega
      simp only [sourceAt, hiff]

/-- The round that finds nothing to swap. -/
theorem sourceAt_skip {i : ℕ} (hle : rev m i ≤ i) (k : Fin (2 ^ m)) :
    sourceAt i k = sourceAt (i + 1) k := by
  by_cases hmin : min k.val (rev m k) = i
  · -- then `i` is its own reversal, and `k` is `i`
    have hk : k.val = i := by
      rcases Nat.le_total k.val (rev m k) with h | h
      · omega
      · have hrev : rev m k = i := by omega
        have hback := rev_rev k.isLt
        rw [hrev] at hback
        omega
    have hfix : revPerm m k = k := by
      refine Fin.ext ?_
      rw [val_revPerm, hk]
      rw [hk] at hmin
      omega
    simp only [sourceAt, hfix, ite_self]
  · have hiff : min k.val (rev m k) < i ↔ min k.val (rev m k) < i + 1 := by omega
    simp only [sourceAt, hiff]

/-! ## The outer loop -/

/-- The swaps of the rounds below `i`. -/
def swapsBelow (m i : ℕ) : List (ℕ × ℕ) :=
  ((List.range i).filter fun a => decide (a < rev m a)).map fun a => (a, rev m a)

theorem swapsBelow_succ (m i : ℕ) :
    swapsBelow m (i + 1) = swapsBelow m i ++ if i < rev m i then [(i, rev m i)] else [] := by
  unfold swapsBelow
  rw [List.range_succ, List.filter_append, List.map_append]
  by_cases h : i < rev m i <;> simp [h]

/-- The state of the loop when it reaches `i`, with the initial contents `data`. -/
structure ReversalAt (data : Fin (2 ^ m) → α) (i : ℕ) (r : Reversal (2 ^ m) α) : Prop where
  j : r.j = rev m (i - 1)
  data : ∀ k, r.data k = data (sourceAt i k)
  swaps : r.swaps = swapsBelow m i

theorem reversalRound_spec {data : Fin (2 ^ m) → α} {i : ℕ} {r : Reversal (2 ^ m) α}
    (hpos : 1 ≤ i) (hi : i < 2 ^ m) (hr : ReversalAt data i r) :
    ∃ r', reversalRound i r = some r' ∧ ReversalAt data (i + 1) r' := by
  have hlt : i - 1 + 1 < 2 ^ m := by omega
  obtain ⟨j, bit, hrun, -, -, hxor⟩ := carryLoop_spec hlt
  rw [Nat.sub_add_cancel hpos] at hxor
  unfold reversalRound
  simp only [hr.j, hrun, Option.bind_eq_bind, Option.bind_some, hxor]
  by_cases hswap : i < rev m i
  · rw [if_pos hswap, swap_eq r.data hi (rev_lt m i), Option.bind_some]
    refine ⟨_, rfl, rfl, ?_, ?_⟩
    · intro k
      show r.data _ = _
      rw [hr.data, sourceAt_swap hi hswap]
    · show r.swaps ++ _ = _
      rw [hr.swaps, swapsBelow_succ, if_pos hswap]
  · rw [if_neg hswap]
    refine ⟨_, rfl, rfl, ?_, ?_⟩
    · intro k
      show r.data k = _
      rw [hr.data, sourceAt_skip (Nat.le_of_not_lt hswap)]
    · show r.swaps = _
      rw [hr.swaps, swapsBelow_succ, if_neg hswap, List.append_nil]

theorem reversalLoop_succ (data : Fin n → α) {i : ℕ} (hpos : 1 ≤ i) :
    reversalLoop (i + 1) data = (reversalLoop i data).bind (reversalRound i) :=
  forLt_succ_limit _ hpos

/-- Every prefix of the loop, by induction on the counter. -/
theorem reversalLoop_spec (data : Fin (2 ^ m) → α) {i : ℕ} (hpos : 1 ≤ i) (hi : i ≤ 2 ^ m) :
    ∃ r, reversalLoop i data = some r ∧ ReversalAt data i r := by
  induction i, hpos using Nat.le_induction with
  | base =>
    refine ⟨_, rfl, ?_, ?_, ?_⟩
    · show 0 = rev m 0
      rw [rev_zero]
    · intro k
      rw [sourceAt_one]
    · rw [swapsBelow_succ, rev_zero]
      rfl
  | succ i hpos ih =>
    obtain ⟨r, hrun, hr⟩ := ih (by omega)
    obtain ⟨r', hround, hr'⟩ := reversalRound_spec hpos hi hr
    refine ⟨r', ?_, hr'⟩
    rw [reversalLoop_succ data hpos, hrun, Option.bind_some, hround]

theorem bitReversal_eq (data : Fin (2 ^ m) → α) :
    bitReversal data = some fun k => data (revPerm m k) := by
  obtain ⟨r, hrun, hr⟩ := reversalLoop_spec data Nat.one_le_two_pow le_rfl
  rw [bitReversal, hrun, Option.map_some]
  congr 1
  funext k
  rw [hr.data, sourceAt_all]

/-- Each pair of an index and its reversal is recorded once, smaller index first. -/
theorem nodup_swapsBelow (m i : ℕ) : (swapsBelow m i).Nodup := by
  refine List.Nodup.map ?_ (List.nodup_range.filter _)
  intro a b hab
  exact congrArg Prod.fst hab

theorem mem_swapsBelow {a b : ℕ} :
    (a, b) ∈ swapsBelow m (2 ^ m) ↔ a < b ∧ b < 2 ^ m ∧ rev m a = b := by
  simp only [swapsBelow, List.mem_map, List.mem_filter, List.mem_range, decide_eq_true_eq,
    Prod.mk.injEq]
  constructor
  · rintro ⟨c, ⟨-, hlt⟩, rfl, rfl⟩
    exact ⟨hlt, rev_lt m c, rfl⟩
  · rintro ⟨hlt, hb, rfl⟩
    exact ⟨a, ⟨by omega, hlt⟩, rfl, rfl⟩

/-- For every size `2 ^ m` and every buffer: at each `i` the carry stops at a bit, with the
reversed counter in range and equal to the reversal of `i` once that bit is set, and the loop goes
on; at its end the buffer is permuted by bit reversal, each pair having been swapped exactly once;
and a second run restores the buffer. -/
theorem bit_reversal_loop (m : ℕ) (data : Fin (2 ^ m) → α) :
    (∀ i, 1 ≤ i → i < 2 ^ m → ∃ r j bit,
      reversalLoop i data = some r ∧ carryLoop r.j (2 ^ m >>> 1) = some (j, bit) ∧
      1 ≤ bit ∧ j < 2 ^ m ∧ j ^^^ bit = rev m i ∧ j ^^^ bit < 2 ^ m ∧
      reversalLoop (i + 1) data = reversalRound i r) ∧
    (∃ r, reversalLoop (2 ^ m) data = some r ∧ (∀ i, r.data i = data (revPerm m i)) ∧
      r.swaps.Nodup ∧ ∀ a b, (a, b) ∈ r.swaps ↔ a < b ∧ b < 2 ^ m ∧ rev m a = b) ∧
    bitReversal data = some (fun i => data (revPerm m i)) ∧
    (bitReversal data).bind bitReversal = some data := by
  refine ⟨?_, ?_, bitReversal_eq data, ?_⟩
  · intro i hpos hi
    obtain ⟨r, hrun, hr⟩ := reversalLoop_spec data hpos hi.le
    have hlt : i - 1 + 1 < 2 ^ m := by omega
    obtain ⟨j, bit, hcarry, hbit, hj, hxor⟩ := carryLoop_spec hlt
    rw [Nat.sub_add_cancel hpos] at hxor
    refine ⟨r, j, bit, hrun, by rw [hr.j, hcarry], hbit, hj, hxor, ?_, ?_⟩
    · rw [hxor]
      exact rev_lt m i
    · rw [reversalLoop_succ data hpos, hrun, Option.bind_some]
  · obtain ⟨r, hrun, hr⟩ := reversalLoop_spec data Nat.one_le_two_pow le_rfl
    refine ⟨r, hrun, ?_, ?_, ?_⟩
    · intro i
      rw [hr.data, sourceAt_all]
    · rw [hr.swaps]
      exact nodup_swapsBelow m _
    · intro a b
      rw [hr.swaps]
      exact mem_swapsBelow
  · rw [bitReversal_eq, Option.bind_some, bitReversal_eq]
    simp only [revPerm_revPerm]

/-- The order in which a buffer of eight cells is left. -/
example : (bitReversal (fun i : Fin (2 ^ 3) => i.val)).map List.ofFn =
    some [0, 4, 2, 6, 1, 5, 3, 7] := by
  decide

end RadarRT.FFT
