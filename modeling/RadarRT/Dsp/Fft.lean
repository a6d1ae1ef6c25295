import Mathlib.Algebra.BigOperators.Fin
import Mathlib.Data.ZMod.Defs
import RadarRT.Dsp.BitReversal
import RadarRT.Lib.Fourier

/-!
# The butterfly loops of `FFT::apply`

The second loop nest of `fft.cpp`: stages of length `len = 2, 4, …, n`, blocks at `base`, and
butterflies at `k` with the running twiddle factor `w`. The arithmetic is that of any type with
the operations of `std::complex`; the root of each stage, which the program computes from
`std::cos` and `std::sin`, is the parameter `wLen`.

Over a commutative ring the two loop nests together compute the discrete Fourier transform
(`fft_computes_dft`).
-/

namespace RadarRT.FFT

open InPlace BitReversal DiscreteFourier

/-! ## The loops -/

section
variable {R : Type} [Add R] [Sub R] [Mul R] [One R] {n : ℕ}

/-- The body of the innermost loop, on `w` and the buffer. -/
def butterfly (len : ℕ) (wLen : R) (base k : ℕ) (s : R × (Fin n → R)) :
    Option (R × (Fin n → R)) := do
  let even ← read s.2 (base + k)
  let odd ← (read s.2 (base + k + len / 2)).map (· * s.1)
  let data ← write s.2 (base + k) (even + odd)
  let data ← write data (base + k + len / 2) (even - odd)
  some (s.1 * wLen, data)

/-- The block of `len` cells at `base`. -/
def block (len : ℕ) (wLen : R) (base : ℕ) (data : Fin n → R) : Option (Fin n → R) :=
  (forLt (len / 2) (· + 1) (butterfly len wLen base) 0 (1, data)).map Prod.snd

/-- The stage of length `len`. -/
def stage (wLen : ℕ → R) (len : ℕ) (data : Fin n → R) : Option (Fin n → R) :=
  forLt n (· + len) (block len (wLen len)) 0 data

/-- `for (len = 2; len <= n; len <<= 1)`. -/
def stages (wLen : ℕ → R) (data : Fin n → R) : Option (Fin n → R) :=
  forLt (n + 1) (· <<< 1) (stage wLen) 2 data

/-- Both loop nests, in place. -/
def transform (wLen : ℕ → R) (data : Fin n → R) : Option (Fin n → R) := do
  let data ← bitReversal data
  stages wLen data

end

variable {R : Type} [CommRing R] {n m : ℕ}

/-! ## One block -/

/-- What the block at `base`, with halves of `h` cells, leaves in the cell `i`. -/
def crossed (h : ℕ) (z : R) (base : ℕ) (d : ℕ → R) (i : ℕ) : R :=
  if i < base + h then d i + d (i + h) * z ^ (i - base)
  else d (i - h) - d i * z ^ (i - h - base)

/-- The buffer after `k` butterflies of that block: the first `k` cells of each half are done. -/
def blockAt (h : ℕ) (z : R) (base : ℕ) (d : ℕ → R) (k i : ℕ) : R :=
  if (base ≤ i ∧ i < base + k) ∨ (base + h ≤ i ∧ i < base + h + k) then crossed h z base d i
  else d i

theorem butterfly_spec {h base k : ℕ} {z : R} {d : ℕ → R} {data : Fin n → R} (hk : k < h)
    (hn : base + 2 * h ≤ n) (hd : Holds data (blockAt h z base d k)) :
    ∃ data', butterfly (2 * h) z base k (z ^ k, data) = some (z ^ (k + 1), data') ∧
      Holds data' (blockAt h z base d (k + 1)) := by
  have hlo : base + k < n := by omega
  have hhi : base + k + h < n := by omega
  have hhalf : 2 * h / 2 = h := by omega
  -- neither of the two cells has been touched
  have hreadlo : blockAt h z base d k (base + k) = d (base + k) := by
    rw [blockAt, if_neg (by omega)]
  have hreadhi : blockAt h z base d k (base + k + h) = d (base + k + h) := by
    rw [blockAt, if_neg (by omega)]
  obtain ⟨data₁, hwrite₁, hd₁⟩ := hd.write hlo (d (base + k) + d (base + k + h) * z ^ k)
  obtain ⟨data₂, hwrite₂, hd₂⟩ := hd₁.write hhi (d (base + k) - d (base + k + h) * z ^ k)
  refine ⟨data₂, ?_, hd₂.congr ?_⟩
  · simp only [butterfly, hhalf, hd.read hlo, hd.read hhi, hreadlo, hreadhi, Option.map_some,
      Option.bind_eq_bind, Option.bind_some, hwrite₁, hwrite₂, pow_succ]
  · intro i _
    by_cases hihi : i = base + k + h
    · have hdone : (base ≤ i ∧ i < base + (k + 1)) ∨
          (base + h ≤ i ∧ i < base + h + (k + 1)) := by omega
      have hupper : ¬ i < base + h := by omega
      have hlow : i - h = base + k := by omega
      have hpow : i - h - base = k := by omega
      rw [hihi, Function.update_self, ← hihi, blockAt, if_pos hdone, crossed, if_neg hupper, hpow,
        hlow]
    · rw [Function.update_of_ne hihi]
      by_cases hilo : i = base + k
      · have hdone : (base ≤ i ∧ i < base + (k + 1)) ∨
            (base + h ≤ i ∧ i < base + h + (k + 1)) := by omega
        have hlower : i < base + h := by omega
        have hpow : i - base = k := by omega
        rw [hilo, Function.update_self, ← hilo, blockAt, if_pos hdone, crossed, if_pos hlower,
          hpow]
      · -- the cells that were done stay done, and no other is
        have hiff : ((base ≤ i ∧ i < base + k) ∨ (base + h ≤ i ∧ i < base + h + k)) ↔
            ((base ≤ i ∧ i < base + (k + 1)) ∨ (base + h ≤ i ∧ i < base + h + (k + 1))) := by
          omega
        rw [Function.update_of_ne hilo]
        simp only [blockAt, hiff]

/-- The running factor `w` is `z ^ k` after `k` butterflies. -/
structure BlockAt (h : ℕ) (z : R) (base : ℕ) (d : ℕ → R) (k : ℕ) (s : R × (Fin n → R)) :
    Prop where
  le : k ≤ h
  factor : s.1 = z ^ k
  holds : Holds s.2 (blockAt h z base d k)

theorem block_spec {h base : ℕ} {z : R} {d : ℕ → R} {data : Fin n → R} (hn : base + 2 * h ≤ n)
    (hd : Holds data d) :
    ∃ data', block (2 * h) z base data = some data' ∧
      Holds data' fun i => if base ≤ i ∧ i < base + 2 * h then crossed h z base d i else d i := by
  have hstart : BlockAt h z base d 0 (1, data) := by
    refine ⟨Nat.zero_le h, (pow_zero z).symm, hd.congr ?_⟩
    intro i _
    rw [blockAt, if_neg (by omega)]
  have hround : ∀ k (s : R × (Fin n → R)), k < h → BlockAt h z base d k s →
      k < k + 1 ∧ ∃ s', butterfly (2 * h) z base k s = some s' ∧
        BlockAt h z base d (k + 1) s' := by
    rintro k ⟨w, data⟩ hk ⟨-, hw, hdata⟩
    obtain ⟨data', hrun, hd'⟩ := butterfly_spec hk hn hdata
    refine ⟨Nat.lt_succ_self k, (z ^ (k + 1), data'), ?_, hk, rfl, hd'⟩
    rw [show w = z ^ k from hw, hrun]
  obtain ⟨k, s, hrun, hk, hs⟩ := forLt_total hround hstart
  have hkh : k = h := le_antisymm hs.le hk
  refine ⟨s.2, ?_, hs.holds.congr ?_⟩
  · have hhalf : 2 * h / 2 = h := by omega
    rw [block, hhalf, hrun]
    rfl
  · intro i _
    have hiff : ((base ≤ i ∧ i < base + k) ∨ (base + h ≤ i ∧ i < base + h + k)) ↔
        (base ≤ i ∧ i < base + 2 * h) := by omega
    simp only [blockAt, hiff]

/-! ## One stage -/

/-- What a stage of length `2 * h` leaves in the cell `i`. -/
def staged (h : ℕ) (z : R) (d : ℕ → R) (i : ℕ) : R := crossed h z (i / (2 * h) * (2 * h)) d i

theorem div_mul_eq_start {l q i : ℕ} (hlo : l * q ≤ i) (hhi : i < l * q + l) :
    i / l * l = l * q := by
  have hpos : 0 < l := by omega
  have hdiv : i / l = q := by
    rw [Nat.div_eq_iff hpos, mul_comm q l]
    omega
  rw [hdiv, mul_comm]

/-- A block reads only its own cells. -/
theorem crossed_congr {h base i : ℕ} {z : R} {d d' : ℕ → R}
    (hd : ∀ j, base ≤ j → j < base + 2 * h → d j = d' j) (hlo : base ≤ i)
    (hhi : i < base + 2 * h) : crossed h z base d i = crossed h z base d' i := by
  unfold crossed
  split
  · rw [hd i hlo hhi, hd (i + h) (by omega) (by omega)]
  · rw [hd i hlo hhi, hd (i - h) (by omega) (by omega)]

/-- The stage when it has reached the block at `base`. -/
structure StageAt (h : ℕ) (z : R) (d : ℕ → R) (base : ℕ) (data : Fin n → R) : Prop where
  dvd : 2 * h ∣ base
  holds : Holds data fun i => if i < base then staged h z d i else d i

theorem stage_round {h base : ℕ} {z : R} {d : ℕ → R} {data : Fin n → R} (hn : 2 * h ∣ n)
    (hbase : base < n) (hs : StageAt h z d base data) :
    ∃ data', block (2 * h) z base data = some data' ∧ StageAt h z d (base + 2 * h) data' := by
  obtain ⟨⟨q, rfl⟩, hdata⟩ := hs
  obtain ⟨p, rfl⟩ := hn
  have hq : q < p := Nat.lt_of_mul_lt_mul_left hbase
  have hle : 2 * h * q + 2 * h ≤ 2 * h * p := by
    calc 2 * h * q + 2 * h = 2 * h * (q + 1) := by ring
      _ ≤ 2 * h * p := Nat.mul_le_mul_left _ hq
  obtain ⟨data', hrun, hd'⟩ := block_spec hle hdata
  refine ⟨data', hrun, ⟨q + 1, by ring⟩, hd'.congr ?_⟩
  intro i _
  by_cases hin : 2 * h * q ≤ i ∧ i < 2 * h * q + 2 * h
  · obtain ⟨hlo, hhi⟩ := hin
    rw [if_pos ⟨hlo, hhi⟩, if_pos hhi, staged, div_mul_eq_start hlo hhi]
    refine crossed_congr ?_ hlo hhi
    -- the buffer still holds `d` from `base` on
    intro j hj _
    rw [if_neg (by omega)]
  · have hiff : i < 2 * h * q ↔ i < 2 * h * q + 2 * h := by omega
    simp only [if_neg hin, hiff]

theorem stage_spec (wLen : ℕ → R) {h : ℕ} {d : ℕ → R} {data : Fin n → R} (hh : 0 < h)
    (hn : 2 * h ∣ n) (hd : Holds data d) :
    ∃ data', stage wLen (2 * h) data = some data' ∧
      Holds data' (staged h (wLen (2 * h)) d) := by
  have hstart : StageAt h (wLen (2 * h)) d 0 data := by
    refine ⟨dvd_zero _, hd.congr ?_⟩
    intro i _
    rw [if_neg (Nat.not_lt_zero i)]
  have hround : ∀ base (data : Fin n → R), base < n → StageAt h (wLen (2 * h)) d base data →
      base < base + 2 * h ∧ ∃ data', block (2 * h) (wLen (2 * h)) base data = some data' ∧
        StageAt h (wLen (2 * h)) d (base + 2 * h) data' := by
    intro base data hbase hs
    exact ⟨by omega, stage_round hn hbase hs⟩
  obtain ⟨base, data', hrun, hbase, hs⟩ := forLt_total hround hstart
  refine ⟨data', hrun, hs.holds.congr ?_⟩
  intro i hi
  rw [if_pos (by omega)]

/-! ## The stages compute the transform -/

/-- The buffer before the stage of length `2 ^ (s + 1)`: in each block of `2 ^ s` cells, the
transform of the terms of `x` whose last binary digits, read backwards, number the block. -/
def level (ω : R) (x : ℕ → R) (m s i : ℕ) : R :=
  dft (2 ^ s) (ω ^ 2 ^ (m - s)) (fun j => x (rev (m - s) (i / 2 ^ s) + 2 ^ (m - s) * j))
    (i % 2 ^ s)

/-- The level at an index given by its block and its place in the block. -/
theorem level_apply (ω : R) (x : ℕ → R) (m s b : ℕ) {r : ℕ} (hr : r < 2 ^ s) :
    level ω x m s (2 ^ s * b + r) =
      dft (2 ^ s) (ω ^ 2 ^ (m - s)) (fun j => x (rev (m - s) b + 2 ^ (m - s) * j)) r := by
  have hdiv : (2 ^ s * b + r) / 2 ^ s = b := by
    rw [Nat.mul_add_div (Nat.two_pow_pos s), Nat.div_eq_of_lt hr, Nat.add_zero]
  have hmod : (2 ^ s * b + r) % 2 ^ s = r := by
    rw [Nat.mul_add_mod, Nat.mod_eq_of_lt hr]
  rw [level, hdiv, hmod]

/-- The first half of a block of the next level: the even terms. -/
theorem level_even (ω : R) (x : ℕ → R) (s p b : ℕ) {t : ℕ} (ht : t < 2 ^ s) :
    level ω x (s + 1 + p) s (2 ^ (s + 1) * b + t) =
      dft (2 ^ s) (ω ^ 2 ^ (p + 1)) (fun j => x (rev p b + 2 ^ p * (2 * j))) t := by
  have hp : s + 1 + p - s = p + 1 := by omega
  have hidx : 2 ^ (s + 1) * b + t = 2 ^ s * (2 * b) + t := by ring
  rw [hidx, level_apply ω x _ s (2 * b) ht, hp, rev_even]
  congr 1
  funext j
  congr 1
  ring

/-- The second half of a block of the next level: the odd terms. -/
theorem level_odd (ω : R) (x : ℕ → R) (s p b : ℕ) {t : ℕ} (ht : t < 2 ^ s) :
    level ω x (s + 1 + p) s (2 ^ (s + 1) * b + 2 ^ s + t) =
      dft (2 ^ s) (ω ^ 2 ^ (p + 1)) (fun j => x (rev p b + 2 ^ p * (2 * j + 1))) t := by
  have hp : s + 1 + p - s = p + 1 := by omega
  have hidx : 2 ^ (s + 1) * b + 2 ^ s + t = 2 ^ s * (2 * b + 1) + t := by ring
  rw [hidx, level_apply ω x _ s (2 * b + 1) ht, hp, rev_odd]
  congr 1
  funext j
  congr 1
  ring

/-- One stage goes one level up: the even and the odd terms of a block are the two blocks it
consists of. -/
theorem staged_level {ω : R} {s p : ℕ} (hω : ω ^ (2 ^ (s + p)) = -1) (x : ℕ → R) (i : ℕ) :
    staged (2 ^ s) (ω ^ 2 ^ p) (level ω x (s + 1 + p) s) i =
      level ω x (s + 1 + p) (s + 1) i := by
  obtain ⟨b, r, hr, rfl⟩ : ∃ b r, r < 2 ^ (s + 1) ∧ i = 2 ^ (s + 1) * b + r :=
    ⟨i / 2 ^ (s + 1), i % 2 ^ (s + 1), Nat.mod_lt _ (Nat.two_pow_pos _),
      (Nat.div_add_mod _ _).symm⟩
  have hpow : 2 ^ (s + 1) = 2 * 2 ^ s := pow_succ' 2 s
  have hp : s + 1 + p - (s + 1) = p := by omega
  have hbase : (2 ^ (s + 1) * b + r) / (2 * 2 ^ s) * (2 * 2 ^ s) = 2 ^ (s + 1) * b := by
    rw [← hpow]
    exact div_mul_eq_start (Nat.le_add_right _ _) (by omega)
  have hroot : (ω ^ 2 ^ p) ^ 2 ^ s = -1 := by
    rw [← pow_mul, ← pow_add, Nat.add_comm p s, hω]
  have hsquare : (ω ^ 2 ^ p) ^ 2 = ω ^ 2 ^ (p + 1) := by
    rw [← pow_mul, ← pow_succ]
  rw [staged, hbase, level_apply ω x _ (s + 1) b hr, hp, hpow, crossed]
  by_cases hlow : r < 2 ^ s
  · have hlt : 2 * 2 ^ s * b + r < 2 * 2 ^ s * b + 2 ^ s := by omega
    have hk : 2 * 2 ^ s * b + r - 2 * 2 ^ s * b = r := by omega
    have hpair : 2 * 2 ^ s * b + r + 2 ^ s = 2 * 2 ^ s * b + 2 ^ s + r := by omega
    rw [if_pos hlt, hk, hpair, ← hpow, level_even ω x s p b hlow, level_odd ω x s p b hlow, hpow,
      dft_two_mul, hsquare]
  · obtain ⟨t, rfl⟩ : ∃ t, r = 2 ^ s + t := ⟨r - 2 ^ s, by omega⟩
    have ht : t < 2 ^ s := by omega
    have hge : ¬ 2 * 2 ^ s * b + (2 ^ s + t) < 2 * 2 ^ s * b + 2 ^ s := by omega
    have hpair : 2 * 2 ^ s * b + (2 ^ s + t) - 2 ^ s = 2 * 2 ^ s * b + t := by omega
    have hk : 2 * 2 ^ s * b + t - 2 * 2 ^ s * b = t := by omega
    rw [if_neg hge, hpair, hk, ← Nat.add_assoc, ← hpow, level_even ω x s p b ht,
      level_odd ω x s p b ht, hpow, dft_two_mul_add hroot, hsquare]

/-- The stages when they have reached the length `len`. -/
def StagesAt (ω : R) (x : ℕ → R) (m len : ℕ) (data : Fin (2 ^ m) → R) : Prop :=
  ∃ s, s ≤ m ∧ len = 2 ^ (s + 1) ∧ Holds data (level ω x m s)

theorem stages_round {ω : R} {wLen : ℕ → R} {x : ℕ → R} {len : ℕ} {data : Fin (2 ^ m) → R}
    (hω : m ≠ 0 → ω ^ (2 ^ m / 2) = -1)
    (hw : ∀ s, s + 1 ≤ m → wLen (2 ^ (s + 1)) = ω ^ (2 ^ m / 2 ^ (s + 1)))
    (hlen : len < 2 ^ m + 1) (hs : StagesAt ω x m len data) :
    ∃ data', stage wLen len data = some data' ∧ StagesAt ω x m (len <<< 1) data' := by
  obtain ⟨s, -, rfl, hdata⟩ := hs
  have hsm : s + 1 ≤ m := (Nat.pow_le_pow_iff_right (by decide)).mp (Nat.lt_succ_iff.mp hlen)
  obtain ⟨p, rfl⟩ : ∃ p, m = s + 1 + p := ⟨m - (s + 1), by omega⟩
  have hpow : 2 ^ (s + 1) = 2 * 2 ^ s := pow_succ' 2 s
  have hroot : ω ^ 2 ^ (s + p) = -1 := by
    have hhalf : 2 ^ (s + 1 + p) / 2 = 2 ^ (s + p) := by
      rw [show s + 1 + p = s + p + 1 by omega, pow_succ, Nat.mul_div_cancel _ (by decide)]
    rw [← hhalf]
    exact hω (by omega)
  have hquot : 2 ^ (s + 1 + p) / 2 ^ (s + 1) = 2 ^ p := by
    rw [pow_add, Nat.mul_div_cancel_left _ (Nat.two_pow_pos _)]
  have hdvd : 2 * 2 ^ s ∣ 2 ^ (s + 1 + p) := by
    rw [← hpow]
    exact pow_dvd_pow 2 (by omega)
  obtain ⟨data', hrun, hd'⟩ := stage_spec wLen (Nat.two_pow_pos s) hdvd hdata
  rw [← hpow] at hrun
  refine ⟨data', hrun, s + 1, hsm, ?_, hd'.congr ?_⟩
  · rw [Nat.shiftLeft_eq, pow_one, ← pow_succ]
  · intro i _
    rw [← hpow, hw s hsm, hquot, staged_level hroot]

theorem stages_spec {ω : R} {wLen : ℕ → R} {x : ℕ → R} {data : Fin (2 ^ m) → R}
    (hω : m ≠ 0 → ω ^ (2 ^ m / 2) = -1)
    (hw : ∀ s, s + 1 ≤ m → wLen (2 ^ (s + 1)) = ω ^ (2 ^ m / 2 ^ (s + 1)))
    (hd : Holds data (level ω x m 0)) :
    ∃ data', stages wLen data = some data' ∧ Holds data' (level ω x m m) := by
  have hround : ∀ len (data : Fin (2 ^ m) → R), len < 2 ^ m + 1 → StagesAt ω x m len data →
      len < len <<< 1 ∧ ∃ data', stage wLen len data = some data' ∧
        StagesAt ω x m (len <<< 1) data' := by
    intro len data hlen hs
    refine ⟨?_, stages_round hω hw hlen hs⟩
    obtain ⟨s, -, rfl, -⟩ := hs
    have hpos := Nat.two_pow_pos (s + 1)
    rw [Nat.shiftLeft_eq]
    omega
  obtain ⟨len, data', hrun, hlen, s, hsm, rfl, hd'⟩ := forLt_total hround
    (show StagesAt ω x m 2 data from ⟨0, Nat.zero_le m, rfl, hd⟩)
  -- the loop is left at a length beyond `n`, so all levels are done
  have hms : m < s + 1 := (Nat.pow_lt_pow_iff_right (by decide)).mp (Nat.lt_of_succ_le hlen)
  have hs : s = m := by omega
  exact ⟨data', hrun, hs ▸ hd'⟩

/-- The whole transform, for stage roots that are powers of one `ω` at the lengths in use. -/
theorem transform_eq_dft {ω : R} {wLen : ℕ → R} (hω : m ≠ 0 → ω ^ (2 ^ m / 2) = -1)
    (hw : ∀ s, s + 1 ≤ m → wLen (2 ^ (s + 1)) = ω ^ (2 ^ m / 2 ^ (s + 1)))
    (x : Fin (2 ^ m) → R) :
    transform wLen x = some fun k => dft (2 ^ m) ω (extend x) k.val := by
  have hstart : Holds (fun k => x (revPerm m k)) (level ω (extend x) m 0) := by
    intro i
    simp [level, dft, extend_of_lt x (rev_lt m i), revPerm]
  obtain ⟨data', hrun, hd'⟩ := stages_spec hω hw hstart
  rw [transform, bitReversal_eq, Option.bind_eq_bind, Option.bind_some, hrun]
  congr 1
  funext k
  rw [hd' k, level, Nat.sub_self, pow_zero, pow_one, Nat.mod_eq_of_lt k.isLt]
  simp

/-- For every size `2 ^ m`, every `ω` with `ω ^ (n / 2) = -1` and every buffer, the two loop
nests, with the stage roots `ω ^ (n / len)`, leave the discrete Fourier transform. -/
theorem fft_computes_dft (m : ℕ) (ω : R) (hω : m ≠ 0 → ω ^ (2 ^ m / 2) = -1)
    (x : Fin (2 ^ m) → R) :
    transform (fun len => ω ^ (2 ^ m / len)) x =
      some fun k => ∑ j : Fin (2 ^ m), x j * ω ^ (j.val * k.val) := by
  rw [transform_eq_dft hω (fun _ _ => rfl)]
  congr 1
  funext k
  rw [dft, ← Fin.sum_univ_eq_sum_range (fun j => extend x j * ω ^ (j * k.val))]
  simp only [extend_val]

/-- Four cells over the integers modulo 17, in which `4 ^ 2 = -1`. -/
theorem fft_computes_dft_mod_seventeen :
    ∃ data, transform (fun len => (4 : ZMod 17) ^ (2 ^ 2 / len)) ![1, 0, 2, 5] = some data ∧
      List.ofFn data = [8, 13, 15, 2] :=
  ⟨_, fft_computes_dft 2 4 (fun _ => by decide) ![1, 0, 2, 5], by decide⟩

end RadarRT.FFT
