import Mathlib.Analysis.Real.Pi.Bounds
import RadarRT.Dsp.Robustness

/-!
# The pipeline on a tone

What the pipeline is for, in exact arithmetic: a buffer that holds a pure tone. The noise filter
scales a tone and leaves it at its frequency, except for the two ends of the buffer where a sample
has one neighbour; the transform of the scaled tone is a single line; and a single line stands out
from the mean of the spectrum. What the two ends add is small enough for the detector to see the
tone in all but a narrow band of frequencies, the band the filter takes away.
-/

namespace RadarRT

open Complex Finset DiscreteFourier
open scoped Real

variable {n : ℕ}

/-! ## The tone in the filter -/

/-- The angle between two samples of a tone with `f` turns in `n` samples. -/
noncomputable def angleStep (n f : ℕ) : ℝ := ((2 * f : ℕ) : ℝ) * π / n

theorem angleStep_eq (n f : ℕ) : angleStep n f = 2 * π * f / n := by
  unfold angleStep
  push_cast
  ring

/-- That tone at the time `u`. -/
noncomputable def wave (n : ℕ) (amp phase : ℝ) (f : ℕ) (u : ℝ) : ℝ :=
  amp * Real.cos (angleStep n f * u + phase)

/-- A buffer that holds the tone. -/
noncomputable def tone (n : ℕ) (amp phase : ℝ) (f : ℕ) : Fin n → ℝ := fun j =>
  wave n amp phase f j.val

/-- What the three-point average leaves of the tone. -/
noncomputable def toneGain (n f : ℕ) : ℝ :=
  (1 + Real.cos (-angleStep n f) + Real.cos (angleStep n f)) / 3

theorem abs_wave_le (n : ℕ) (amp phase : ℝ) (f : ℕ) (u : ℝ) : |wave n amp phase f u| ≤ |amp| := by
  rw [wave, abs_mul]
  exact mul_le_of_le_one_right (abs_nonneg _) (Real.abs_cos_le_one _)

theorem wave_average (n : ℕ) (amp phase : ℝ) (f : ℕ) (u : ℝ) :
    wave n amp phase f u + wave n amp phase f (u - 1) + wave n amp phase f (u + 1) =
      3 * (toneGain n f * wave n amp phase f u) := by
  unfold wave toneGain
  rw [Real.cos_neg]
  generalize angleStep n f = angle
  have hprev : angle * (u - 1) + phase = (angle * u + phase) - angle := by ring
  have hnext : angle * (u + 1) + phase = (angle * u + phase) + angle := by ring
  rw [hprev, hnext]
  generalize angle * u + phase = now
  rw [Real.cos_sub, Real.cos_add]
  ring

variable (amp phase : ℝ) {f : ℕ}

/-- The filter scales the tone, up to the two ends of the buffer where a neighbour is missing. -/
theorem NoiseFilter.apply_tone (i : Fin n) (hleft : 0 < i.val) (hright : i.val + 1 < n) :
    apply (tone n amp phase f) i = toneGain n f * tone n amp phase f i := by
  have haverage := wave_average n amp phase f i.val
  unfold apply window
  simp only [hleft, hright, if_true, dif_pos]
  unfold tone
  dsimp only
  rw [Nat.cast_sub hleft, Nat.cast_add, Nat.cast_one, haverage]
  norm_num

theorem NoiseFilter.abs_apply_tone_sub_le (hn : 2 ≤ n) (i : Fin n) :
    |apply (tone n amp phase f) i - toneGain n f * tone n amp phase f i| ≤ 2 / 3 * |amp| := by
  have haverage := wave_average n amp phase f i.val
  have hself := abs_le.mp (abs_wave_le n amp phase f i.val)
  have hprev := abs_le.mp (abs_wave_le n amp phase f (i.val - 1))
  have hnext := abs_le.mp (abs_wave_le n amp phase f (i.val + 1))
  by_cases hleft : 0 < i.val
  · by_cases hright : i.val + 1 < n
    · rw [apply_tone amp phase i hleft hright, sub_self, abs_zero]
      positivity
    · unfold apply window
      simp only [hleft, hright, if_true, dif_neg, not_false_eq_true]
      unfold tone
      dsimp only
      rw [Nat.cast_sub hleft, Nat.cast_one]
      norm_num
      rw [abs_le]
      constructor <;> linarith [hself.1, hself.2, hprev.1, hprev.2, hnext.1, hnext.2]
  · have hright : i.val + 1 < n := by omega
    unfold apply window
    simp only [hleft, hright, if_false, dif_pos]
    unfold tone
    dsimp only
    rw [Nat.cast_add, Nat.cast_one]
    norm_num
    rw [abs_le]
    constructor <;> linarith [hself.1, hself.2, hprev.1, hprev.2, hnext.1, hnext.2]

/-! ## The tone in the transform -/

/-- A turning sequence adds up to zero, unless it stands still. -/
theorem sum_turns {d : ℤ} (hd : ¬ (n : ℤ) ∣ d) :
    ∑ j : Fin n, exp (-2 * π * I * (j * d) / n) = 0 := by
  rcases Nat.eq_zero_or_pos n with rfl | hn
  · simp
  have hroot := wLen_primitive hn.ne'
  have hterm : ∀ j : Fin n, exp (-2 * π * I * (j * d) / n) = (ideal.wLen n ^ d) ^ j.val := by
    intro j
    rw [wLen_eq, ← exp_int_mul, ← exp_nat_mul]
    congr 1
    push_cast
    ring
  rw [sum_congr rfl fun j _ => hterm j,
    Fin.sum_univ_eq_sum_range (fun j => (ideal.wLen n ^ d) ^ j)]
  refine sum_pow_eq_zero ?_ ?_
  · rw [← zpow_natCast, ← zpow_mul, mul_comm, zpow_mul, zpow_natCast, hroot.pow_eq_one, one_zpow]
  · intro hone
    exact hd ((hroot.zpow_eq_one_iff_dvd d).mp hone)

/-- The two turning halves of a tone. -/
theorem bin_tone (k : ℕ) :
    bin (tone n amp phase f) k =
      amp / 2 * (exp (phase * I) * ∑ j : Fin n, exp (-2 * π * I * (j * ((k : ℤ) - f : ℤ)) / n) +
        exp (-phase * I) * ∑ j : Fin n, exp (-2 * π * I * (j * ((k : ℤ) + f : ℤ)) / n)) := by
  unfold bin
  rw [mul_sum, mul_sum, ← sum_add_distrib, mul_sum]
  refine sum_congr rfl ?_
  intro j _
  have hcos : ((tone n amp phase f j : ℝ) : ℂ) =
      amp / 2 * (exp ((2 * π * f / n * j + phase) * I) +
        exp (-(2 * π * f / n * j + phase) * I)) := by
    unfold tone wave
    rw [angleStep_eq]
    push_cast
    rw [Complex.cos]
    ring
  rw [hcos, ← exp_add, ← exp_add, mul_assoc, add_mul, ← exp_add, ← exp_add]
  congr 3
  · push_cast
    ring
  · push_cast
    ring

theorem norm_bin_tone (hf : 0 < f) (hfn : 2 * f < n) {k : ℕ} (hk : 2 * k < n) :
    ‖bin (tone n amp phase f) k‖ = if k = f then n * (|amp| / 2) else 0 := by
  have hplus : ¬ (n : ℤ) ∣ (k : ℤ) + f := by
    intro h
    have := Int.le_of_dvd (by omega) h
    omega
  rw [bin_tone, sum_turns hplus, mul_zero, add_zero]
  split_ifs with hkf
  · subst hkf
    simp
    ring
  · have hminus : ¬ (n : ℤ) ∣ (k : ℤ) - f := by
      intro h
      have := Int.eq_zero_of_abs_lt_dvd h (by rw [abs_lt]; omega)
      omega
    rw [sum_turns hminus, mul_zero, mul_zero, norm_zero]

/-- Only the two ends of the buffer count. -/
theorem NoiseFilter.sum_abs_apply_tone_sub_le (hn : 2 ≤ n) :
    ∑ i, |apply (tone n amp phase f) i - toneGain n f * tone n amp phase f i| ≤ 4 / 3 * |amp| := by
  have hterm : ∀ i : Fin n, |apply (tone n amp phase f) i - toneGain n f * tone n amp phase f i| ≤
      (if i = ⟨0, by omega⟩ then 2 / 3 * |amp| else 0) +
        (if i = ⟨n - 1, by omega⟩ then 2 / 3 * |amp| else 0) := by
    intro i
    have hle := abs_apply_tone_sub_le amp phase (f := f) hn i
    have hnonneg : 0 ≤ 2 / 3 * |amp| := by positivity
    by_cases hends : 0 < i.val ∧ i.val + 1 < n
    · rw [apply_tone amp phase i hends.1 hends.2, sub_self, abs_zero]
      split_ifs <;> linarith
    · have hside : i = ⟨0, by omega⟩ ∨ i = ⟨n - 1, by omega⟩ := by
        simp only [Fin.ext_iff]
        omega
      obtain h | h := hside
      · rw [if_pos h]
        split_ifs <;> linarith
      · rw [if_pos h]
        split_ifs <;> linarith
  calc ∑ i, |apply (tone n amp phase f) i - toneGain n f * tone n amp phase f i|
      ≤ ∑ i : Fin n, ((if i = ⟨0, by omega⟩ then 2 / 3 * |amp| else 0) +
        (if i = ⟨n - 1, by omega⟩ then 2 / 3 * |amp| else 0)) := sum_le_sum fun i _ => hterm i
    _ = 4 / 3 * |amp| := by
      rw [sum_add_distrib, sum_ite_eq', sum_ite_eq', if_pos (mem_univ _), if_pos (mem_univ _)]
      ring

theorem abs_filteredSpectrum_tone_sub_le (hf : 0 < f) (hfn : 2 * f < n) (i : Fin (n / 2)) :
    |filteredSpectrum (tone n amp phase f) i -
      (if i.val = f then |toneGain n f| * (|amp| / 2) else 0)| ≤ 4 / 3 * |amp| / n := by
  have hn : (0 : ℝ) < n := Nat.cast_pos.mpr (by omega)
  have hbin := norm_bin_tone amp phase hf hfn (k := i.val) (by omega)
  have hscaled : (if i.val = f then |toneGain n f| * (|amp| / 2) else 0) =
      ‖bin (fun j => toneGain n f * tone n amp phase f j) i.val‖ / n := by
    rw [bin_const_mul, norm_mul, hbin, norm_real, Real.norm_eq_abs]
    split_ifs
    · field_simp
    · simp
  rw [hscaled]
  unfold filteredSpectrum
  rw [← sub_div, abs_div, abs_of_pos hn, div_le_div_iff_of_pos_right hn]
  refine (abs_norm_sub_norm_le _ _).trans ?_
  rw [← bin_sub]
  refine (norm_bin_le _ _).trans ?_
  exact NoiseFilter.sum_abs_apply_tone_sub_le amp phase (by omega)

/-! ## The tone in the detector -/

/-- The detector on a spectrum with a single line. -/
theorem TargetDetection.line {h : ℕ} {f : ℕ} (hf : f < h) {v : ℝ} (hv : 0 ≤ v) :
    (apply fun i : Fin h => if i.val = f then v else 0).peakMagnitude = v ∧
      margin (fun i : Fin h => if i.val = f then v else 0) = v - 4 * (v / h) := by
  have hnonneg : ∀ i : Fin h, 0 ≤ if i.val = f then v else 0 := by
    intro i
    split_ifs
    · exact hv
    · exact le_rfl
  have hpeak : (apply fun i : Fin h => if i.val = f then v else 0).peakMagnitude = v := by
    refine (isGreatest_peak _ (by omega) hnonneg).unique ⟨⟨⟨f, hf⟩, if_pos rfl⟩, ?_⟩
    rintro - ⟨i, rfl⟩
    dsimp only
    split_ifs
    · exact le_rfl
    · exact hv
  have hsum : ∑ i : Fin h, (if i.val = f then v else 0) = v := by
    rw [sum_eq_single ⟨f, hf⟩]
    · exact if_pos rfl
    · intro i _ hne
      exact if_neg fun hi => hne (Fin.ext hi)
    · intro hnot
      exact absurd (mem_univ _) hnot
  refine ⟨hpeak, ?_⟩
  rw [margin, hpeak, hsum]

/-- The margin of the line, less what the two ends of the buffer can take away. -/
theorem margin_tone {h : ℕ} (hn : n = 2 * h) (hf : 0 < f) (hfh : f < h) :
    |(exactDetection (tone n amp phase f)).peakMagnitude - |toneGain n f| * (|amp| / 2)| ≤
        4 / 3 * |amp| / n ∧
      |amp| * (3 * (n - 8) * |toneGain n f| - 40) / (6 * n) ≤
        TargetDetection.margin (filteredSpectrum (tone n amp phase f)) := by
  have hclose := abs_filteredSpectrum_tone_sub_le amp phase hf (show 2 * f < n by omega)
  have hline := TargetDetection.line (h := n / 2) (f := f) (by omega)
    (v := |toneGain n f| * (|amp| / 2)) (by positivity)
  have hlines : ∀ i : Fin (n / 2), 0 ≤ if i.val = f then |toneGain n f| * (|amp| / 2) else 0 := by
    intro i
    split_ifs <;> positivity
  have hpos : (0 : ℝ) < n := Nat.cast_pos.mpr (by omega)
  have hhalf : ((n / 2 : ℕ) : ℝ) = n / 2 := by
    rw [Nat.cast_div ⟨h, hn⟩ (by norm_num), Nat.cast_ofNat]
  constructor
  · have hpeak := TargetDetection.abs_peak_sub_le (by omega) (filteredSpectrum_nonneg _) hlines
      hclose
    rw [hline.1] at hpeak
    exact hpeak
  · have hmargin := (abs_le.mp (TargetDetection.abs_margin_sub_le (by omega)
      (filteredSpectrum_nonneg _) hlines hclose)).1
    rw [hline.2, hhalf] at hmargin
    have hgap : |amp| * (3 * (n - 8) * |toneGain n f| - 40) / (6 * n) =
        |toneGain n f| * (|amp| / 2) - 4 * (|toneGain n f| * (|amp| / 2) / (n / 2)) -
          5 * (4 / 3 * |amp| / n) := by
      field_simp
      ring
    rw [hgap]
    linarith

theorem abs_toneGain (f : ℕ) :
    |toneGain n f| = |1 + 2 * Real.cos (2 * π * f / n)| / 3 := by
  have hsum : 1 + Real.cos (angleStep n f) + Real.cos (angleStep n f) =
      1 + 2 * Real.cos (2 * π * f / n) := by
    rw [angleStep_eq]
    ring
  rw [toneGain, Real.cos_neg, hsum, abs_div, abs_of_pos (by norm_num : (0 : ℝ) < 3)]

theorem kRadarSampleCount_cast : (kRadarSampleCount : ℝ) = 256 := by
  norm_num [kRadarSampleCount]

/-- A buffer within `b` of a tone with a whole number of turns below half the sampling rate, of any
phase and amplitude: the reported peak is half the amplitude of the filtered tone, up to
`|amp| / 192 + b`, and the tone is detected when it is large enough against the noise. -/
theorem noisy_tone_detected (t : Time) (amp phase : ℝ) {b : ℝ} {f : ℕ}
    {x : Fin kRadarSampleCount → ℝ} (hf : 0 < f) (hhalf : f < kRadarSampleCount / 2)
    (hnoise : ∀ j, |tone kRadarSampleCount amp phase f j - x j| ≤ b) :
    ∃ result, SignalProcessor.process ideal ⟨t, x⟩ = some result ∧
      |result.peakMagnitude -
        |1 + 2 * Real.cos (2 * π * f / kRadarSampleCount)| / 3 * (|amp| / 2)| ≤ |amp| / 192 + b ∧
      (7680 * b < |amp| * (248 * |1 + 2 * Real.cos (2 * π * f / kRadarSampleCount)| - 40) →
        result.targetDetected = true) := by
  have hsize : 2 ≤ kRadarSampleCount := by decide
  obtain ⟨hpeak, hmargin⟩ := margin_tone (n := kRadarSampleCount) amp phase (h := 128) rfl hf hhalf
  have hmoved := abs_exactDetection_sub_le hsize hnoise
  have hdecided := abs_margin_filteredSpectrum_sub_le hsize hnoise
  rw [abs_toneGain, kRadarSampleCount_cast] at hpeak hmargin
  rw [kRadarSampleCount_cast]
  refine ⟨_, process_ideal ⟨t, x⟩, ?_, ?_⟩
  · dsimp only
    rw [abs_le] at hpeak hmoved ⊢
    exact ⟨by linarith [hpeak.1, hmoved.2], by linarith [hpeak.2, hmoved.1]⟩
  · intro hlarge
    dsimp only
    rw [exactDetection_eq, TargetDetection.targetDetected_iff]
    linarith [(abs_le.mp hdecided).2]

/-- A tone at a quarter of the sampling rate, with noise of a hundredth of its amplitude. -/
theorem noisy_tone_detected_quarter :
    ∃ result, SignalProcessor.process ideal
        ⟨0, fun j => tone kRadarSampleCount 1 0 64 j + 1 / 100⟩ = some result ∧
      result.targetDetected = true := by
  obtain ⟨result, hresult, -, hdetected⟩ := noisy_tone_detected 0 1 0
    (b := 1 / 100) (f := 64) (x := fun j => tone kRadarSampleCount 1 0 64 j + 1 / 100)
    (by decide) (by decide) (by intro j; norm_num)
  refine ⟨result, hresult, hdetected ?_⟩
  have hangle : 2 * π * (64 : ℕ) / kRadarSampleCount = π / 2 := by
    rw [kRadarSampleCount_cast]
    push_cast
    ring
  rw [hangle, Real.cos_pi_div_two]
  norm_num

/-! ## The band the filter takes away -/

/-- What turns a little slower than once in three samples. -/
theorem gain_below_third {d : ℝ} (hlow : 0.1 ≤ d) (hhigh : d ≤ 0.12) :
    5 / 31 < 1 + 2 * Real.cos (π - (π / 3 + d)) := by
  have hsqrt : (1.7 : ℝ) < √3 := Real.lt_sqrt_of_sq_lt (by norm_num)
  have hsin := Real.sin_gt_sub_cube (x := d) (by linarith)
  have hone := Real.cos_le_one d
  have hcube : d ^ 3 ≤ 0.12 ^ 3 := by gcongr
  have hprod : 1.7 * 0.099 < √3 * Real.sin d := by
    refine mul_lt_mul'' hsqrt ?_ (by norm_num) (by norm_num)
    linarith
  rw [Real.cos_pi_sub, Real.cos_add, Real.cos_pi_div_three, Real.sin_pi_div_three]
  linarith

/-- And what turns a little faster. -/
theorem gain_above_third {d : ℝ} (hlow : 0.11 ≤ d) (hhigh : d ≤ 0.12) :
    1 + 2 * Real.cos (π - (π / 3 - d)) < -(5 / 31) := by
  have hsqrt : (1.7 : ℝ) < √3 := Real.lt_sqrt_of_sq_lt (by norm_num)
  have hsin := Real.sin_gt_sub_cube (x := d) (by linarith)
  have hone := Real.one_sub_sq_div_two_le_cos (x := d)
  have hsquare : d ^ 2 ≤ 0.12 ^ 2 := by gcongr
  have hcube : d ^ 3 ≤ 0.12 ^ 3 := by gcongr
  have hprod : 1.7 * 0.109 < √3 * Real.sin d := by
    refine mul_lt_mul'' hsqrt ?_ (by norm_num) (by norm_num)
    linarith
  rw [Real.cos_pi_sub, Real.cos_sub, Real.cos_pi_div_three, Real.sin_pi_div_three]
  linarith

theorem toneGain_large {f : ℕ} (hhalf : f < kRadarSampleCount / 2) (hband : f < 82 ∨ 89 < f) :
    5 / 31 < |1 + 2 * Real.cos (2 * π * f / kRadarSampleCount)| := by
  have hlow := Real.pi_gt_d2
  have hhigh := Real.pi_lt_d2
  rw [kRadarSampleCount_cast]
  obtain hf | hf := hband
  · have hle : (f : ℝ) ≤ 81 := by exact_mod_cast Nat.le_of_lt_succ hf
    have hcos : Real.cos (π - (π / 3 + 13 * π / 384)) ≤ Real.cos (2 * π * f / 256) := by
      refine Real.cos_le_cos_of_nonneg_of_le_pi (by positivity) (by linarith) ?_
      linarith [mul_le_mul_of_nonneg_left hle Real.pi_pos.le]
    have hgain := gain_below_third (d := 13 * π / 384) (by linarith) (by linarith)
    refine lt_of_lt_of_le ?_ (le_abs_self _)
    linarith
  · have hge : (90 : ℝ) ≤ f := by exact_mod_cast hf
    have hle : (f : ℝ) ≤ 128 := by exact_mod_cast hhalf.le
    have hcos : Real.cos (2 * π * f / 256) ≤ Real.cos (π - (π / 3 - 14 * π / 384)) := by
      refine Real.cos_le_cos_of_nonneg_of_le_pi (by linarith) ?_ ?_
      · linarith [mul_le_mul_of_nonneg_left hle Real.pi_pos.le]
      · linarith [mul_le_mul_of_nonneg_left hge Real.pi_pos.le]
    have hgain := gain_above_third (d := 14 * π / 384) (by linarith) (by linarith)
    refine lt_of_lt_of_le ?_ (neg_le_abs _)
    linarith

/-- Every tone with a whole number of turns below half the sampling rate, of any phase and any
amplitude but zero, is detected, unless it turns so nearly once in three samples that the noise
filter takes it away. -/
theorem tone_detected (t : Time) {amp : ℝ} (phase : ℝ) {f : ℕ} (hamp : amp ≠ 0) (hf : 0 < f)
    (hhalf : f < kRadarSampleCount / 2) (hband : f < 82 ∨ 89 < f) :
    ∃ result, SignalProcessor.process ideal ⟨t, tone kRadarSampleCount amp phase f⟩ = some result ∧
      result.targetDetected = true := by
  have hgain := toneGain_large hhalf hband
  obtain ⟨-, hmargin⟩ := margin_tone (n := kRadarSampleCount) amp phase (h := 128) rfl hf hhalf
  rw [abs_toneGain] at hmargin
  refine ⟨_, process_ideal ⟨t, _⟩, ?_⟩
  dsimp only
  rw [exactDetection_eq, TargetDetection.targetDetected_iff]
  refine lt_of_lt_of_le ?_ hmargin
  rw [kRadarSampleCount_cast] at hgain ⊢
  have hpos := abs_pos.mpr hamp
  refine div_pos (mul_pos hpos ?_) (by norm_num)
  linarith

/-- A tone of ninety turns, just above the band. -/
theorem tone_detected_ninety :
    ∃ result, SignalProcessor.process ideal ⟨0, tone kRadarSampleCount (-1) (π / 7) 90⟩ =
        some result ∧
      result.targetDetected = true :=
  tone_detected 0 (π / 7) (by norm_num) (by decide) (by decide) (.inr (by decide))

end RadarRT
