import Mathlib.RingTheory.RootsOfUnity.Complex
import RadarRT.Dsp.Pipeline
import RadarRT.Lib.Spectrum

/-!
# The pipeline in exact arithmetic

The DSP pipeline with real numbers for `float`, complex numbers for `std::complex<float>` and
exact cosines and sines. In this reading `FFT::apply` returns the magnitudes of the lower bins of
the discrete Fourier transform, and the pipeline can be judged against what it is for: which peak
it reports, how that peak follows the gain of the receiver, and how large it can get.
-/

namespace RadarRT

open Complex Finset DiscreteFourier InPlace
open scoped Real

/-- `float` as the real numbers. -/
noncomputable def ideal : ComplexOps ℝ ℂ where
  ofReal := fun x => x
  abs := fun z => ‖z‖
  wLen := fun len => ⟨Real.cos (-2 * π / len), Real.sin (-2 * π / len)⟩

variable {n m : ℕ}

/-! ## The stage roots -/

theorem wLen_eq (len : ℕ) : ideal.wLen len = exp ((-2 * π / len : ℝ) * I) := by
  apply Complex.ext
  · rw [exp_ofReal_mul_I_re]
    rfl
  · rw [exp_ofReal_mul_I_im]
    rfl

theorem norm_wLen (len : ℕ) : ‖ideal.wLen len‖ = 1 := by
  rw [wLen_eq, norm_exp_ofReal_mul_I]

/-- The root of a stage is a power of the root of the last stage. -/
theorem wLen_pow {len q : ℕ} (hlen : len ≠ 0) (hq : q ≠ 0) :
    ideal.wLen (len * q) ^ q = ideal.wLen len := by
  rw [wLen_eq, wLen_eq, ← exp_nat_mul]
  congr 1
  have hlen' : (len : ℂ) ≠ 0 := Nat.cast_ne_zero.mpr hlen
  have hq' : (q : ℂ) ≠ 0 := Nat.cast_ne_zero.mpr hq
  push_cast
  field_simp

theorem wLen_two : ideal.wLen 2 = -1 := by
  have hangle : -2 * π / ((2 : ℕ) : ℝ) = -π := by
    push_cast
    ring
  apply Complex.ext
  · show Real.cos (-2 * π / ((2 : ℕ) : ℝ)) = (-1 : ℂ).re
    rw [hangle]
    simp
  · show Real.sin (-2 * π / ((2 : ℕ) : ℝ)) = (-1 : ℂ).im
    rw [hangle]
    simp

theorem wLen_half {h : ℕ} (hh : h ≠ 0) : ideal.wLen (2 * h) ^ h = -1 := by
  rw [wLen_pow (by decide) hh, wLen_two]

theorem wLen_pow_self {h : ℕ} (hh : h ≠ 0) : ideal.wLen (2 * h) ^ (2 * h) = 1 := by
  rw [mul_comm 2 h, pow_mul, mul_comm h 2, wLen_half hh, neg_one_sq]

theorem wLen_primitive (hn : n ≠ 0) : IsPrimitiveRoot (ideal.wLen n) n := by
  have hinv : ideal.wLen n = (exp (2 * π * I / n))⁻¹ := by
    rw [wLen_eq, ← exp_neg]
    congr 1
    push_cast
    ring
  rw [hinv]
  exact (isPrimitiveRoot_exp n hn).inv

/-! ## The bins -/

/-- The bin `k` of the discrete Fourier transform of a real buffer. -/
noncomputable def bin (x : Fin n → ℝ) (k : ℕ) : ℂ :=
  ∑ j : Fin n, x j * exp (-2 * π * I * (j * k) / n)

theorem bin_eq_dft (x : Fin n → ℝ) (k : ℕ) :
    bin x k = dft n (ideal.wLen n) (fun j => ((extend x j : ℝ) : ℂ)) k := by
  unfold bin dft
  rw [← Fin.sum_univ_eq_sum_range (fun j => ((extend x j : ℝ) : ℂ) * ideal.wLen n ^ (j * k))]
  refine sum_congr rfl ?_
  intro j _
  rw [extend_val, wLen_eq, ← exp_nat_mul]
  congr 2
  push_cast
  ring

/-- What `FFT::apply` returns, for a buffer of `2 ^ m` samples. -/
theorem fft_apply_ideal (hn : n = 2 ^ m) (x : Fin n → ℝ) :
    FFT.apply ideal x = some fun i => ‖bin x i.val‖ / n := by
  subst hn
  have hω : m ≠ 0 → ideal.wLen (2 ^ m) ^ (2 ^ m / 2) = -1 := by
    intro hm
    obtain ⟨p, rfl⟩ := Nat.exists_eq_succ_of_ne_zero hm
    have hhalf : 2 ^ (p + 1) / 2 = 2 ^ p := by
      rw [pow_succ, Nat.mul_div_cancel _ (by decide)]
    rw [Nat.succ_eq_add_one, hhalf, pow_succ', wLen_half (Nat.two_pow_pos p).ne']
  have hw : ∀ s, s + 1 ≤ m →
      ideal.wLen (2 ^ (s + 1)) = ideal.wLen (2 ^ m) ^ (2 ^ m / 2 ^ (s + 1)) := by
    intro s hs
    obtain ⟨p, rfl⟩ : ∃ p, m = s + 1 + p := ⟨m - (s + 1), by omega⟩
    rw [pow_add 2 (s + 1) p, Nat.mul_div_cancel_left _ (Nat.two_pow_pos _),
      wLen_pow (Nat.two_pow_pos _).ne' (Nat.two_pow_pos _).ne']
  have hextend : extend (fun i => ideal.ofReal (x i)) = fun j => ((extend x j : ℝ) : ℂ) := by
    funext j
    unfold extend ideal
    split <;> simp
  rw [FFT.apply, FFT.transform_eq_dft hω hw, Option.map_some, hextend]
  congr 1
  funext i
  rw [bin_eq_dft]
  rfl

theorem norm_bin_le (x : Fin n → ℝ) (k : ℕ) : ‖bin x k‖ ≤ ∑ j, |x j| := by
  rw [bin_eq_dft]
  refine (norm_dft_le (norm_wLen n) _ n k).trans_eq ?_
  rw [← Fin.sum_univ_eq_sum_range (fun j => ‖((extend x j : ℝ) : ℂ)‖)]
  simp

theorem bin_const_mul (c : ℝ) (x : Fin n → ℝ) (k : ℕ) :
    bin (fun j => c * x j) k = c * bin x k := by
  unfold bin
  rw [mul_sum]
  refine sum_congr rfl ?_
  intro j _
  push_cast
  ring

theorem bin_zero (x : Fin n → ℝ) : bin x 0 = ((∑ j, x j : ℝ) : ℂ) := by
  simp [bin]

/-- The bins of a real buffer mirror each other. -/
theorem norm_bin_reflect {h k : ℕ} (hh : h ≠ 0) (x : Fin (2 * h) → ℝ) (hk : k ≤ 2 * h) :
    ‖bin x (2 * h - k)‖ = ‖bin x k‖ := by
  rw [bin_eq_dft, bin_eq_dft]
  exact norm_dft_reflect (norm_wLen _) (wLen_pow_self hh) (extend x) hk

/-- The bin at half the sampling rate is the alternating sum of the samples. -/
theorem norm_bin_half {h : ℕ} (hh : h ≠ 0) (x : Fin (2 * h) → ℝ) :
    ‖bin x h‖ = |∑ j : Fin (2 * h), x j * (-1) ^ j.val| := by
  rw [bin_eq_dft, dft_alternating (wLen_half hh),
    ← Fin.sum_univ_eq_sum_range (fun j => ((extend x j : ℝ) : ℂ) * (-1) ^ j), ← Real.norm_eq_abs,
    ← norm_real]
  push_cast
  simp only [extend_val]

/-! ## Which peak is reported -/

/-- For every real buffer of `n = 2 ^ (m + 1)` samples, the peak is the largest of all `n` bins
exactly when the bin at half the sampling rate, the alternating sum of the samples, is not larger
than all the bins below it: the array of `n / 2` magnitudes ends just before that bin. -/
theorem peak_is_largest_bin_iff (m : ℕ) (x : Fin (2 ^ (m + 1)) → ℝ) :
    ∃ spectrum, FFT.apply ideal x = some spectrum ∧
      (IsGreatest (Set.range fun k : Fin (2 ^ (m + 1)) => ‖bin x k‖ / (2 ^ (m + 1) : ℕ))
          (TargetDetection.apply spectrum).peakMagnitude ↔
        ∃ k < 2 ^ (m + 1) / 2, |∑ j : Fin (2 ^ (m + 1)), x j * (-1) ^ j.val| ≤ ‖bin x k‖) := by
  obtain ⟨h, hpow, hh⟩ : ∃ h, 2 ^ (m + 1) = 2 * h ∧ h ≠ 0 :=
    ⟨2 ^ m, pow_succ' 2 m, (Nat.two_pow_pos m).ne'⟩
  refine ⟨_, fft_apply_ideal rfl x, ?_⟩
  generalize 2 ^ (m + 1) = n at x hpow
  subst hpow
  have hhalf : 2 * h / 2 = h := by omega
  have hpos : (0 : ℝ) < (2 * h : ℕ) := by
    rw [Nat.cast_pos]
    omega
  obtain ⟨⟨⟨p, hp⟩, hpeak⟩, hle⟩ := TargetDetection.isGreatest_peak
    (fun i : Fin (2 * h / 2) => ‖bin x i.val‖ / (2 * h : ℕ)) (by omega)
    (fun i => div_nonneg (norm_nonneg _) hpos.le)
  rw [← norm_bin_half hh x]
  constructor
  · rintro ⟨-, hall⟩
    have hmid := hall ⟨⟨h, by omega⟩, rfl⟩
    rw [← hpeak] at hmid
    exact ⟨p, hp, (div_le_div_iff_of_pos_right hpos).mp hmid⟩
  · rintro ⟨q, hq, hmid⟩
    have hlow : ∀ k, k < h →
        ‖bin x k‖ / (2 * h : ℕ) ≤ (TargetDetection.apply fun i : Fin (2 * h / 2) =>
          ‖bin x i.val‖ / (2 * h : ℕ)).peakMagnitude := by
      intro k hk
      exact hle ⟨⟨k, by omega⟩, rfl⟩
    refine ⟨⟨⟨p, by omega⟩, hpeak⟩, ?_⟩
    rintro y ⟨⟨k, hk⟩, rfl⟩
    -- below, at and above half the sampling rate
    rcases lt_trichotomy k h with hlt | rfl | hgt
    · exact hlow k hlt
    · exact ((div_le_div_iff_of_pos_right hpos).mpr hmid).trans (hlow q (by omega))
    · show ‖bin x k‖ / (2 * h : ℕ) ≤ _
      rw [← norm_bin_reflect hh x hk.le]
      exact hlow (2 * h - k) (by omega)

/-- Samples that alternate between `1` and `-1`. -/
def alternating (n : ℕ) : Fin n → ℝ := fun j => (-1) ^ j.val

/-- An alternating buffer has nothing below half the sampling rate. -/
theorem bin_alternating {h k : ℕ} (hn : n = 2 * h) (hk : k < h) : bin (alternating n) k = 0 := by
  subst hn
  have hh : h ≠ 0 := by omega
  have hterm : bin (alternating (2 * h)) k =
      ∑ j ∈ range (2 * h), (-ideal.wLen (2 * h) ^ k) ^ j := by
    rw [bin_eq_dft, dft]
    refine sum_congr rfl ?_
    intro j hj
    rw [extend_of_lt _ (mem_range.mp hj), neg_pow (ideal.wLen (2 * h) ^ k), ← pow_mul,
      mul_comm k j, alternating]
    push_cast
    rfl
  rw [hterm]
  refine sum_pow_eq_zero ?_ ?_
  · rw [neg_pow, pow_mul, neg_one_sq, one_pow, one_mul, ← pow_mul, mul_comm k, pow_mul,
      wLen_pow_self hh, one_pow]
  · -- the root reaches `-1` only at `h`
    intro hone
    have hneg : ideal.wLen (2 * h) ^ k = ideal.wLen (2 * h) ^ h := by
      rw [wLen_half hh, ← hone, neg_neg]
    have := (wLen_primitive (by omega)).pow_inj (by omega) (by omega) hneg
    omega

/-- All of it is at half the sampling rate. -/
theorem norm_bin_alternating_half {h : ℕ} (hn : n = 2 * h) (hh : h ≠ 0) :
    ‖bin (alternating n) h‖ = n := by
  subst hn
  have hsum : ∑ j : Fin (2 * h), alternating (2 * h) j * (-1) ^ j.val = (2 * h : ℕ) := by
    simp only [alternating, ← mul_pow, neg_one_mul, neg_neg, one_pow, sum_const, card_univ,
      Fintype.card_fin, nsmul_eq_mul, mul_one]
  rw [norm_bin_half hh, hsum, abs_of_nonneg (Nat.cast_nonneg _)]

/-- At 256 samples, the reported peak of the alternating buffer is zero, while its bin 128 has
the normalised magnitude one. -/
theorem peak_misses_alternating_signal :
    ∃ spectrum, FFT.apply ideal (alternating (2 ^ 8)) = some spectrum ∧
      (TargetDetection.apply spectrum).peakMagnitude = 0 ∧
      ‖bin (alternating (2 ^ 8)) 128‖ / (2 ^ 8 : ℕ) = 1 ∧
      ¬ IsGreatest
        (Set.range fun k : Fin (2 ^ 8) => ‖bin (alternating (2 ^ 8)) k‖ / (2 ^ 8 : ℕ))
        (TargetDetection.apply spectrum).peakMagnitude := by
  have hsize : 2 ^ 8 = 2 * 128 := by norm_num
  have hpeak : (TargetDetection.apply fun i : Fin (2 ^ 8 / 2) =>
      ‖bin (alternating (2 ^ 8)) i.val‖ / (2 ^ 8 : ℕ)).peakMagnitude = 0 := by
    have hzero : (fun i : Fin (2 ^ 8 / 2) =>
        ‖bin (alternating (2 ^ 8)) i.val‖ / ((2 ^ 8 : ℕ) : ℝ)) = fun _ => 0 := by
      funext i
      rw [bin_alternating hsize i.isLt, norm_zero, zero_div]
    rw [hzero, TargetDetection.apply_zero]
  have hmid : ‖bin (alternating (2 ^ 8)) 128‖ / (2 ^ 8 : ℕ) = 1 := by
    rw [norm_bin_alternating_half hsize (by decide)]
    exact div_self (by norm_num)
  refine ⟨_, fft_apply_ideal rfl _, hpeak, hmid, ?_⟩
  rintro ⟨-, hall⟩
  have hle := hall ⟨⟨128, by decide⟩, hmid⟩
  rw [hpeak] at hle
  exact absurd hle (by norm_num)

/-! ## Gain and amplitude -/

theorem kRadarSampleCount_eq : kRadarSampleCount = 2 ^ 8 := rfl

/-- What the three stages make of a buffer. -/
noncomputable def exactDetection (x : Fin n → ℝ) : TargetDetection.Detection ℝ :=
  TargetDetection.apply fun i : Fin (n / 2) => ‖bin (NoiseFilter.apply x) i.val‖ / n

theorem process_ideal (signal : RadarSignal ℝ) :
    SignalProcessor.process ideal signal = some
      ⟨signal.timestamp, (exactDetection signal.samples).targetDetected,
        (exactDetection signal.samples).peakMagnitude⟩ := by
  rw [SignalProcessor.process, SignalProcessor.detect, fft_apply_ideal kRadarSampleCount_eq]
  rfl

theorem exactDetection_mul (c : ℝ) (x : Fin n → ℝ) :
    exactDetection (fun j => c * x j) = TargetDetection.apply fun i : Fin (n / 2) =>
      |c| * (‖bin (NoiseFilter.apply x) i.val‖ / n) := by
  unfold exactDetection
  congr 1
  funext i
  rw [NoiseFilter.apply_mul, bin_const_mul, norm_mul, norm_real, Real.norm_eq_abs, mul_div_assoc]

/-- For every buffer, timestamp and real gain `c`: the peak is multiplied by `|c|`; a gain other
than zero leaves the detection as it is, and the gain zero gives no detection. -/
theorem gain_independence (t : Time) (x : Fin kRadarSampleCount → ℝ) (c : ℝ) :
    ∃ plain amplified, SignalProcessor.process ideal ⟨t, x⟩ = some plain ∧
      SignalProcessor.process ideal ⟨t, fun j => c * x j⟩ = some amplified ∧
      plain.timestamp = t ∧ amplified.timestamp = t ∧
      amplified.peakMagnitude = |c| * plain.peakMagnitude ∧
      (c ≠ 0 → amplified.targetDetected = plain.targetDetected) ∧
      (c = 0 → amplified.targetDetected = false ∧ amplified.peakMagnitude = 0) := by
  refine ⟨_, _, process_ideal _, process_ideal _, rfl, rfl, ?_, ?_, ?_⟩
  · dsimp only
    rw [exactDetection_mul, TargetDetection.peakMagnitude_mul (abs_nonneg c), exactDetection]
  · intro hc
    dsimp only
    rw [exactDetection_mul, TargetDetection.targetDetected_mul (abs_pos.mpr hc), exactDetection]
  · intro hc
    dsimp only
    rw [exactDetection_mul, hc]
    simp only [abs_zero, zero_mul, TargetDetection.apply_zero, and_self]

theorem norm_bin_filtered_le {b : ℝ} {x : Fin n → ℝ} (h : ∀ j, |x j| ≤ b) (k : ℕ) :
    ‖bin (NoiseFilter.apply x) k‖ ≤ n * b := by
  calc ‖bin (NoiseFilter.apply x) k‖ ≤ ∑ j, |NoiseFilter.apply x j| := norm_bin_le _ k
    _ ≤ ∑ _j : Fin n, b := sum_le_sum fun j _ => NoiseFilter.abs_apply_le h j
    _ = n * b := by simp

/-- The peak is the largest of the lower bins of the filtered buffer. -/
theorem isGreatest_exactDetection (hn : 2 ≤ n) (x : Fin n → ℝ) :
    IsGreatest (Set.range fun i : Fin (n / 2) => ‖bin (NoiseFilter.apply x) i.val‖ / n)
      (exactDetection x).peakMagnitude := by
  refine TargetDetection.isGreatest_peak _ (by omega) ?_
  intro i
  positivity

theorem exactDetection_peak_le {b : ℝ} (hn : 2 ≤ n) {x : Fin n → ℝ} (h : ∀ j, |x j| ≤ b) :
    0 ≤ (exactDetection x).peakMagnitude ∧ (exactDetection x).peakMagnitude ≤ b := by
  have hpos : (0 : ℝ) < n := by
    rw [Nat.cast_pos]
    omega
  obtain ⟨⟨p, hp⟩, -⟩ := isGreatest_exactDetection hn x
  rw [← hp]
  refine ⟨by positivity, ?_⟩
  dsimp only
  rw [div_le_iff₀ hpos, mul_comm]
  exact norm_bin_filtered_le h p

/-- A constant buffer has all of its amplitude in the bin zero. -/
theorem exactDetection_const (hn : 2 ≤ n) {b : ℝ} (hb : 0 ≤ b) :
    (exactDetection fun _ : Fin n => b).peakMagnitude = b := by
  have hpos : (0 : ℝ) < n := by
    rw [Nat.cast_pos]
    omega
  refine le_antisymm (exactDetection_peak_le hn fun _ => (abs_of_nonneg hb).le).2 ?_
  obtain ⟨-, hle⟩ := isGreatest_exactDetection hn fun _ : Fin n => b
  refine le_trans (le_of_eq ?_) (hle ⟨⟨0, by omega⟩, rfl⟩)
  dsimp only
  rw [NoiseFilter.apply_const, bin_zero, norm_real, Real.norm_eq_abs]
  simp [abs_of_nonneg hb, hpos.ne']

/-- The reported peak is not negative and not larger than the amplitude of the samples; for a
constant buffer it is that amplitude; and for the signals the producer generates, from a generator
that stays within the interval it is asked for, it is at most one. -/
theorem peak_bounded_by_amplitude :
    (∀ (b : ℝ) (signal : RadarSignal ℝ), 0 ≤ b → (∀ i, |signal.samples i| ≤ b) →
      ∃ result, SignalProcessor.process ideal signal = some result ∧
        0 ≤ result.peakMagnitude ∧ result.peakMagnitude ≤ b) ∧
    (∀ (b : ℝ) (t : Time), 0 ≤ b →
      ∃ result, SignalProcessor.process ideal ⟨t, fun _ => b⟩ = some result ∧
        result.peakMagnitude = b) ∧
    (∀ (E : Type) (uniformReal : ℝ → ℝ → E → ℝ × E),
      (∀ low high engine, low ≤ high →
        low ≤ (uniformReal low high engine).1 ∧ (uniformReal low high engine).1 ≤ high) →
      ∀ (t : Time) (engine : E), ∃ result,
        SignalProcessor.process ideal (generateSignal uniformReal t engine).1 = some result ∧
        0 ≤ result.peakMagnitude ∧ result.peakMagnitude ≤ 1) := by
  have hsize : 2 ≤ kRadarSampleCount := by decide
  refine ⟨?_, ?_, ?_⟩
  · intro b signal _ h
    have hpeak := exactDetection_peak_le hsize h
    exact ⟨_, process_ideal signal, hpeak⟩
  · intro b t hb
    refine ⟨_, process_ideal ⟨t, fun _ => b⟩, ?_⟩
    dsimp only
    exact exactDetection_const hsize hb
  · intro E uniformReal huniform t engine
    have hsamples : ∀ j, |(generateSignal uniformReal t engine).1.samples j| ≤ 1 := by
      intro j
      exact abs_le.mpr (huniform (-1) 1 _ (by norm_num))
    have hpeak := exactDetection_peak_le hsize hsamples
    exact ⟨_, process_ideal _, hpeak⟩

/-- A generator that goes through the quarters of the interval. -/
noncomputable def quarters (low high : ℝ) (engine : ℕ) : ℝ × ℕ :=
  (low + (high - low) * ((engine % 4 : ℕ) / (4 : ℕ)), engine + 1)

theorem peak_bounded_by_amplitude_quarters :
    ∃ result, SignalProcessor.process ideal (generateSignal quarters 0 0).1 = some result ∧
      0 ≤ result.peakMagnitude ∧ result.peakMagnitude ≤ 1 := by
  refine peak_bounded_by_amplitude.2.2 ℕ quarters ?_ 0 0
  intro low high engine hle
  have hlt : ((engine % 4 : ℕ) : ℝ) ≤ (4 : ℕ) :=
    Nat.cast_le.mpr (Nat.mod_lt engine (by decide)).le
  have hpart : (0 : ℝ) ≤ (engine % 4 : ℕ) / (4 : ℕ) ∧ ((engine % 4 : ℕ) : ℝ) / (4 : ℕ) ≤ 1 :=
    ⟨by positivity, div_le_one_of_le₀ hlt (Nat.cast_nonneg 4)⟩
  have hwidth : 0 ≤ high - low := sub_nonneg.mpr hle
  refine ⟨le_add_of_nonneg_right (mul_nonneg hwidth hpart.1), ?_⟩
  have hupper := mul_le_mul_of_nonneg_left hpart.2 hwidth
  show low + (high - low) * _ ≤ high
  linarith

end RadarRT
