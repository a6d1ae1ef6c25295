import RadarRT.Dsp.Ideal

/-!
# How the pipeline answers to changes of its input

Two properties of the pipeline in exact arithmetic that no single bin shows. Its answer is stable:
samples that change by at most `b` move the peak by at most `b`, and a decision that is not close
stays. And its answer does not depend on the direction of time.
-/

namespace RadarRT

open Complex Finset DiscreteFourier InPlace
open scoped Real ComplexConjugate

/-! ## Spectra that are close -/

namespace TargetDetection

variable {n : ℕ} {s t : Fin n → ℝ} {e : ℝ}

/-- By how much the peak exceeds what it is compared with. -/
noncomputable def margin (s : Fin n → ℝ) : ℝ :=
  (apply s).peakMagnitude - 4 * ((∑ i, s i) / n)

theorem targetDetected_iff (s : Fin n → ℝ) : (apply s).targetDetected = true ↔ 0 < margin s := by
  rw [apply_targetDetected, decide_eq_true_iff, margin, sub_pos]

theorem peak_le_add (hn : 0 < n) (hs : ∀ i, 0 ≤ s i) (ht : ∀ i, 0 ≤ t i)
    (h : ∀ i, |s i - t i| ≤ e) : (apply s).peakMagnitude ≤ (apply t).peakMagnitude + e := by
  obtain ⟨⟨i, hi⟩, -⟩ := isGreatest_peak s hn hs
  have hle : t i ≤ (apply t).peakMagnitude := (isGreatest_peak t hn ht).2 ⟨i, rfl⟩
  have hclose := (abs_le.mp (h i)).2
  rw [← hi]
  linarith

theorem abs_peak_sub_le (hn : 0 < n) (hs : ∀ i, 0 ≤ s i) (ht : ∀ i, 0 ≤ t i)
    (h : ∀ i, |s i - t i| ≤ e) :
    |(apply s).peakMagnitude - (apply t).peakMagnitude| ≤ e := by
  have hle := peak_le_add hn hs ht h
  have hge := peak_le_add hn ht hs fun i => by rw [abs_sub_comm]; exact h i
  exact abs_le.mpr ⟨by linarith, by linarith⟩

theorem abs_mean_sub_le (hn : 0 < n) (h : ∀ i, |s i - t i| ≤ e) :
    |(∑ i, s i) / n - (∑ i, t i) / n| ≤ e := by
  have hpos : (0 : ℝ) < n := Nat.cast_pos.mpr hn
  rw [← sub_div, ← sum_sub_distrib, abs_div, abs_of_pos hpos, div_le_iff₀ hpos]
  calc |∑ i, (s i - t i)| ≤ ∑ i, |s i - t i| := abs_sum_le_sum_abs _ _
    _ ≤ ∑ _i : Fin n, e := sum_le_sum fun i _ => h i
    _ = e * n := by simp [mul_comm]

theorem abs_margin_sub_le (hn : 0 < n) (hs : ∀ i, 0 ≤ s i) (ht : ∀ i, 0 ≤ t i)
    (h : ∀ i, |s i - t i| ≤ e) : |margin s - margin t| ≤ 5 * e := by
  have hpeak := abs_le.mp (abs_peak_sub_le hn hs ht h)
  have hmean := abs_le.mp (abs_mean_sub_le hn h)
  unfold margin
  exact abs_le.mpr ⟨by linarith [hpeak.1, hmean.2], by linarith [hpeak.2, hmean.1]⟩

end TargetDetection

variable {n : ℕ}

/-! ## Stability -/

/-- The spectrum `TargetDetection` is given. -/
noncomputable def filteredSpectrum (x : Fin n → ℝ) (i : Fin (n / 2)) : ℝ :=
  ‖bin (NoiseFilter.apply x) i.val‖ / n

theorem filteredSpectrum_nonneg (x : Fin n → ℝ) (i : Fin (n / 2)) : 0 ≤ filteredSpectrum x i := by
  unfold filteredSpectrum
  positivity

theorem exactDetection_eq (x : Fin n → ℝ) :
    exactDetection x = TargetDetection.apply (filteredSpectrum x) := rfl

theorem NoiseFilter.apply_sub (x y : Fin n → ℝ) :
    apply (fun j => x j - y j) = fun i => apply x i - apply y i := by
  funext i
  unfold apply window
  by_cases hleft : 0 < i.val <;> by_cases hright : i.val + 1 < n <;>
    simp [hleft, hright] <;> ring

theorem bin_sub (x y : Fin n → ℝ) (k : ℕ) :
    bin (fun j => x j - y j) k = bin x k - bin y k := by
  unfold bin
  rw [← sum_sub_distrib]
  refine sum_congr rfl ?_
  intro j _
  push_cast
  ring

theorem abs_filteredSpectrum_sub_le {b : ℝ} {x y : Fin n → ℝ} (h : ∀ j, |x j - y j| ≤ b)
    (i : Fin (n / 2)) : |filteredSpectrum x i - filteredSpectrum y i| ≤ b := by
  have hn : (0 : ℝ) < n := by
    have := i.isLt
    exact Nat.cast_pos.mpr (by omega)
  have hdiff : bin (NoiseFilter.apply x) i.val - bin (NoiseFilter.apply y) i.val =
      bin (NoiseFilter.apply fun j => x j - y j) i.val := by
    rw [NoiseFilter.apply_sub, bin_sub]
  unfold filteredSpectrum
  rw [← sub_div, abs_div, abs_of_pos hn, div_le_iff₀ hn, mul_comm]
  refine (abs_norm_sub_norm_le _ _).trans ?_
  rw [hdiff]
  exact norm_bin_filtered_le h i.val

theorem abs_exactDetection_sub_le (hn : 2 ≤ n) {b : ℝ} {x y : Fin n → ℝ}
    (h : ∀ j, |x j - y j| ≤ b) :
    |(exactDetection x).peakMagnitude - (exactDetection y).peakMagnitude| ≤ b := by
  rw [exactDetection_eq, exactDetection_eq]
  exact TargetDetection.abs_peak_sub_le (by omega) (filteredSpectrum_nonneg x)
    (filteredSpectrum_nonneg y) (abs_filteredSpectrum_sub_le h)

theorem abs_margin_filteredSpectrum_sub_le (hn : 2 ≤ n) {b : ℝ} {x y : Fin n → ℝ}
    (h : ∀ j, |x j - y j| ≤ b) :
    |TargetDetection.margin (filteredSpectrum x) - TargetDetection.margin (filteredSpectrum y)| ≤
      5 * b :=
  TargetDetection.abs_margin_sub_le (by omega) (filteredSpectrum_nonneg x)
    (filteredSpectrum_nonneg y) (abs_filteredSpectrum_sub_le h)

theorem exactDetection_decision (hn : 2 ≤ n) {b : ℝ} {x y : Fin n → ℝ}
    (h : ∀ j, |x j - y j| ≤ b) (hfar : 5 * b < |TargetDetection.margin (filteredSpectrum x)|) :
    (exactDetection y).targetDetected = (exactDetection x).targetDetected := by
  have hb : 0 ≤ b := (abs_nonneg _).trans (h ⟨0, by omega⟩)
  have hmargin := abs_le.mp (abs_margin_filteredSpectrum_sub_le hn h)
  rw [Bool.eq_iff_iff, exactDetection_eq, exactDetection_eq, TargetDetection.targetDetected_iff,
    TargetDetection.targetDetected_iff]
  -- the margin of `x` is farther from zero than the two margins from each other
  obtain hneg | hpos := le_total (TargetDetection.margin (filteredSpectrum x)) 0
  · rw [abs_of_nonpos hneg] at hfar
    exact ⟨fun h => by linarith [hmargin.2], fun h => by linarith⟩
  · rw [abs_of_nonneg hpos] at hfar
    exact ⟨fun _ => by linarith, fun _ => by linarith [hmargin.2]⟩

/-- Samples that move by at most `b` move the reported peak by at most `b`, and do not change what
is detected unless the decision was within `5 * b` of going the other way. -/
theorem detection_stable (t t' : Time) {b : ℝ} {x y : Fin kRadarSampleCount → ℝ}
    (h : ∀ j, |x j - y j| ≤ b) :
    ∃ before after, SignalProcessor.process ideal ⟨t, x⟩ = some before ∧
      SignalProcessor.process ideal ⟨t', y⟩ = some after ∧
      |before.peakMagnitude - after.peakMagnitude| ≤ b ∧
      (5 * b < |TargetDetection.margin (filteredSpectrum x)| →
        after.targetDetected = before.targetDetected) := by
  have hsize : 2 ≤ kRadarSampleCount := by decide
  have hpeak := abs_exactDetection_sub_le hsize h
  have hdecision := exactDetection_decision hsize h
  refine ⟨_, _, process_ideal ⟨t, x⟩, process_ideal ⟨t', y⟩, ?_, ?_⟩
  · dsimp only
    exact hpeak
  · dsimp only
    exact hdecision

/-- A constant buffer has nothing outside the bin zero. -/
theorem bin_const {k : ℕ} (hk : 0 < k) (hlt : k < n) (b : ℝ) : bin (fun _ : Fin n => b) k = 0 := by
  have hn : n ≠ 0 := by omega
  have hterm : bin (fun _ : Fin n => b) k = ∑ j ∈ range n, (b : ℂ) * (ideal.wLen n ^ k) ^ j := by
    rw [bin_eq_dft, dft]
    refine sum_congr rfl ?_
    intro j hj
    rw [extend_of_lt _ (mem_range.mp hj), ← pow_mul, mul_comm k j]
  have hroot : (ideal.wLen n ^ k) ^ n = 1 := by
    rw [← pow_mul, mul_comm k n, pow_mul, (wLen_primitive hn).pow_eq_one, one_pow]
  have hne : ideal.wLen n ^ k ≠ 1 := (wLen_primitive hn).pow_ne_one_of_pos_of_lt hk.ne' hlt
  rw [hterm, ← mul_sum, sum_pow_eq_zero hroot hne, mul_zero]

/-- So its mean is the share of one bin, and its decision is clear. -/
theorem margin_const (hn : 2 ≤ n) {b : ℝ} (hb : 0 ≤ b) :
    TargetDetection.margin (filteredSpectrum fun _ : Fin n => b) = b - 4 * (b / (n / 2 : ℕ)) := by
  have hpos : (0 : ℝ) < n := Nat.cast_pos.mpr (by omega)
  have hsum : ∑ i, filteredSpectrum (fun _ : Fin n => b) i = b := by
    rw [Fintype.sum_eq_single ⟨0, by omega⟩]
    · rw [filteredSpectrum, NoiseFilter.apply_const, bin_zero, norm_real, Real.norm_eq_abs]
      simp [abs_of_nonneg hb, hpos.ne']
    · intro i hi
      have hi' : 0 < i.val := Nat.pos_of_ne_zero fun h => hi (Fin.ext h)
      rw [filteredSpectrum, NoiseFilter.apply_const, bin_const hi' (by omega), norm_zero, zero_div]
  rw [TargetDetection.margin, ← exactDetection_eq, exactDetection_const hn hb, hsum]

/-- A constant buffer, which is a clear detection, against one with an offset. -/
theorem detection_stable_offset :
    ∃ before after,
      SignalProcessor.process ideal ⟨0, fun _ => 1⟩ = some before ∧
      SignalProcessor.process ideal ⟨1, fun _ => 1 + 1 / 10⟩ = some after ∧
      |before.peakMagnitude - after.peakMagnitude| ≤ 1 / 10 ∧
      after.targetDetected = before.targetDetected := by
  obtain ⟨before, after, hbefore, hafter, hpeak, hdecision⟩ := detection_stable 0 1 (b := 1 / 10)
    (x := fun _ => 1) (y := fun _ => 1 + 1 / 10) (by intro _; norm_num)
  refine ⟨before, after, hbefore, hafter, hpeak, hdecision ?_⟩
  rw [margin_const (by decide) zero_le_one, show kRadarSampleCount / 2 = 128 by decide]
  norm_num

/-! ## The direction of time -/

theorem NoiseFilter.window_rev (x : Fin n → ℝ) (i : Fin n) :
    window (fun j => x j.rev) i = window x i.rev := by
  have hrev : i.rev.val = n - (i.val + 1) := Fin.val_rev i
  have hi := i.isLt
  -- the left neighbour of a sample is the right neighbour of its mirror image, and conversely
  have hleft : ∀ (h : 0 < i.val) (h' : i.rev.val + 1 < n),
      (⟨i.val - 1, by omega⟩ : Fin n).rev = ⟨i.rev.val + 1, h'⟩ := by
    intro h h'
    refine Fin.ext ?_
    rw [Fin.val_rev]
    dsimp only
    omega
  have hright : ∀ (h : i.val + 1 < n) (h' : 0 < i.rev.val),
      (⟨i.val + 1, h⟩ : Fin n).rev = ⟨i.rev.val - 1, by omega⟩ := by
    intro h h'
    refine Fin.ext ?_
    rw [Fin.val_rev]
    dsimp only
    omega
  unfold window
  by_cases h : 0 < i.val <;> by_cases h' : i.val + 1 < n
  · have hm : i.rev.val + 1 < n := by omega
    have hm' : 0 < i.rev.val := by omega
    simp only [h, h', hm, hm', if_true, dif_pos, hleft h hm, hright h' hm']
    rw [add_right_comm]
  · have hm : i.rev.val + 1 < n := by omega
    have hm' : ¬ 0 < i.rev.val := by omega
    simp only [h, h', hm, hm', if_true, if_false, dif_pos, dif_neg, not_false_eq_true, hleft h hm]
  · have hm : ¬ i.rev.val + 1 < n := by omega
    have hm' : 0 < i.rev.val := by omega
    simp only [h, h', hm, hm', if_true, if_false, dif_pos, dif_neg, not_false_eq_true,
      hright h' hm']
  · have hm : ¬ i.rev.val + 1 < n := by omega
    have hm' : ¬ 0 < i.rev.val := by omega
    simp only [h, h', hm, hm', if_false, dif_neg, not_false_eq_true]

theorem norm_bin_rev (x : Fin n → ℝ) (k : ℕ) : ‖bin (fun j => x j.rev) k‖ = ‖bin x k‖ := by
  have hfactor : bin (fun j => x j.rev) k =
      exp ((-2 * π * ((n - 1) * k) / n : ℝ) * I) * conj (bin x k) := by
    unfold bin
    rw [map_sum, mul_sum, ← Equiv.sum_comp Fin.revPerm]
    refine sum_congr rfl ?_
    intro j _
    rw [Fin.revPerm_apply, map_mul, conj_ofReal, ← exp_conj, mul_left_comm (exp _), ← exp_add]
    dsimp only
    rw [Fin.rev_rev]
    congr 2
    have hval : ((j.rev.val : ℕ) : ℂ) = (n : ℂ) - 1 - j.val := by
      rw [Fin.val_rev, Nat.cast_sub (by omega)]
      push_cast
      ring
    simp only [map_div₀, map_mul, map_neg, conj_I, conj_ofReal, map_natCast, map_ofNat]
    rw [hval]
    push_cast
    ring
  rw [hfactor, norm_mul, norm_conj, norm_exp_ofReal_mul_I, one_mul]

theorem exactDetection_rev (x : Fin n → ℝ) :
    exactDetection (fun j => x j.rev) = exactDetection x := by
  have hfilter : NoiseFilter.apply (fun j => x j.rev) = fun i => NoiseFilter.apply x i.rev := by
    funext i
    rw [NoiseFilter.apply, NoiseFilter.window_rev]
    rfl
  unfold exactDetection
  simp only [hfilter, norm_bin_rev]

/-- A buffer played backwards gives the same answer. -/
theorem detection_time_reversal (t : Time) (x : Fin kRadarSampleCount → ℝ) :
    SignalProcessor.process ideal ⟨t, fun j => x j.rev⟩ =
      SignalProcessor.process ideal ⟨t, x⟩ := by
  rw [process_ideal, process_ideal]
  dsimp only
  rw [exactDetection_rev]

end RadarRT
