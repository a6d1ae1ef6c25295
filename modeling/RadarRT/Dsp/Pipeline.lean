import Mathlib.Algebra.Order.Field.Basic
import Mathlib.Data.List.OfFn
import Mathlib.Tactic.Linarith
import RadarRT.Dsp.Fft
import RadarRT.System.Shared

/-!
# The DSP pipeline

`NoiseFilter`, `FFT`, `TargetDetection` and `SignalProcessor`, over any type `F` with the
operations of `float` and any type `C` with those of `std::complex<float>`. The size of a sample
buffer is a parameter of the stages; `SignalProcessor::process` has `kRadarSampleCount` samples.

`none` stands for an access outside a buffer, or a loop that does not end. The lemmas about
`TargetDetection` hold in every ordered field.
-/

namespace RadarRT

/-- The functions the pipeline takes from the standard library. -/
structure ComplexOps (F C : Type) where
  /-- `std::complex<float>(x, 0.0F)`. -/
  ofReal : F → C
  /-- `std::abs`. -/
  abs : C → F
  /-- `std::complex<float>(std::cos(angle), std::sin(angle))` at the angle `-2 * kPi / len`. -/
  wLen : ℕ → C

section
variable {F C : Type} [Zero F] [Add F] [Mul F] [Div F] [NatCast F] [LT F] [DecidableLT F]
variable [Add C] [Sub C] [Mul C] [One C] {n : ℕ}

/-! ## `NoiseFilter` -/

/-- `filtered[i]`: the sum of a sample and its neighbours, and how many of them there are. -/
def NoiseFilter.window (samples : Fin n → F) (i : Fin n) : F × ℕ :=
  let alone := (samples i, 1)
  let left := if 0 < i.val then (alone.1 + samples ⟨i - 1, by omega⟩, alone.2 + 1) else alone
  if h : i.val + 1 < n then (left.1 + samples ⟨i + 1, h⟩, left.2 + 1) else left

/-- `NoiseFilter::apply`. -/
def NoiseFilter.apply (samples : Fin n → F) : Fin n → F := fun i =>
  (NoiseFilter.window samples i).1 / ((NoiseFilter.window samples i).2 : F)

/-! ## `FFT` -/

/-- `FFT::apply`: the magnitudes of the first `n / 2` coefficients, divided by `n`. -/
def FFT.apply (ops : ComplexOps F C) (samples : Fin n → F) : Option (Fin (n / 2) → F) :=
  (FFT.transform ops.wLen fun i => ops.ofReal (samples i)).map fun data i =>
    ops.abs (data ⟨i, by omega⟩) / (n : F)

/-! ## `TargetDetection` -/

structure TargetDetection.Detection (F : Type) where
  targetDetected : Bool
  peakMagnitude : F

/-- The loop over the spectrum, on `peak` and `sum`. -/
def TargetDetection.scan (spectrum : List F) (s : F × F) : F × F :=
  spectrum.foldl (fun s magnitude => (if s.1 < magnitude then magnitude else s.1, s.2 + magnitude))
    s

/-- `kDetectionFactor`. -/
def TargetDetection.kDetectionFactor : ℕ := 4

/-- `TargetDetection::apply`. -/
def TargetDetection.apply (spectrum : Fin n → F) : TargetDetection.Detection F :=
  let s := TargetDetection.scan (List.ofFn spectrum) (0, 0)
  let mean := s.2 / (n : F)
  ⟨decide ((TargetDetection.kDetectionFactor : F) * mean < s.1), s.1⟩

/-! ## `SignalProcessor` -/

/-- The three stages on a buffer of samples. -/
def SignalProcessor.detect (ops : ComplexOps F C) (samples : Fin n → F) :
    Option (TargetDetection.Detection F) :=
  (FFT.apply ops (NoiseFilter.apply samples)).map TargetDetection.apply

/-- `SignalProcessor::process`. -/
def SignalProcessor.process (ops : ComplexOps F C) (signal : RadarSignal F) :
    Option (ProcessedSignal F) :=
  (SignalProcessor.detect ops signal.samples).map fun detection =>
    ⟨signal.timestamp, detection.targetDetected, detection.peakMagnitude⟩

/-! ## The signals that enter it -/

/-- The state of the random engine after `k` draws. -/
def engineAfter {E : Type} (draw : E → F × E) (engine : E) : ℕ → E
  | 0 => engine
  | k + 1 => (draw (engineAfter draw engine k)).2

/-- `RadarProducer::generateSignal`: every sample is drawn from `uniformReal(-1.0, 1.0)`, in
order. -/
def generateSignal {E : Type} [One F] [Neg F] (uniformReal : F → F → E → F × E)
    (timestamp : Time) (engine : E) : RadarSignal F × E :=
  (⟨timestamp, fun i => (uniformReal (-1) 1 (engineAfter (uniformReal (-1) 1) engine i)).1⟩,
    engineAfter (uniformReal (-1) 1) engine kRadarSampleCount)

end

/-! ## What the detector finds -/

namespace TargetDetection

section
variable {F : Type} [Field F] [LinearOrder F] {n : ℕ}

/-- The loop keeps a running maximum and a running sum. -/
theorem scan_eq (spectrum : List F) (s : F × F) :
    scan spectrum s = (spectrum.foldl max s.1, s.2 + spectrum.sum) := by
  induction spectrum generalizing s with
  | nil => simp [scan]
  | cons magnitude spectrum ih =>
    have hstep : scan (magnitude :: spectrum) s =
        scan spectrum (max s.1 magnitude, s.2 + magnitude) := by
      simp only [scan, List.foldl_cons, max_def_lt]
    rw [hstep, ih, List.foldl_cons, List.sum_cons, add_assoc]

theorem apply_peakMagnitude (spectrum : Fin n → F) :
    (apply spectrum).peakMagnitude =
      (0 :: List.ofFn spectrum).max (List.cons_ne_nil 0 (List.ofFn spectrum)) := by
  simp only [apply, scan_eq]
  rfl

theorem apply_targetDetected (spectrum : Fin n → F) :
    (apply spectrum).targetDetected =
      decide (4 * ((∑ i, spectrum i) / n) < (apply spectrum).peakMagnitude) := by
  simp only [apply, scan_eq, kDetectionFactor, List.sum_ofFn, zero_add, Nat.cast_ofNat]

/-- The peak of a spectrum of magnitudes is its largest entry. -/
theorem isGreatest_peak (spectrum : Fin n → F) (hn : 0 < n) (hpos : ∀ i, 0 ≤ spectrum i) :
    IsGreatest (Set.range spectrum) (apply spectrum).peakMagnitude := by
  have hle : ∀ i, spectrum i ≤ (apply spectrum).peakMagnitude := by
    intro i
    rw [apply_peakMagnitude]
    refine List.le_max_of_mem (List.mem_cons_of_mem _ ?_)
    rw [List.mem_ofFn]
    exact ⟨i, rfl⟩
  constructor
  · have hmem := List.max_mem (List.cons_ne_nil 0 (List.ofFn spectrum))
    rw [← apply_peakMagnitude, List.mem_cons, List.mem_ofFn] at hmem
    rcases hmem with hzero | hmem
    · -- nothing exceeds the initial zero, so the first entry is zero as well
      refine ⟨⟨0, hn⟩, le_antisymm (hle _) ?_⟩
      rw [hzero]
      exact hpos _
    · exact hmem
  · rintro x ⟨i, rfl⟩
    exact hle i

variable [IsStrictOrderedRing F]

theorem foldl_max_mul {c : F} (hc : 0 ≤ c) (p : F) (l : List F) :
    (l.map (c * ·)).foldl max (c * p) = c * l.foldl max p := by
  induction l generalizing p with
  | nil => rfl
  | cons y l ih =>
    rw [List.map_cons, List.foldl_cons, List.foldl_cons, ← mul_max_of_nonneg p y hc, ih]

/-- Amplifying the spectrum amplifies the peak. -/
theorem peakMagnitude_mul {c : F} (hc : 0 ≤ c) (spectrum : Fin n → F) :
    (apply fun i => c * spectrum i).peakMagnitude = c * (apply spectrum).peakMagnitude := by
  have hmap : (List.ofFn fun i => c * spectrum i) = (List.ofFn spectrum).map (c * ·) := by
    rw [List.map_ofFn]
    rfl
  have hmax := foldl_max_mul hc 0 (List.ofFn spectrum)
  rw [mul_zero] at hmax
  rw [apply_peakMagnitude, apply_peakMagnitude, hmap]
  exact hmax

/-- And does not change what is detected, since the mean is amplified with it. -/
theorem targetDetected_mul {c : F} (hc : 0 < c) (spectrum : Fin n → F) :
    (apply fun i => c * spectrum i).targetDetected = (apply spectrum).targetDetected := by
  rw [apply_targetDetected, apply_targetDetected, peakMagnitude_mul hc.le, ← Finset.mul_sum,
    mul_div_assoc, mul_left_comm]
  simp only [mul_lt_mul_iff_right₀ hc]

/-- Silence is no target. -/
theorem apply_zero : apply (fun _ : Fin n => (0 : F)) = ⟨false, 0⟩ := by
  have hpeak : (apply fun _ : Fin n => (0 : F)).peakMagnitude = 0 := by
    have h := peakMagnitude_mul (le_refl (0 : F)) (fun _ : Fin n => (0 : F))
    rwa [zero_mul, zero_mul] at h
  have hdetected : (apply fun _ : Fin n => (0 : F)).targetDetected = false := by
    rw [apply_targetDetected, hpeak]
    simp
  cases h : apply fun _ : Fin n => (0 : F) with
  | mk detected peak =>
    rw [h] at hpeak hdetected
    exact congrArg₂ Detection.mk hdetected hpeak

end

end TargetDetection

/-! ## What the filter does -/

namespace NoiseFilter

variable {F : Type} [Field F] {n : ℕ}

theorem window_mul (c : F) (samples : Fin n → F) (i : Fin n) :
    window (fun j => c * samples j) i = (c * (window samples i).1, (window samples i).2) := by
  unfold window
  by_cases hleft : 0 < i.val <;> by_cases hright : i.val + 1 < n <;>
    simp [hleft, hright, mul_add]

theorem apply_mul (c : F) (samples : Fin n → F) :
    apply (fun j => c * samples j) = fun i => c * apply samples i := by
  funext i
  rw [apply, apply, window_mul, mul_div_assoc]

theorem window_const (b : F) (i : Fin n) :
    (window (fun _ => b) i).1 = (window (fun _ => b) i).2 * b := by
  unfold window
  by_cases hleft : 0 < i.val <;> by_cases hright : i.val + 1 < n <;>
    simp [hleft, hright] <;> ring

theorem window_count_pos (samples : Fin n → F) (i : Fin n) : 0 < (window samples i).2 := by
  unfold window
  by_cases hleft : 0 < i.val <;> by_cases hright : i.val + 1 < n <;> simp [hleft, hright]

variable [LinearOrder F] [IsStrictOrderedRing F]

/-- A constant signal passes unchanged. -/
theorem apply_const (b : F) : apply (fun _ : Fin n => b) = fun _ => b := by
  funext i
  have hcount : ((window (fun _ : Fin n => b) i).2 : F) ≠ 0 :=
    Nat.cast_ne_zero.mpr (window_count_pos _ i).ne'
  rw [apply, window_const, mul_comm, mul_div_assoc, div_self hcount, mul_one]

theorem abs_window_le {b : F} {samples : Fin n → F} (h : ∀ j, |samples j| ≤ b) (i : Fin n) :
    |(window samples i).1| ≤ (window samples i).2 * b := by
  unfold window
  by_cases hleft : 0 < i.val
  · by_cases hright : i.val + 1 < n
    · simp only [hleft, hright, if_true, dif_pos]
      have := abs_add_three (samples i) (samples ⟨i - 1, by omega⟩) (samples ⟨i + 1, hright⟩)
      have := h i
      have := h ⟨i - 1, by omega⟩
      have := h ⟨i + 1, hright⟩
      push_cast
      linarith
    · simp only [hleft, hright, if_true, dif_neg, not_false_eq_true]
      have := abs_add_le (samples i) (samples ⟨i - 1, by omega⟩)
      have := h i
      have := h ⟨i - 1, by omega⟩
      push_cast
      linarith
  · by_cases hright : i.val + 1 < n
    · simp only [hleft, hright, if_false, dif_pos]
      have := abs_add_le (samples i) (samples ⟨i + 1, hright⟩)
      have := h i
      have := h ⟨i + 1, hright⟩
      push_cast
      linarith
    · simp only [hleft, hright, if_false, dif_neg, not_false_eq_true]
      have := h i
      push_cast
      linarith

/-- The mean of at most three samples is not larger than they are. -/
theorem abs_apply_le {b : F} {samples : Fin n → F} (h : ∀ j, |samples j| ≤ b) (i : Fin n) :
    |apply samples i| ≤ b := by
  have hcount : (0 : F) < (window samples i).2 := Nat.cast_pos.mpr (window_count_pos samples i)
  rw [apply, abs_div, abs_of_pos hcount, div_le_iff₀ hcount, mul_comm]
  exact abs_window_le h i

end NoiseFilter

end RadarRT
