import Mathlib
import TgVoipRate.Pesq.LevelSpec

/-!
# The filters do not raise the energy

A transform keeps the energy, but for its length (`sum_normSq_dft`). The factors of a filter are
relative to its gain at 1000 Hz, and both filter curves are highest there, so no line of a spectrum
is raised, and the energy of a signal does not grow behind a filter (`apply_filter_attenuates`).
After its level is fixed, a signal has at least the power that was aimed at
(`level_reaches_target`).
-/

namespace TgVoipRate.Pesq.Acoustic

open Dsp (toComplex root ofReals conj_root isPrimitiveRoot_root)
open Fourier (dft map_dft sum_dft_mul_dft)

/-! ## Transforms -/

/-- The energy of a transform is that of the sequence, but for the length. -/
theorem sum_normSq_dft {w : ℂ} {N : ℕ} (hw : IsPrimitiveRoot w N)
    (hconj : starRingEnd ℂ w = w⁻¹) (z : ℕ → ℂ) :
    ∑ k ∈ Finset.range N, Complex.normSq (dft w N z k) =
      N * ∑ n ∈ Finset.range N, Complex.normSq (z n) := by
  have hproduct := sum_dft_mul_dft hw (fun n => starRingEnd ℂ (z n)) z
  rw [← hconj] at hproduct
  rw [← Complex.ofReal_inj]
  push_cast
  simp only [Complex.normSq_eq_conj_mul_self]
  rw [← hproduct]
  exact Finset.sum_congr rfl fun k _ => by rw [map_dft]

section Energy

variable {num : Numerics ℝ} (hnum : Exact num)

include hnum

/-- The energy of a spectrum of real numbers. -/
theorem energy_RealFFT (q : ℕ) (x : ℕ → ℝ) :
    ∑ k ∈ Finset.range (2 ^ (q + 1)),
        Complex.normSq (wholeSpectrum q (num.RealFFT x (2 ^ (q + 1))) k) =
      (2 ^ (q + 1) : ℕ) * ∑ n ∈ Finset.range (2 ^ (q + 1)), x n ^ 2 := by
  have hN : 2 ^ (q + 1) ≠ 0 := (Nat.two_pow_pos _).ne'
  have hspectrum : ∀ k ∈ Finset.range (2 ^ (q + 1)),
      Complex.normSq (wholeSpectrum q (num.RealFFT x (2 ^ (q + 1))) k) =
        Complex.normSq (dft (root (2 ^ (q + 1))) (2 ^ (q + 1)) (ofReals x) k) := fun k hk => by
    rw [wholeSpectrum_eq (fun _ hhalf => hnum.toComplex_RealFFT x q (fun _ _ => rfl) hhalf)
      (fun _ hle => Dsp.dft_mirror hN x hle) (Finset.mem_range.mp hk)]
  rw [Finset.sum_congr rfl hspectrum, sum_normSq_dft (isPrimitiveRoot_root hN) (conj_root _)]
  refine congrArg _ (Finset.sum_congr rfl fun n _ => ?_)
  unfold ofReals
  rw [Complex.normSq_ofReal, pow_two]

/-- The way back from a spectrum does not raise the energy, but for the length. -/
theorem energy_RealIFFT_le (q : ℕ) (x : ℕ → ℝ) :
    (2 ^ (q + 1) : ℕ) * ∑ i ∈ Finset.range (2 ^ (q + 1)), num.RealIFFT x (2 ^ (q + 1)) i ^ 2 ≤
      ∑ k ∈ Finset.range (2 ^ (q + 1)), Complex.normSq (wholeSpectrum q x k) := by
  have hN : 2 ^ (q + 1) ≠ 0 := (Nat.two_pow_pos _).ne'
  have hpos : (0 : ℝ) < (2 ^ (q + 1) : ℕ) := Nat.cast_pos.mpr (Nat.two_pow_pos _)
  have hroot := isPrimitiveRoot_root hN
  have hconj : starRingEnd ℂ (root (2 ^ (q + 1)))⁻¹ = (root (2 ^ (q + 1)))⁻¹⁻¹ := by
    rw [map_inv₀, conj_root]
  -- What is taken back is the real part.
  have hreal : ∀ i ∈ Finset.range (2 ^ (q + 1)), num.RealIFFT x (2 ^ (q + 1)) i ^ 2 ≤
      Complex.normSq (dft (root (2 ^ (q + 1)))⁻¹ (2 ^ (q + 1)) (wholeSpectrum q x) i) /
        ((2 ^ (q + 1) : ℕ) * (2 ^ (q + 1) : ℕ)) := fun i hi => by
    rw [hnum.RealIFFT_re x q (Finset.mem_range.mp hi), ← Complex.normSq_natCast,
      ← Complex.normSq_div, pow_two]
    exact Complex.re_sq_le_normSq _
  calc (2 ^ (q + 1) : ℕ) * ∑ i ∈ Finset.range (2 ^ (q + 1)), num.RealIFFT x (2 ^ (q + 1)) i ^ 2
      ≤ (2 ^ (q + 1) : ℕ) * ∑ i ∈ Finset.range (2 ^ (q + 1)),
          Complex.normSq (dft (root (2 ^ (q + 1)))⁻¹ (2 ^ (q + 1)) (wholeSpectrum q x) i) /
            ((2 ^ (q + 1) : ℕ) * (2 ^ (q + 1) : ℕ)) :=
        mul_le_mul_of_nonneg_left (Finset.sum_le_sum hreal) hpos.le
    _ = ∑ k ∈ Finset.range (2 ^ (q + 1)), Complex.normSq (wholeSpectrum q x k) := by
        rw [← Finset.sum_div, sum_normSq_dft hroot.inv hconj, mul_div_mul_left _ _ hpos.ne',
          mul_div_cancel₀ _ hpos.ne']

end Energy

/-! ## Filters -/

/-- The curve goes from zero to half of the sample rate, and is highest at 1000 Hz. -/
structure FilterCurve.PeaksAt1000 (curve : FilterCurve) (rate : Rate) : Prop where
  rate_nonneg : 0 ≤ rate.Fs
  first : (curve.point 0).1 = 0
  last : (rate.Fs : ℚ) ≤ 2 * (curve.point (curve.number_of_points - 1)).1
  peak : ∃ i, i + 1 < curve.number_of_points ∧ (curve.point i).1 = 1000 ∧
    ∀ j < curve.number_of_points, (curve.point j).2 ≤ (curve.point i).2

/-- The filter behind which the power is measured is such a filter. -/
theorem align_filter_peaks {rate : Rate} (hrate : rate = rate_16k ∨ rate = rate_8k) :
    align_filter_dB.PeaksAt1000 rate := by
  rcases hrate with rfl | rfl
  · exact ⟨by decide, rfl, by decide +kernel, 14, by decide, rfl, by decide +kernel⟩
  · exact ⟨by decide, rfl, by decide +kernel, 14, by decide, rfl, by decide +kernel⟩

/-- And so is the filter of a telephone. -/
theorem standard_IRS_filter_peaks {rate : Rate} (hrate : rate = rate_16k ∨ rate = rate_8k) :
    standard_IRS_filter_dB.PeaksAt1000 rate := by
  rcases hrate with rfl | rfl
  · exact ⟨by decide, rfl, by decide +kernel, 14, by decide, rfl, by decide +kernel⟩
  · exact ⟨by decide, rfl, by decide +kernel, 14, by decide, rfl, by decide +kernel⟩

/-- The energy of the samples that are filtered. -/
noncomputable def filteredEnergy (rate : Rate) (n : ℤ) (data : ℤ → ℝ) : ℝ :=
  ∑ k ∈ Finset.range (filteredLength rate n).toNat, data (rate.buffer + k) ^ 2

section Filter

variable {num : Numerics ℝ} (hnum : Exact num) {rate : Rate} {n : ℤ}

include hnum

omit hnum in
/-- The frequency of a line is at most half of the sample rate. -/
theorem line_frequency_le (hrate : 0 ≤ rate.Fs) (q : ℕ) {k : ℕ} (hk : k ≤ 2 ^ q) :
    2 * (k * ((rate.Fs : ℝ) / (2 ^ (q + 1) : ℕ))) ≤ rate.Fs := by
  have hpos : (0 : ℝ) < (2 ^ (q + 1) : ℕ) := Nat.cast_pos.mpr (Nat.two_pow_pos _)
  have hFs : (0 : ℝ) ≤ rate.Fs := Int.cast_nonneg hrate
  have hle : 2 * (k : ℝ) ≤ (2 ^ (q + 1) : ℕ) := by
    rw [pow_succ]
    exact_mod_cast (by omega : 2 * k ≤ 2 ^ q * 2)
  calc 2 * (k * ((rate.Fs : ℝ) / (2 ^ (q + 1) : ℕ)))
      = 2 * k * (rate.Fs / (2 ^ (q + 1) : ℕ)) := by ring
    _ ≤ (2 ^ (q + 1) : ℕ) * (rate.Fs / (2 ^ (q + 1) : ℕ)) :=
        mul_le_mul_of_nonneg_right hle (div_nonneg hFs hpos.le)
    _ = rate.Fs := mul_div_cancel₀ _ hpos.ne'

/-- No line of a spectrum is raised. -/
theorem lineFactor_le_one {curve : FilterCurve} (h : curve.PeaksAt1000 rate) (q : ℕ) {k : ℕ}
    (hk : k ≤ 2 ^ q) : lineFactor num ((rate.Fs : ℝ) / (2 ^ (q + 1) : ℕ)) curve k ≤ 1 := by
  obtain ⟨hrate, hfirst, hlast, i, hi, hpeak, hhighest⟩ := h
  have hFs : (0 : ℝ) ≤ rate.Fs := Int.cast_nonneg hrate
  have hhalf := line_frequency_le hrate q hk
  have hlast : (rate.Fs : ℝ) ≤ 2 * (curve.point (curve.number_of_points - 1)).1 := by
    exact_mod_cast hlast
  have hgain : interpolate ((1000 : ℚ) : ℝ) curve = (curve.point i).2 := by
    rw [← hpeak]
    exact curve.interpolate_point hi
  have hline : interpolate (k * ((rate.Fs : ℝ) / (2 ^ (q + 1) : ℕ))) curve ≤
      (curve.point i).2 := by
    refine curve.interpolate_le ?_ (by linarith) fun j hj => Rat.cast_le.mpr (hhighest j hj)
    rw [hfirst, Rat.cast_zero]
    positivity
  unfold lineFactor
  dsimp only
  rw [hnum.pow_eq, hgain]
  refine Real.rpow_le_one_of_one_le_of_nonpos (by norm_num) ?_
  exact div_nonpos_of_nonpos_of_nonneg (by linarith) (by norm_num)

/-- The energy of a spectrum behind a filter. -/
theorem normSq_scaleLines_le {curve : FilterCurve} (h : curve.PeaksAt1000 rate) (q : ℕ)
    (x : ℕ → ℝ) {k : ℕ} (hk : k < 2 ^ (q + 1)) :
    Complex.normSq (wholeSpectrum q (scaleLines (2 ^ (q + 1))
        (lineFactor num ((rate.Fs : ℝ) / (2 ^ (q + 1) : ℕ)) curve) x) k) ≤
      Complex.normSq (wholeSpectrum q x k) := by
  have hline : ∀ j ≤ 2 ^ q, Complex.normSq (toComplex (scaleLines (2 ^ (q + 1))
        (lineFactor num ((rate.Fs : ℝ) / (2 ^ (q + 1) : ℕ)) curve) x) j) ≤
      Complex.normSq (toComplex x j) := by
    intro j hj
    have hpos := lineFactor_pos hnum ((rate.Fs : ℝ) / (2 ^ (q + 1) : ℕ)) curve j
    have hone := lineFactor_le_one hnum h q hj
    rw [toComplex_scaleLines q _ _ hj, Complex.normSq_mul, Complex.normSq_ofReal]
    exact mul_le_of_le_one_right (Complex.normSq_nonneg _)
      (mul_le_one₀ hone hpos.le hone)
  unfold wholeSpectrum
  rw [pow_succ] at hk
  split
  · rename_i hhalf
    exact hline k hhalf
  · rw [Complex.normSq_conj, Complex.normSq_conj]
    exact hline _ (by rw [pow_succ]; omega)

omit hnum in
/-- The energy of the samples in the array that is transformed. -/
theorem sum_filterWindow {N : ℕ} (hN : (filteredLength rate n).toNat ≤ N) (data : ℤ → ℝ) :
    ∑ k ∈ Finset.range N, filterWindow rate n data k ^ 2 = filteredEnergy rate n data := by
  unfold filteredEnergy
  rw [← Finset.sum_subset (Finset.range_subset_range.mpr hN)]
  · refine Finset.sum_congr rfl fun k hk => ?_
    have hin := Finset.mem_range.mp hk
    unfold filterWindow
    rw [if_pos (by omega), add_comm]
  · intro k _ hout
    rw [Finset.mem_range] at hout
    unfold filterWindow
    rw [if_neg (by omega), zero_pow two_ne_zero]

/-- A filter whose curve is highest at 1000 Hz does not raise the energy of a signal. -/
theorem filteredEnergy_apply_filter_le {curve : FilterCurve} (h : curve.PeaksAt1000 rate)
    (hlong : 2 ≤ filteredLength rate n) (data : ℤ → ℝ) :
    filteredEnergy rate n (apply_filter num rate data n curve) ≤ filteredEnergy rate n data := by
  obtain ⟨q, hsize, hle⟩ := exists_nextpow2 (n := (filteredLength rate n).toNat) (by omega)
  have hpos : (0 : ℝ) < (2 ^ (q + 1) : ℕ) := Nat.cast_pos.mpr (Nat.two_pow_pos _)
  set spectrum := num.RealFFT (filterWindow rate n data) (2 ^ (q + 1)) with hspectrum
  set scaled := scaleLines (2 ^ (q + 1))
    (lineFactor num ((rate.Fs : ℝ) / (2 ^ (q + 1) : ℕ)) curve) spectrum
  have hfiltered : ∀ k ∈ Finset.range (filteredLength rate n).toNat,
      apply_filter num rate data n curve (rate.buffer + k) ^ 2 =
        num.RealIFFT scaled (2 ^ (q + 1)) k ^ 2 := by
    intro k hk
    have hin := Finset.mem_range.mp hk
    unfold apply_filter
    rw [hsize, if_pos (by omega), add_sub_cancel_left, Int.toNat_natCast]
  refine le_of_mul_le_mul_left ?_ hpos
  calc (2 ^ (q + 1) : ℕ) * filteredEnergy rate n (apply_filter num rate data n curve)
      = (2 ^ (q + 1) : ℕ) * ∑ k ∈ Finset.range (filteredLength rate n).toNat,
          num.RealIFFT scaled (2 ^ (q + 1)) k ^ 2 := by
        unfold filteredEnergy
        rw [Finset.sum_congr rfl hfiltered]
    _ ≤ (2 ^ (q + 1) : ℕ) * ∑ k ∈ Finset.range (2 ^ (q + 1)),
          num.RealIFFT scaled (2 ^ (q + 1)) k ^ 2 :=
        -- The samples behind those that are kept are dropped.
        mul_le_mul_of_nonneg_left (Finset.sum_le_sum_of_subset_of_nonneg
          (Finset.range_subset_range.mpr hle) fun _ _ _ => sq_nonneg _) hpos.le
    _ ≤ ∑ k ∈ Finset.range (2 ^ (q + 1)), Complex.normSq (wholeSpectrum q scaled k) :=
        energy_RealIFFT_le hnum q scaled
    _ ≤ ∑ k ∈ Finset.range (2 ^ (q + 1)), Complex.normSq (wholeSpectrum q spectrum k) :=
        Finset.sum_le_sum fun k hk => normSq_scaleLines_le hnum h q _ (Finset.mem_range.mp hk)
    _ = (2 ^ (q + 1) : ℕ) * filteredEnergy rate n data := by
        rw [hspectrum, energy_RealFFT hnum, sum_filterWindow hle]

/-- In exact arithmetic, neither the filter behind which the power is measured nor that of a
telephone raises the energy of a signal. -/
theorem apply_filter_attenuates {curve : FilterCurve} (hrate : rate = rate_16k ∨ rate = rate_8k)
    (hcurve : curve = align_filter_dB ∨ curve = standard_IRS_filter_dB)
    (hlong : 2 ≤ filteredLength rate n) (data : ℤ → ℝ) :
    filteredEnergy rate n (apply_filter num rate data n curve) ≤ filteredEnergy rate n data := by
  rcases hcurve with rfl | rfl
  · exact filteredEnergy_apply_filter_le hnum (align_filter_peaks hrate) hlong data
  · exact filteredEnergy_apply_filter_le hnum (standard_IRS_filter_peaks hrate) hlong data

omit hnum in
/-- A click behind the filter of a telephone. -/
theorem apply_filter_attenuates_click :
    filteredEnergy rate_16k 13600 (apply_filter realNumerics rate_16k (clickAt rate_16k.buffer)
        13600 standard_IRS_filter_dB) ≤
      filteredEnergy rate_16k 13600 (clickAt rate_16k.buffer) :=
  apply_filter_attenuates exact_realNumerics (Or.inl rfl) (Or.inr rfl) clickAt_isPadded.long _

end Filter

/-! ## The level -/

section Level

variable {num : Numerics ℝ} (hnum : Exact num) {rate : Rate}
  (hrate : rate = rate_16k ∨ rate = rate_8k) {data fixed : ℤ → ℝ} {n maxNsamples : ℤ}
  (hpadded : IsPadded rate data n) (hmax : n ≤ maxNsamples)

/-- The power of a signal is its energy, divided by the number of samples of the longer one. -/
theorem pow_of_eq_energy (x : ℤ → ℝ) (divisor : ℤ) :
    pow_of x rate.buffer (n - rate.buffer + rate.padding) divisor =
      filteredEnergy rate n x / divisor := by
  have hlength : n - rate.buffer + rate.padding - rate.buffer = filteredLength rate n := by
    unfold filteredLength
    ring
  unfold pow_of filteredEnergy
  rw [hlength]
  simp only [pow_two]

include hnum hrate hpadded hmax

/-- In exact arithmetic, a signal whose level is fixed has at least the power that is aimed at,
which is measured behind a filter. -/
theorem level_reaches_target
    (hfixed : fix_power_level num rate data n maxNsamples = some fixed) :
    (TARGET_AVG_POWER : ℝ) ≤ pow_of fixed rate.buffer (n - rate.buffer + rate.padding)
      (maxNsamples - 2 * rate.buffer + rate.padding) := by
  have hlong := hpadded.long
  have hdivisor : (0 : ℝ) ≤ (maxNsamples - 2 * rate.buffer + rate.padding : ℤ) := by
    unfold filteredLength at hlong
    exact_mod_cast (by omega : (0 : ℤ) ≤ maxNsamples - 2 * rate.buffer + rate.padding)
  rw [← power_of_fixed hnum hpadded hmax hfixed, pow_of_eq_energy]
  unfold power_above_300Hz
  rw [pow_of_eq_energy]
  exact div_le_div_of_nonneg_right
    (filteredEnergy_apply_filter_le hnum (align_filter_peaks hrate) hlong fixed) hdivisor

omit hnum hrate hpadded hmax

/-- The power of a click after its level is fixed. -/
theorem level_reaches_target_click :
    ∃ fixed, fix_power_level realNumerics rate_16k (clickAt rate_16k.buffer) 13600 13600 =
        some fixed ∧
      (TARGET_AVG_POWER : ℝ) ≤ pow_of fixed rate_16k.buffer
        (13600 - rate_16k.buffer + rate_16k.padding)
        (13600 - 2 * rate_16k.buffer + rate_16k.padding) := by
  have hpower := power_above_300Hz_click exact_realNumerics clickAt_isPadded.long (le_refl 13600)
  have hsome := fix_power_level_eq clickAt_isPadded hpower.ne'
  exact ⟨_, hsome, level_reaches_target exact_realNumerics (Or.inl rfl) clickAt_isPadded
    (le_refl 13600) hsome⟩

end Level

end TgVoipRate.Pesq.Acoustic
