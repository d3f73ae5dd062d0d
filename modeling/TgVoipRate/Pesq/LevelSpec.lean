import Mathlib
import TgVoipRate.Pesq.Filters
import TgVoipRate.Pesq.TransformsSpec

/-!
# What the filters and the level do

A filter curve is drawn by lines between its points, and does not rise above the highest one
(`FilterCurve.interpolate_le`). A filter by transforms is linear (`apply_filter_combination`). So
the power behind it grows with the square of a gain, and `fix_power_level` gives every signal the
same power (`level_is_fixed`), and leaves nothing of a gain but its sign
(`fix_power_level_amplify`).
-/

namespace TgVoipRate.Pesq.Acoustic

open Dsp (nextpow2 nextpow2_spec toComplex toComplex_setPairs)

/-! ## Filter curves -/

namespace FilterCurve

variable (curve : FilterCurve)

/-- The frequencies of two points in order. -/
theorem point_lt {i j : ℕ} (hij : i < j) (hj : j < curve.number_of_points) :
    (curve.point i).1 < (curve.point j).1 := by
  have hi : i < curve.points.length := hij.trans hj
  have hincreasing := List.pairwise_iff_getElem.mp curve.increasing i j hi hj hij
  unfold point
  rwa [List.getD_eq_getElem _ _ hi, List.getD_eq_getElem _ _ hj]

/-- A line goes through both of its points. -/
theorem line_point {i : ℕ} (hi : i + 1 < curve.number_of_points) :
    curve.line i ((curve.point i).1 : ℝ) = (curve.point i).2 ∧
      curve.line i ((curve.point (i + 1)).1 : ℝ) = (curve.point (i + 1)).2 := by
  have hlt : ((curve.point i).1 : ℝ) < (curve.point (i + 1)).1 :=
    Rat.cast_lt.mpr (curve.point_lt i.lt_succ_self hi)
  have hne : ((curve.point (i + 1)).1 : ℝ) - (curve.point i).1 ≠ 0 := (sub_pos.mpr hlt).ne'
  unfold line
  dsimp only
  constructor
  · rw [sub_self, zero_mul, zero_add, mul_div_cancel_left₀ _ hne]
  · rw [sub_self, zero_mul, add_zero, mul_div_cancel_left₀ _ hne]

/-- Between its points, a line is not above the higher one of their gains. -/
theorem line_le_max {i : ℕ} (hi : i + 1 < curve.number_of_points) {freq : ℝ}
    (hlow : ((curve.point i).1 : ℝ) ≤ freq) (hhigh : freq ≤ (curve.point (i + 1)).1) :
    curve.line i freq ≤ max ((curve.point i).2 : ℝ) (curve.point (i + 1)).2 := by
  have hlt : ((curve.point i).1 : ℝ) < (curve.point (i + 1)).1 :=
    Rat.cast_lt.mpr (curve.point_lt i.lt_succ_self hi)
  have hpos := sub_pos.mpr hlt
  unfold line
  dsimp only
  -- The line is a mean of the two gains.
  generalize ((curve.point i).1 : ℝ) = freqLow at *
  generalize ((curve.point (i + 1)).1 : ℝ) = freqHigh at *
  generalize ((curve.point i).2 : ℝ) = curveLow
  generalize ((curve.point (i + 1)).2 : ℝ) = curveHigh
  have hfirst : 0 ≤ freq - freqLow := sub_nonneg.mpr hlow
  have hsecond : 0 ≤ freqHigh - freq := sub_nonneg.mpr hhigh
  rw [div_le_iff₀ hpos]
  calc (freq - freqLow) * curveHigh + (freqHigh - freq) * curveLow
      ≤ (freq - freqLow) * max curveLow curveHigh +
          (freqHigh - freq) * max curveLow curveHigh :=
        add_le_add (mul_le_mul_of_nonneg_left (le_max_right _ _) hfirst)
          (mul_le_mul_of_nonneg_left (le_max_left _ _) hsecond)
    _ = max curveLow curveHigh * (freqHigh - freqLow) := by ring

/-- The loop stops at the first point from one on that is not below the frequency, if the last one
is not below it. -/
theorem firstNotBelow_spec {freq : ℝ}
    (hlast : freq ≤ (curve.point (curve.number_of_points - 1)).1) {i : ℕ}
    (hi : i < curve.number_of_points) :
    i ≤ curve.firstNotBelow freq i ∧ curve.firstNotBelow freq i < curve.number_of_points ∧
      freq ≤ (curve.point (curve.firstNotBelow freq i)).1 ∧
        ∀ k, i ≤ k → k < curve.firstNotBelow freq i → ((curve.point k).1 : ℝ) < freq := by
  rw [firstNotBelow]
  split
  · rename_i hguard
    obtain ⟨hle, hlt, hstop, hbelow⟩ := firstNotBelow_spec hlast hguard.1
    refine ⟨by omega, hlt, hstop, fun k hk hkstop => ?_⟩
    rcases hk.eq_or_lt with rfl | hlater
    · exact hguard.2
    · exact hbelow k hlater hkstop
  · rename_i hguard
    refine ⟨le_rfl, hi, ?_, fun k hk hkstop => absurd hkstop (by omega)⟩
    by_contra hbelow
    have hend : i = curve.number_of_points - 1 := by
      by_contra hne
      exact hguard ⟨by omega, not_le.mp hbelow⟩
    exact hbelow (hend ▸ hlast)
termination_by curve.number_of_points - i

/-- Between two neighbours, `interpolate` draws the line through them. -/
theorem interpolate_eq_line {i : ℕ} (hi : i + 1 < curve.number_of_points) {freq : ℝ}
    (hlow : ((curve.point i).1 : ℝ) ≤ freq) (hhigh : freq ≤ (curve.point (i + 1)).1) :
    interpolate freq curve = curve.line i freq := by
  have hmono : ∀ {j k : ℕ}, j < k → k < curve.number_of_points →
      ((curve.point j).1 : ℝ) < (curve.point k).1 := fun hjk hk =>
    Rat.cast_lt.mpr (curve.point_lt hjk hk)
  unfold interpolate
  split
  · rename_i hfirst
    have hzero : i = 0 := by
      by_contra hne
      exact absurd (hlow.trans hfirst) (not_le.mpr (hmono (Nat.pos_of_ne_zero hne) (by omega)))
    rw [hzero]
  · split
    · rename_i hlast
      have hend : curve.number_of_points - 2 = i := by
        by_contra hne
        have hbefore : i + 1 < curve.number_of_points - 1 := by omega
        exact absurd (hlast.trans hhigh) (not_le.mpr (hmono hbefore (by omega)))
      rw [hend]
    · rename_i hlast
      obtain ⟨hone, hlt, hstop, hbelow⟩ :=
        curve.firstNotBelow_spec (not_le.mp hlast).le (i := 1) (by omega)
      generalize curve.firstNotBelow freq 1 = k at hone hlt hstop hbelow ⊢
      have hk : k ≤ i + 1 := by
        by_contra hgt
        exact absurd hhigh (not_le.mpr (hbelow (i + 1) (by omega) (by omega)))
      rcases hk.eq_or_lt with rfl | hle
      · rw [Nat.add_sub_cancel]
      · -- The frequency is that of the first point, on which two lines meet.
        have hki : k = i := by
          by_contra hne
          exact absurd (hlow.trans hstop) (not_le.mpr (hmono (by omega) (by omega)))
        subst hki
        have hfreq : freq = (curve.point k).1 := le_antisymm hstop hlow
        have hbefore := (curve.line_point (i := k - 1) (by omega)).2
        rw [Nat.sub_add_cancel hone] at hbefore
        rw [hfreq, hbefore, (curve.line_point hi).1]

/-- On a curve, `interpolate` goes through the points, but for the last one. -/
theorem interpolate_point {i : ℕ} (hi : i + 1 < curve.number_of_points) :
    interpolate ((curve.point i).1 : ℝ) curve = (curve.point i).2 := by
  have hle : ((curve.point i).1 : ℝ) ≤ (curve.point (i + 1)).1 :=
    Rat.cast_le.mpr (curve.point_lt i.lt_succ_self hi).le
  rw [curve.interpolate_eq_line hi le_rfl hle, (curve.line_point hi).1]

/-- A frequency on a curve is between two neighbours. -/
theorem exists_neighbours {freq : ℝ} (hfirst : ((curve.point 0).1 : ℝ) ≤ freq)
    (hlast : freq ≤ (curve.point (curve.number_of_points - 1)).1) :
    ∃ i, i + 1 < curve.number_of_points ∧ ((curve.point i).1 : ℝ) ≤ freq ∧
      freq ≤ (curve.point (i + 1)).1 := by
  have htwo : 2 ≤ curve.number_of_points := curve.two_le
  obtain ⟨hone, hlt, hstop, hbelow⟩ := curve.firstNotBelow_spec hlast (i := 1) (by omega)
  generalize curve.firstNotBelow freq 1 = k at hone hlt hstop hbelow
  obtain ⟨i, rfl⟩ : ∃ i, k = i + 1 := ⟨k - 1, by omega⟩
  refine ⟨i, hlt, ?_, hstop⟩
  rcases Nat.eq_zero_or_pos i with rfl | hpos
  · exact hfirst
  · exact (hbelow i hpos i.lt_succ_self).le

/-- On a curve, `interpolate` is not above the highest gain. -/
theorem interpolate_le {freq : ℝ} (hfirst : ((curve.point 0).1 : ℝ) ≤ freq)
    (hlast : freq ≤ (curve.point (curve.number_of_points - 1)).1) {gain : ℝ}
    (hgain : ∀ i < curve.number_of_points, ((curve.point i).2 : ℝ) ≤ gain) :
    interpolate freq curve ≤ gain := by
  obtain ⟨i, hi, hlow, hhigh⟩ := curve.exists_neighbours hfirst hlast
  rw [curve.interpolate_eq_line hi hlow hhigh]
  exact (curve.line_le_max hi hlow hhigh).trans (max_le (hgain i (by omega)) (hgain (i + 1) hi))

end FilterCurve

/-! ## Filters by transforms -/

/-- A signal with a gain. -/
def amplify (c : ℝ) (data : ℤ → ℝ) (i : ℤ) : ℝ := c * data i

/-- The size of the transforms of a signal. -/
theorem exists_nextpow2 {n : ℕ} (h : 2 ≤ n) : ∃ q, nextpow2 n = 2 ^ (q + 1) ∧ n ≤ 2 ^ (q + 1) := by
  obtain ⟨⟨p, hp⟩, hle⟩ := nextpow2_spec n
  rw [hp] at hle ⊢
  cases p with
  | zero =>
    rw [pow_zero] at hle
    omega
  | succ q => exact ⟨q, rfl, hle⟩

/-- The lines of a spectrum after they were multiplied. -/
theorem toComplex_scaleLines (q : ℕ) (factor x : ℕ → ℝ) {k : ℕ} (hk : k ≤ 2 ^ q) :
    toComplex (scaleLines (2 ^ (q + 1)) factor x) k = toComplex x k * factor k := by
  have hsize : 2 ^ (q + 1) / 2 = 2 ^ q := (Dsp.two_pow_succ_div q).1
  unfold scaleLines
  rw [toComplex_setPairs, if_pos (List.mem_range.mpr (by omega))]
  apply Complex.ext <;> simp [toComplex]

section Filter

variable {num : Numerics ℝ} (hnum : Exact num) {rate : Rate} {n : ℤ}
  (hlong : 2 ≤ filteredLength rate n)

include hnum hlong

/-- A filter by transforms is linear. -/
theorem apply_filter_combination (curve : FilterCurve) (a b : ℝ) (x y : ℤ → ℝ) :
    apply_filter num rate (fun i => a * x i + b * y i) n curve = fun i =>
      a * apply_filter num rate x n curve i + b * apply_filter num rate y n curve i := by
  obtain ⟨q, hsize, hle⟩ := exists_nextpow2 (n := (filteredLength rate n).toNat) (by omega)
  funext i
  unfold apply_filter
  dsimp only
  rw [hsize]
  generalize lineFactor num _ curve = factor
  split
  · rename_i hin
    refine hnum.RealIFFT_combination q (fun k hk => ?_) (by omega)
    have hspectrum : toComplex (num.RealFFT (filterWindow rate n fun i => a * x i + b * y i)
        (2 ^ (q + 1))) k =
        a * toComplex (num.RealFFT (filterWindow rate n x) (2 ^ (q + 1))) k +
          b * toComplex (num.RealFFT (filterWindow rate n y) (2 ^ (q + 1))) k := by
      refine hnum.RealFFT_combination q (fun i _ => ?_) hk
      unfold filterWindow
      split
      · rfl
      · ring
    rw [toComplex_scaleLines q _ _ hk, toComplex_scaleLines q _ _ hk,
      toComplex_scaleLines q _ _ hk, hspectrum]
    ring
  · rfl

/-- A multiple of a signal is filtered to the same multiple. -/
theorem apply_filter_amplify (curve : FilterCurve) (c : ℝ) (data : ℤ → ℝ) :
    apply_filter num rate (amplify c data) n curve =
      amplify c (apply_filter num rate data n curve) := by
  have hsum := apply_filter_combination hnum hlong curve c 0 data data
  simp only [zero_mul, add_zero] at hsum
  exact hsum

end Filter

/-! ## The level -/

/-- The power of a multiple of a signal. -/
theorem pow_of_amplify (c : ℝ) (x : ℤ → ℝ) (start_sample stop_sample divisor : ℤ) :
    pow_of (amplify c x) start_sample stop_sample divisor =
      c ^ 2 * pow_of x start_sample stop_sample divisor := by
  unfold pow_of amplify
  rw [← mul_div_assoc, Finset.mul_sum]
  refine congrArg (· / _) (Finset.sum_congr rfl fun k _ => ?_)
  ring

/-- A signal between zeros that is long enough to be filtered. -/
structure IsPadded (rate : Rate) (data : ℤ → ℝ) (n : ℤ) : Prop where
  zero_outside : ∀ i, ¬(0 ≤ i ∧ i < n) → data i = 0
  long : 2 ≤ filteredLength rate n

variable {num : Numerics ℝ} {rate : Rate} {data : ℤ → ℝ} {n maxNsamples : ℤ}

/-- A multiple of it. -/
theorem IsPadded.amplify (h : IsPadded rate data n) (c : ℝ) :
    IsPadded rate (amplify c data) n :=
  ⟨fun i hi => by rw [Acoustic.amplify, h.zero_outside i hi, mul_zero], h.long⟩

/-- Its samples are all that there is to multiply. -/
theorem IsPadded.scaleSamples_eq (h : IsPadded rate data n) (global_scale : ℝ) :
    scaleSamples n global_scale data = Acoustic.amplify global_scale data := by
  funext i
  unfold scaleSamples Acoustic.amplify
  split
  · exact mul_comm _ _
  · rename_i hout
    rw [h.zero_outside i hout, mul_zero]

section Level

variable (hnum : Exact num) (hpadded : IsPadded rate data n) (hmax : n ≤ maxNsamples)

include hnum hpadded

/-- The power grows with the square of a gain. -/
theorem power_above_300Hz_amplify (c : ℝ) :
    power_above_300Hz num rate (amplify c data) n maxNsamples =
      c ^ 2 * power_above_300Hz num rate data n maxNsamples := by
  unfold power_above_300Hz
  rw [apply_filter_amplify hnum hpadded.long, pow_of_amplify]

omit hnum in
include hmax in
/-- The power is not negative. -/
theorem power_above_300Hz_nonneg : 0 ≤ power_above_300Hz num rate data n maxNsamples := by
  have hlong := hpadded.long
  unfold filteredLength at hlong
  have hdivisor : (0 : ℝ) ≤ (maxNsamples - 2 * rate.buffer + rate.padding : ℤ) := by
    exact_mod_cast (by omega : (0 : ℤ) ≤ maxNsamples - 2 * rate.buffer + rate.padding)
  exact div_nonneg (Finset.sum_nonneg fun k _ => mul_self_nonneg _) hdivisor

omit hnum in
/-- A signal with power is multiplied so that its level is fixed. -/
theorem fix_power_level_eq (hpower : power_above_300Hz num rate data n maxNsamples ≠ 0) :
    fix_power_level num rate data n maxNsamples = some (amplify
      (num.sqrt (TARGET_AVG_POWER / power_above_300Hz num rate data n maxNsamples)) data) := by
  rw [← hpadded.scaleSamples_eq]
  exact if_neg hpower

include hmax in
/-- Then it has the power that is aimed at. -/
theorem power_of_fixed {fixed : ℤ → ℝ}
    (hfixed : fix_power_level num rate data n maxNsamples = some fixed) :
    power_above_300Hz num rate fixed n maxNsamples = TARGET_AVG_POWER := by
  have hnonneg : 0 ≤ power_above_300Hz num rate data n maxNsamples :=
    power_above_300Hz_nonneg hpadded hmax
  have htarget : (0 : ℝ) ≤ (TARGET_AVG_POWER : ℚ) := by norm_num [TARGET_AVG_POWER]
  by_cases hzero : power_above_300Hz num rate data n maxNsamples = 0
  · rw [show fix_power_level num rate data n maxNsamples = none from if_pos hzero] at hfixed
    cases hfixed
  · rw [fix_power_level_eq hpadded hzero] at hfixed
    obtain rfl := Option.some.inj hfixed
    rw [power_above_300Hz_amplify hnum hpadded, hnum.sqrt_eq,
      Real.sq_sqrt (div_nonneg htarget hnonneg), div_mul_cancel₀ _ hzero]

include hmax in
/-- The level of a signal is fixed: either it has no power above 300 Hz, or it has the same power as
every other signal, and fixing its level once more changes nothing. -/
theorem level_is_fixed :
    match fix_power_level num rate data n maxNsamples with
    | none => power_above_300Hz num rate data n maxNsamples = 0
    | some fixed => power_above_300Hz num rate fixed n maxNsamples = TARGET_AVG_POWER ∧
        fix_power_level num rate fixed n maxNsamples = some fixed := by
  have htarget : (0 : ℝ) < (TARGET_AVG_POWER : ℚ) := by norm_num [TARGET_AVG_POWER]
  cases hfixed : fix_power_level num rate data n maxNsamples with
  | none =>
    by_contra hpower
    rw [fix_power_level_eq hpadded hpower] at hfixed
    cases hfixed
  | some fixed =>
    have hpower := power_of_fixed hnum hpadded hmax hfixed
    refine ⟨hpower, ?_⟩
    unfold fix_power_level scaleSamples
    dsimp only
    rw [hpower, if_neg htarget.ne', div_self htarget.ne', hnum.sqrt_eq, Real.sqrt_one]
    refine congrArg some (funext fun i => ?_)
    rw [mul_one, ite_self]

/-- Of a gain, only the sign is left when the level is fixed. -/
theorem fix_power_level_amplify {c : ℝ} (hc : c ≠ 0) :
    fix_power_level num rate (amplify c data) n maxNsamples =
      (fix_power_level num rate data n maxNsamples).map (amplify (c / |c|)) := by
  have hsquare : c ^ 2 ≠ 0 := pow_ne_zero 2 hc
  unfold fix_power_level
  dsimp only
  rw [power_above_300Hz_amplify hnum hpadded]
  by_cases hzero : power_above_300Hz num rate data n maxNsamples = 0
  · rw [hzero, mul_zero, if_pos rfl, if_pos rfl]
    rfl
  · rw [if_neg (mul_ne_zero hsquare hzero), if_neg hzero, Option.map_some, Option.some.injEq,
      (hpadded.amplify c).scaleSamples_eq, hpadded.scaleSamples_eq, hnum.sqrt_eq, hnum.sqrt_eq,
      mul_comm (c ^ 2), ← div_div, Real.sqrt_div' _ (sq_nonneg c), Real.sqrt_sq_eq_abs]
    funext i
    unfold amplify
    ring

end Level

/-! ## A click -/

/-- A signal of one sample. -/
noncomputable def clickAt (position : ℤ) (i : ℤ) : ℝ := if i = position then 1 else 0

/-- The factors of a filter are positive. -/
theorem lineFactor_pos (hnum : Exact num) (freq_resolution : ℝ) (curve : FilterCurve) (i : ℕ) :
    0 < lineFactor num freq_resolution curve i := by
  unfold lineFactor
  dsimp only
  rw [hnum.pow_eq]
  exact Real.rpow_pos_of_pos (by norm_num) _

/-- A click at the start of a signal has power above 300 Hz. -/
theorem power_above_300Hz_click (hnum : Exact num) (hlong : 2 ≤ filteredLength rate n)
    (hmax : n ≤ maxNsamples) :
    0 < power_above_300Hz num rate (clickAt rate.buffer) n maxNsamples := by
  obtain ⟨q, hsize, hle⟩ := exists_nextpow2 (n := (filteredLength rate n).toNat) (by omega)
  set factor := lineFactor num ((rate.Fs : ℝ) / (2 ^ (q + 1) : ℕ)) align_filter_dB with hfactor
  have hpos : ∀ k, 0 < factor k := lineFactor_pos hnum _ _
  -- The spectrum of the click is flat, and that of the filtered one is the filter.
  have hflat : ∀ k ≤ 2 ^ q, toComplex (num.RealFFT
      (filterWindow rate n (clickAt rate.buffer)) (2 ^ (q + 1))) k = 1 := by
    intro k hk
    rw [hnum.toComplex_RealFFT _ q (fun _ _ => rfl) hk]
    unfold Fourier.dft
    rw [Finset.sum_eq_single_of_mem 0 (Finset.mem_range.mpr (Nat.two_pow_pos _))]
    · unfold Dsp.ofReals filterWindow clickAt
      rw [if_pos (by push_cast; omega), if_pos (by push_cast; omega), mul_zero, pow_zero]
      simp
    · intro i _ hi
      unfold Dsp.ofReals filterWindow clickAt
      rw [if_neg (show ¬(i : ℤ) + rate.buffer = rate.buffer by omega), ite_self]
      simp
  have hfiltered : ∀ k ≤ 2 ^ q, toComplex (scaleLines (2 ^ (q + 1)) factor (num.RealFFT
      (filterWindow rate n (clickAt rate.buffer)) (2 ^ (q + 1)))) k = factor k := by
    intro k hk
    rw [toComplex_scaleLines q factor _ hk, hflat k hk, one_mul]
  have hfirst : 0 < apply_filter num rate (clickAt rate.buffer) n align_filter_dB rate.buffer := by
    unfold apply_filter
    rw [if_pos (by omega), hsize, ← hfactor, sub_self, Int.toNat_zero,
      hnum.RealIFFT_re _ q (Nat.two_pow_pos _)]
    unfold Fourier.dft
    rw [Complex.div_natCast_re, Complex.re_sum]
    refine div_pos (Finset.sum_pos (fun k hk => ?_) ⟨0, Finset.mem_range.mpr (Nat.two_pow_pos _)⟩)
      (Nat.cast_pos.mpr (Nat.two_pow_pos _))
    have hlt := Finset.mem_range.mp hk
    rw [pow_succ] at hlt
    rw [zero_mul, pow_zero, mul_one]
    unfold wholeSpectrum
    split
    · rename_i hhalf
      rw [hfiltered k hhalf]
      exact hpos k
    · rename_i hhalf
      rw [hfiltered _ (by rw [pow_succ]; omega), Complex.conj_ofReal]
      exact hpos _
  unfold filteredLength at hlong
  have hdivisor : (0 : ℝ) < (maxNsamples - 2 * rate.buffer + rate.padding : ℤ) := by
    exact_mod_cast (by omega : (0 : ℤ) < maxNsamples - 2 * rate.buffer + rate.padding)
  refine div_pos (Finset.sum_pos' (fun k _ => mul_self_nonneg _)
    ⟨0, Finset.mem_range.mpr (by omega), ?_⟩) hdivisor
  rw [Nat.cast_zero, add_zero]
  exact mul_pos hfirst hfirst

/-- A click at the start of a signal lies between zeros. -/
theorem clickAt_isPadded : IsPadded rate_16k (clickAt rate_16k.buffer) 13600 := by
  refine ⟨fun i hi => if_neg fun heq => hi ?_, by decide⟩
  rw [heq]
  decide

/-- The level of a click at the start of a signal is fixed. -/
theorem level_is_fixed_click :
    ∃ fixed, fix_power_level realNumerics rate_16k (clickAt rate_16k.buffer) 13600 13600 =
        some fixed ∧
      power_above_300Hz realNumerics rate_16k fixed 13600 13600 = TARGET_AVG_POWER := by
  have hpower := power_above_300Hz_click exact_realNumerics clickAt_isPadded.long (le_refl 13600)
  have hlevel := level_is_fixed exact_realNumerics clickAt_isPadded (le_refl 13600)
  cases hfixed : fix_power_level realNumerics rate_16k (clickAt rate_16k.buffer) 13600 13600 with
  | none =>
    rw [hfixed] at hlevel
    exact absurd hlevel hpower.ne'
  | some fixed =>
    rw [hfixed] at hlevel
    exact ⟨fixed, rfl, hlevel.1⟩

end TgVoipRate.Pesq.Acoustic
