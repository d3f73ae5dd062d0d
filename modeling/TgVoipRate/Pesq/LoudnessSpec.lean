import Mathlib
import TgVoipRate.Dsp.CorrelationSpec
import TgVoipRate.Lib.Means
import TgVoipRate.Pesq.Loudness

/-!
# What a disturbance means

For the exact functions of real numbers (`Exact`), the disturbances of a frame are power means of
loudness differences. They are not negative, and a frame has no disturbance exactly if in every band
but the first one the loudnesses differ by a quarter of the smaller one at most (`SoundsEqual`).
-/

namespace TgVoipRate.Pesq.Acoustic

open Dsp (Called circleAngles)
open Means (powerMean powerMean_nonneg powerMean_eq_zero_iff le_powerMean_mul)

/-- The functions are those of real numbers, and every call of a transform is made after some calls,
with memory of unknown contents. -/
structure Exact (num : Numerics ℝ) : Prop where
  pow_eq : ∀ x p, num.pow x p = x ^ p
  exp_eq : ∀ x, num.exp x = Real.exp x
  sqrt_eq : ∀ x, num.sqrt x = Real.sqrt x
  log_eq : ∀ x, num.log x = Real.log x
  angles_eq : num.angles = circleAngles
  RealFFT_eq : ∀ x N, ∃ s memory, Called s ∧
    num.RealFFT x N = (Dsp.RealFFT circleAngles memory s x N).2
  RealIFFT_eq : ∀ x N, ∃ s memory, Called s ∧
    num.RealIFFT x N = (Dsp.RealIFFT circleAngles memory s x N).2
  FFTNXCorr_eq : ∀ x1 n1 x2 n2, ∃ s memory y, Called s ∧
    num.FFTNXCorr x1 n1 x2 n2 = (Dsp.FFTNXCorr circleAngles memory s x1 n1 x2 n2 y).y

/-- Memory that is not cleared. -/
def leftoverMemory : Dsp.RealMemory ℝ := { tables := Dsp.leftover, y := fun _ => 7 }

/-- The functions of real numbers, with transforms that are called for the first time. -/
noncomputable def realNumerics : Numerics ℝ where
  sqrt := Real.sqrt
  log := Real.log
  pow x p := x ^ p
  exp := Real.exp
  angles := circleAngles
  RealFFT x N := (Dsp.RealFFT circleAngles leftoverMemory Dsp.noTables x N).2
  RealIFFT x N := (Dsp.RealIFFT circleAngles leftoverMemory Dsp.noTables x N).2
  FFTNXCorr x1 n1 x2 n2 :=
    (Dsp.FFTNXCorr circleAngles
      { tmp1 := fun _ => 7
        tmp2 := fun _ => 7
        first := leftoverMemory
        second := leftoverMemory
        back := leftoverMemory }
      Dsp.noTables x1 n1 x2 n2 fun _ => 7).y

theorem exact_realNumerics : Exact realNumerics where
  pow_eq _ _ := rfl
  exp_eq _ := rfl
  sqrt_eq _ := rfl
  log_eq _ := rfl
  angles_eq := rfl
  RealFFT_eq _ _ := ⟨_, _, Called.start Dsp.noTables rfl, rfl⟩
  RealIFFT_eq _ _ := ⟨_, _, Called.start Dsp.noTables rfl, rfl⟩
  FFTNXCorr_eq _ _ _ _ := ⟨_, _, _, Called.start Dsp.noTables rfl, rfl⟩

/-! ## Loudness -/

section Loudness

variable {num : Numerics ℝ} (hnum : Exact num) (b : Bands ℝ) {band : ℕ} (hband : band < b.Nb)

include hnum hband

/-- The exponent of the loudness is larger in low bands only. -/
theorem le_modified_zwicker_power : (ZWICKER_POWER : ℝ) ≤ modified_zwicker_power num b band := by
  have hcentre := b.centre_pos band hband
  have hlow : b.centre_of_band_bark band < ((4 : ℚ) : ℝ) →
      1 ≤ ((6 : ℚ) : ℝ) / (b.centre_of_band_bark band + ((2 : ℚ) : ℝ)) := by
    intro hlt
    push_cast at hlt ⊢
    rw [one_le_div (by linarith)]
    linarith
  unfold modified_zwicker_power
  dsimp only
  generalize hh : (if b.centre_of_band_bark band < ((4 : ℚ) : ℝ) then
    ((6 : ℚ) : ℝ) / (b.centre_of_band_bark band + ((2 : ℚ) : ℝ)) else 1) = h
  have hone : 1 ≤ h := by
    rw [← hh]
    split
    · rename_i hlt
      exact hlow hlt
    · exact le_rfl
  have hcapped : 1 ≤ if h > ((2 : ℚ) : ℝ) then ((2 : ℚ) : ℝ) else h := by
    split
    · norm_num
    · exact hone
  rw [hnum.pow_eq]
  exact le_mul_of_one_le_right (by norm_num [ZWICKER_POWER])
    (Real.one_le_rpow hcapped (by norm_num))

/-- The exponent of the loudness is positive. -/
theorem modified_zwicker_power_pos : 0 < modified_zwicker_power num b band :=
  lt_of_lt_of_le (by norm_num [ZWICKER_POWER]) (le_modified_zwicker_power hnum b hband)

/-- A loudness is not negative. -/
theorem intensity_warping_of_nonneg (pitch_pow_dens : ℕ → ℝ) :
    0 ≤ intensity_warping_of num b pitch_pow_dens band := by
  have hthresh := b.thresh_pos band hband
  have hpower := modified_zwicker_power_pos hnum b hband
  unfold intensity_warping_of
  dsimp only
  refine mul_nonneg ?_ b.Sl_pos.le
  split
  · rename_i haudible
    rw [hnum.pow_eq, hnum.pow_eq]
    -- Above the threshold, the number whose power is taken is at least one.
    have hratio : 1 ≤ pitch_pow_dens band / b.abs_thresh_power band :=
      (one_le_div hthresh).mpr (le_of_lt haudible)
    have hbase : (1 : ℝ) ≤ (0.5 : ℚ) + (0.5 : ℚ) * pitch_pow_dens band /
        b.abs_thresh_power band := by
      rw [mul_div_assoc]
      norm_num
      linarith
    have hgrown := Real.one_le_rpow hbase hpower.le
    exact mul_nonneg (Real.rpow_nonneg (div_nonneg hthresh.le (by norm_num)) _)
      (sub_nonneg.mpr hgrown)
  · exact le_rfl

/-- A loudness from below: the exponent is a fifth at least. -/
theorem le_intensity_warping_of {x : ℕ → ℝ} {u v : ℝ} (hu : 1 ≤ u) (hv : 1 ≤ v)
    (hthresh : u ^ 5 ≤ b.abs_thresh_power band / 0.5)
    (haudible : b.abs_thresh_power band < x band)
    (hx : v ^ 5 ≤ 0.5 + 0.5 * x band / b.abs_thresh_power band) :
    u * (v - 1) * b.Sl ≤ intensity_warping_of num b x band := by
  have hpower : (1 / 5 : ℝ) ≤ modified_zwicker_power num b band :=
    le_trans (by norm_num [ZWICKER_POWER]) (le_modified_zwicker_power hnum b hband)
  -- A fifth root, and with it every larger power.
  have hroot {y z : ℝ} (hy : 1 ≤ y) (h : y ^ 5 ≤ z) : y ≤ z ^ modified_zwicker_power num b band := by
    have hz : 1 ≤ z := (one_le_pow₀ hy).trans h
    calc y = (y ^ 5) ^ (1 / 5 : ℝ) := by
          rw [← Real.rpow_natCast y 5, ← Real.rpow_mul (zero_le_one.trans hy)]
          norm_num
      _ ≤ z ^ (1 / 5 : ℝ) :=
          Real.rpow_le_rpow (pow_nonneg (zero_le_one.trans hy) 5) h (by norm_num)
      _ ≤ z ^ modified_zwicker_power num b band := Real.rpow_le_rpow_of_exponent_le hz hpower
  have hscale := hroot hu hthresh
  have hgrown := hroot hv hx
  unfold intensity_warping_of
  dsimp only
  rw [if_pos haudible, hnum.pow_eq, hnum.pow_eq]
  push_cast
  refine mul_le_mul_of_nonneg_right ?_ b.Sl_pos.le
  refine mul_le_mul ?_ ?_ (sub_nonneg.mpr hv) (by linarith)
  · convert hscale using 3
  · convert sub_le_sub_right hgrown 1 using 3

end Loudness

/-- What is left of a difference of loudnesses is zero exactly if it is a quarter of the smaller one
at most. -/
theorem centreClip_eq_zero_iff (ref deg : ℝ) :
    centreClip ref deg = 0 ↔ |deg - ref| ≤ min deg ref / 4 := by
  have hsmaller : (if deg < ref then deg else ref) * ((0.25 : ℚ) : ℝ) = min deg ref / 4 := by
    rw [← min_def_lt]
    norm_num
    ring
  unfold centreClip
  dsimp only
  rw [hsmaller, abs_le]
  split
  · rename_i habove
    exact iff_of_false (sub_pos.mpr habove).ne' fun hle => absurd hle.2 (not_le.mpr habove)
  · rename_i hle
    split
    · rename_i hbelow
      refine iff_of_false ?_ fun hge => absurd hge.1 (not_le.mpr hbelow)
      linarith
    · rename_i hge
      exact iff_of_true rfl ⟨not_lt.mp hge, not_lt.mp hle⟩

/-! ## The norm of the bands -/

/-- The width of the bands that count. -/
def totalWeight (b : Bands ℝ) : ℝ := ∑ band ∈ Finset.Ico 1 b.Nb, b.width_of_band_bark band

/-- The bands that count have a width. -/
theorem totalWeight_pos (b : Bands ℝ) : 0 < totalWeight b :=
  Finset.sum_pos (fun band hband => b.width_pos band (Finset.mem_Ico.mp hband).2)
    ⟨1, Finset.mem_Ico.mpr ⟨le_rfl, b.one_lt_Nb⟩⟩

section Norm

variable {num : Numerics ℝ} (hnum : Exact num) (b : Bands ℝ) {x y : ℕ → ℝ} {p : ℝ}

/-- What the norm takes the mean of. -/
def weighted (b : Bands ℝ) (x : ℕ → ℝ) (band : ℕ) : ℝ := |x band| * b.width_of_band_bark band

/-- The values are not negative. -/
theorem weighted_nonneg (x : ℕ → ℝ) : ∀ band ∈ Finset.Ico 1 b.Nb, 0 ≤ weighted b x band :=
  fun band hband => mul_nonneg (abs_nonneg _) (b.width_pos band (Finset.mem_Ico.mp hband).2).le

include hnum in
/-- The norm is a power mean of the bands. -/
theorem pseudo_Lp_eq (x : ℕ → ℝ) (p : ℝ) :
    pseudo_Lp num b x p =
      powerMean p (totalWeight b) (Finset.Ico 1 b.Nb) (weighted b x) * totalWeight b := by
  unfold pseudo_Lp powerMean weighted totalWeight
  simp only [hnum.pow_eq]

include hnum in
/-- The norm is not negative. -/
theorem pseudo_Lp_nonneg (x : ℕ → ℝ) (p : ℝ) : 0 ≤ pseudo_Lp num b x p := by
  rw [pseudo_Lp_eq hnum]
  exact mul_nonneg (powerMean_nonneg p (totalWeight_pos b).le (weighted_nonneg b x))
    (totalWeight_pos b).le

include hnum in
/-- The norm is zero exactly if all bands are that count. -/
theorem pseudo_Lp_eq_zero_iff (hp : 0 < p) :
    pseudo_Lp num b x p = 0 ↔ ∀ band, 1 ≤ band → band < b.Nb → x band = 0 := by
  rw [pseudo_Lp_eq hnum, mul_eq_zero, or_iff_left (totalWeight_pos b).ne',
    powerMean_eq_zero_iff hp (totalWeight_pos b) (weighted_nonneg b x)]
  have hzero : ∀ band < b.Nb, weighted b x band = 0 ↔ x band = 0 := fun band hband => by
    rw [weighted, mul_eq_zero, abs_eq_zero, or_iff_left (b.width_pos band hband).ne']
  constructor
  · intro hall band hone hband
    exact (hzero band hband).mp (hall band (Finset.mem_Ico.mpr ⟨hone, hband⟩))
  · intro hall band hband
    obtain ⟨hone, hlt⟩ := Finset.mem_Ico.mp hband
    exact (hzero band hlt).mpr (hall band hone hlt)

end Norm

/-! ## The disturbances of a frame -/

/-- The powers of a frame sound equal: in the bands that count, the loudnesses differ by a quarter
of the smaller one at most. -/
def SoundsEqual (num : Numerics ℝ) (b : Bands ℝ) (ref deg : ℕ → ℝ) : Prop :=
  ∀ band, 1 ≤ band → band < b.Nb →
    |intensity_warping_of num b deg band - intensity_warping_of num b ref band| ≤
      min (intensity_warping_of num b deg band) (intensity_warping_of num b ref band) / 4

section Disturbance

variable {num : Numerics ℝ} (hnum : Exact num) (b : Bands ℝ) (ref deg : ℕ → ℝ)

include hnum

/-- The disturbances are not negative. -/
theorem disturbance_nonneg :
    0 ≤ (disturbance num b ref deg).frame_disturbance ∧
      0 ≤ (disturbance num b ref deg).frame_disturbance_asym_add :=
  ⟨pseudo_Lp_nonneg hnum b _ _, pseudo_Lp_nonneg hnum b _ _⟩

/-- A frame has no disturbance exactly if its powers sound equal. -/
theorem frame_disturbance_eq_zero_iff :
    (disturbance num b ref deg).frame_disturbance = 0 ↔ SoundsEqual num b ref deg := by
  have hpos : (0 : ℝ) < D_POW_F := by norm_num [D_POW_F]
  refine (pseudo_Lp_eq_zero_iff hnum b hpos).trans ?_
  refine forall_congr' fun band => forall₂_congr fun _ _ => ?_
  exact centreClip_eq_zero_iff _ _

/-- A band whose power can be heard in the reference and not in the degraded signal disturbs the
frame by its loudness. -/
theorem le_frame_disturbance {band : ℕ} (hweight : 1 ≤ totalWeight b) (hone : 1 ≤ band) (hband : band < b.Nb)
    (hlost : deg band ≤ b.abs_thresh_power band) :
    intensity_warping_of num b ref band * b.width_of_band_bark band ≤
      (disturbance num b ref deg).frame_disturbance := by
  have hloudness := intensity_warping_of_nonneg hnum b hband ref
  have hsilent : intensity_warping_of num b deg band = 0 := by
    unfold intensity_warping_of
    dsimp only
    rw [if_neg (not_lt.mpr hlost), zero_mul]
  -- Nothing is left out of the difference, as a quarter of zero is zero.
  have hclip : |centreClip (intensity_warping_of num b ref band)
      (intensity_warping_of num b deg band)| = intensity_warping_of num b ref band := by
    rw [hsilent]
    unfold centreClip
    dsimp only
    rw [zero_sub]
    rcases hloudness.eq_or_lt with hzero | hpos
    · rw [← hzero]
      simp
    · rw [if_pos hpos, zero_mul, neg_zero, add_zero, if_neg (by linarith),
        if_pos (neg_neg_of_pos hpos), abs_neg, abs_of_pos hpos]
  unfold disturbance
  dsimp only
  rw [pseudo_Lp_eq hnum]
  refine le_trans (le_of_eq ?_) (le_powerMean_mul (by norm_num [D_POW_F]) hweight
    (weighted_nonneg b _) (Finset.mem_Ico.mpr ⟨hone, hband⟩))
  rw [weighted, hclip]

/-- Without a disturbance there is no asymmetric one. -/
theorem asym_add_eq_zero_of_soundsEqual (h : SoundsEqual num b ref deg) :
    (disturbance num b ref deg).frame_disturbance_asym_add = 0 := by
  have hpos : (0 : ℝ) < A_POW_F := by norm_num [A_POW_F]
  refine (pseudo_Lp_eq_zero_iff hnum b hpos).mpr fun band hone hband => ?_
  have hclip := (centreClip_eq_zero_iff _ _).mpr (h band hone hband)
  exact mul_eq_zero_of_left hclip _

/-- Equal powers sound equal. -/
theorem SoundsEqual.refl : SoundsEqual num b ref ref := fun band _ hband => by
  rw [sub_self, abs_zero, min_self]
  have hnonneg := intensity_warping_of_nonneg hnum b hband ref
  positivity

end Disturbance

end TgVoipRate.Pesq.Acoustic
