import Mathlib
import TgVoipRate.Dsp.Fft
import TgVoipRate.Pesq.Bands
import TgVoipRate.Pesq.Vad

/-!
# From the spectrum of a frame to its disturbance

The functions that `pesq_psychoacoustic_model` in `pesqmod.c` calls for a frame, and the parts of
its loop body. The power spectrum of a frame (`short_term_fft`) is summed up in bands
(`freq_warping`), and the power in a band has a loudness (`intensity_warping_of`). The difference of
two loudnesses counts as far as it exceeds a dead zone (`centreClip`), and the disturbance of the
frame is a norm of what is left (`pseudo_Lp`). Bands where power was added count once more
(`multiply_with_asymmetry_factor`).

Arithmetic is exact. The functions of the C library and the transforms are given by a `Numerics`.
-/

namespace TgVoipRate.Pesq.Acoustic

variable {𝕜 : Type*} [Field 𝕜] [LinearOrder 𝕜]

/-- What is called of the C library and of `dsp.c`. -/
structure Numerics (𝕜 : Type*) extends Math 𝕜 where
  pow : 𝕜 → 𝕜 → 𝕜
  exp : 𝕜 → 𝕜
  angles : Dsp.Angles 𝕜
  /-- The array after `RealFFT` for a size. -/
  RealFFT : (ℕ → 𝕜) → ℕ → ℕ → 𝕜
  /-- The array after `RealIFFT` for a size. -/
  RealIFFT : (ℕ → 𝕜) → ℕ → ℕ → 𝕜
  /-- The correlation of two sequences of given lengths after `FFTNXCorr`. -/
  FFTNXCorr : (ℕ → 𝕜) → ℕ → (ℕ → 𝕜) → ℕ → ℕ → 𝕜

/-! ## Power -/

/-- The window of a frame. -/
def Whanning (num : Numerics 𝕜) (Nf n : ℕ) : 𝕜 := (0.5 : ℚ) * (1 - num.angles.cos n Nf)

/-- `short_term_fft`: the power spectrum of a frame, without its constant part. -/
def short_term_fft (num : Numerics 𝕜) (Nf : ℕ) (data : ℤ → 𝕜) (window : ℕ → 𝕜)
    (start_sample : ℤ) : ℕ → 𝕜 :=
  -- The entries behind the frame are not read.
  let fft_tmp := num.RealFFT
    (fun n => if n < Nf then data (start_sample + n) * window n else 0) Nf
  let hz_spectrum := fun k =>
    fft_tmp (2 * k) * fft_tmp (2 * k) + fft_tmp (2 * k + 1) * fft_tmp (2 * k + 1)
  Function.update hz_spectrum 0 0

/-- The first line of the spectrum in a band. -/
def firstLine (b : Bands 𝕜) (bark_band : ℕ) : ℕ :=
  ∑ band ∈ Finset.range bark_band, b.nr_of_hz_bands_per_bark_band band

/-- `freq_warping`: the power in a band. -/
def freq_warping (b : Bands 𝕜) (hz_spectrum : ℕ → 𝕜) (bark_band : ℕ) : 𝕜 :=
  let sum := ∑ i ∈ Finset.range (b.nr_of_hz_bands_per_bark_band bark_band),
    hz_spectrum (firstLine b bark_band + i)
  sum * b.pow_dens_correction_factor bark_band * b.Sp

/-- `total_audible`: the power in the bands where it exceeds a multiple of the threshold, without
the first band. -/
def total_audible (b : Bands 𝕜) (pitch_pow_dens : ℕ → 𝕜) (factor : 𝕜) : 𝕜 :=
  ∑ band ∈ Finset.Ico 1 b.Nb,
    if pitch_pow_dens band > factor * b.abs_thresh_power band then pitch_pow_dens band else 0

/-- `time_avg_audible_of`: the audible power in a band, averaged over the frames. -/
def time_avg_audible_of (b : Bands 𝕜) (number_of_frames : ℤ) (silent : ℤ → Bool)
    (pitch_pow_dens : ℤ → ℕ → 𝕜) (total_number_of_frames : ℤ) (band : ℕ) : 𝕜 :=
  (∑ frame ∈ Finset.range number_of_frames.toNat,
    let h := pitch_pow_dens frame band
    if ¬silent frame ∧ h > (100 : ℚ) * b.abs_thresh_power band then h else 0) /
      total_number_of_frames

/-- Takes a number back into an interval. -/
def clamp (lo hi x : 𝕜) : 𝕜 :=
  let x := if x > hi then hi else x
  if x < lo then lo else x

/-- The factor of `freq_resp_compensation` for a band. -/
def respFactor (avg_pitch_pow_dens_ref avg_pitch_pow_dens_deg : ℕ → 𝕜) (constant : 𝕜) (band : ℕ) :
    𝕜 :=
  clamp (0.01 : ℚ) (100.0 : ℚ)
    ((avg_pitch_pow_dens_deg band + constant) / (avg_pitch_pow_dens_ref band + constant))

/-- `freq_resp_compensation`: all frames of the reference are filtered like the degraded signal. -/
def freq_resp_compensation (pitch_pow_dens_ref : ℤ → ℕ → 𝕜)
    (avg_pitch_pow_dens_ref avg_pitch_pow_dens_deg : ℕ → 𝕜) (constant : 𝕜) (frame : ℤ)
    (band : ℕ) : 𝕜 :=
  pitch_pow_dens_ref frame band *
    respFactor avg_pitch_pow_dens_ref avg_pitch_pow_dens_deg constant band

/-! ## Loudness -/

/-- The exponent of the loudness. -/
def ZWICKER_POWER : ℚ := 0.23

/-- The exponent of the loudness in a band: it is larger in low bands. -/
def modified_zwicker_power (num : Numerics 𝕜) (b : Bands 𝕜) (band : ℕ) : 𝕜 :=
  let centre := b.centre_of_band_bark band
  let h := if centre < (4 : ℚ) then (6 : ℚ) / (centre + (2 : ℚ)) else 1
  let h := if h > (2 : ℚ) then ((2 : ℚ) : 𝕜) else h
  ZWICKER_POWER * num.pow h (0.15 : ℚ)

/-- `intensity_warping_of`: the loudness in a band. -/
def intensity_warping_of (num : Numerics 𝕜) (b : Bands 𝕜) (pitch_pow_dens : ℕ → 𝕜) (band : ℕ) : 𝕜 :=
  let threshold := b.abs_thresh_power band
  let input := pitch_pow_dens band
  let power := modified_zwicker_power num b band
  let loudness_dens :=
    if input > threshold then
      num.pow (threshold / (0.5 : ℚ)) power *
        (num.pow ((0.5 : ℚ) + (0.5 : ℚ) * input / threshold) power - 1)
    else 0
  loudness_dens * b.Sl

/-! ## Disturbance -/

/-- The difference of two loudnesses, as far as it exceeds a quarter of the smaller one. -/
def centreClip (loudness_dens_ref loudness_dens_deg : 𝕜) : 𝕜 :=
  let d := loudness_dens_deg - loudness_dens_ref
  let smaller := if loudness_dens_deg < loudness_dens_ref then loudness_dens_deg
    else loudness_dens_ref
  let m := smaller * (0.25 : ℚ)
  if d > m then d - m else if d < -m then d + m else 0

/-- `pseudo_Lp`: a norm of the bands, without the first one. -/
def pseudo_Lp (num : Numerics 𝕜) (b : Bands 𝕜) (x : ℕ → 𝕜) (p : 𝕜) : 𝕜 :=
  let totalWeight := ∑ band ∈ Finset.Ico 1 b.Nb, b.width_of_band_bark band
  let result := ∑ band ∈ Finset.Ico 1 b.Nb, num.pow (|x band| * b.width_of_band_bark band) p
  num.pow (result / totalWeight) (1 / p) * totalWeight

/-- The factor of `multiply_with_asymmetry_factor` for the power in a band: zero where little power
was added. -/
def asymmetryFactor (num : Numerics 𝕜) (pitch_pow_dens_ref pitch_pow_dens_deg : 𝕜) : 𝕜 :=
  let ratio := (pitch_pow_dens_deg + (50 : ℚ)) / (pitch_pow_dens_ref + (50 : ℚ))
  let h := num.pow ratio (1.2 : ℚ)
  let h := if h > (12 : ℚ) then ((12 : ℚ) : 𝕜) else h
  if h < (3 : ℚ) then 0 else h

/-- `multiply_with_asymmetry_factor` -/
def multiply_with_asymmetry_factor (num : Numerics 𝕜) (disturbance_dens pitch_pow_dens_ref
    pitch_pow_dens_deg : ℕ → 𝕜) (i : ℕ) : 𝕜 :=
  disturbance_dens i * asymmetryFactor num (pitch_pow_dens_ref i) (pitch_pow_dens_deg i)

/-- The exponents of the norms, for the disturbance and for the asymmetric one. -/
def D_POW_F : ℚ := 2
def A_POW_F : ℚ := 1

/-- The disturbances of a frame. -/
structure Disturbance (𝕜 : Type*) where
  frame_disturbance : 𝕜
  frame_disturbance_asym_add : 𝕜

/-- The disturbances of a frame with powers in the bands of both signals. -/
def disturbance (num : Numerics 𝕜) (b : Bands 𝕜) (pitch_pow_dens_ref pitch_pow_dens_deg : ℕ → 𝕜) :
    Disturbance 𝕜 :=
  let loudness_dens_ref := intensity_warping_of num b pitch_pow_dens_ref
  let loudness_dens_deg := intensity_warping_of num b pitch_pow_dens_deg
  let disturbance_dens := fun band => centreClip (loudness_dens_ref band) (loudness_dens_deg band)
  { frame_disturbance := pseudo_Lp num b disturbance_dens D_POW_F
    frame_disturbance_asym_add :=
      pseudo_Lp num b
        (multiply_with_asymmetry_factor num disturbance_dens pitch_pow_dens_ref pitch_pow_dens_deg)
        A_POW_F }

end TgVoipRate.Pesq.Acoustic
