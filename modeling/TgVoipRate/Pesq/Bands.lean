import Mathlib
import TgVoipRate.Pesq.Params

/-!
# The bands of hearing

The tables of `pesqpar.h` that `pesq_psychoacoustic_model` selects for a sample rate. It groups the
lines of a spectrum into `Nb` bands; for each band there is its place and width on a scale of
perception, a correction of its power, and the power that can just be heard.

A `Bands` carries what the model relies on: the tables are positive, and the lines of the bands are
all those of the spectrum (`lines_eq`).
-/

namespace TgVoipRate.Pesq

/-! ## The tables -/

/-- The lines of the spectrum in each band, at 8 kHz. -/
def nr_of_hz_bands_per_bark_band_8k : List ℕ :=
  [1, 1, 1, 1, 1, 1, 1, 1, 2, 1, 1, 1, 1, 1, 2, 1, 1, 2, 2, 2, 2, 2, 2, 2, 2, 3, 3, 3, 3, 4, 3, 4,
   5, 4, 5, 6, 6, 7, 8, 9, 9, 11]

/-- The centres of the bands, on the scale of perception, at 8 kHz. -/
def centre_of_band_bark_8k : List ℚ :=
  [0.078672, 0.316341, 0.636559, 0.961246, 1.290450, 1.624217, 1.962597, 2.305636, 2.653383,
   3.005889, 3.363201, 3.725371, 4.092449, 4.464486, 4.841533, 5.223642, 5.610866, 6.003256,
   6.400869, 6.803755, 7.211971, 7.625571, 8.044611, 8.469146, 8.899232, 9.334927, 9.776288,
   10.223374, 10.676242, 11.134952, 11.599563, 12.070135, 12.546731, 13.029408, 13.518232,
   14.013264, 14.514566, 15.022202, 15.536238, 16.056736, 16.583761, 17.117382]

/-- The widths of the bands, on the same scale, at 8 kHz. -/
def width_of_band_bark_8k : List ℚ :=
  [0.157344, 0.317994, 0.322441, 0.326934, 0.331474, 0.336061, 0.340697, 0.345381, 0.350114,
   0.354897, 0.359729, 0.364611, 0.369544, 0.374529, 0.379565, 0.384653, 0.389794, 0.394989,
   0.400236, 0.405538, 0.410894, 0.416306, 0.421773, 0.427297, 0.432877, 0.438514, 0.444209,
   0.449962, 0.455774, 0.461645, 0.467577, 0.473569, 0.479621, 0.485736, 0.491912, 0.498151,
   0.504454, 0.510819, 0.517250, 0.523745, 0.530308, 0.536934]

/-- The factors that correct the power in the bands, at 8 kHz. -/
def pow_dens_correction_factor_8k : List ℚ :=
  [100.000000, 99.999992, 100.000000, 100.000008, 100.000008, 100.000015, 99.999992, 99.999969,
   50.000027, 100.000000, 99.999969, 100.000015, 99.999947, 100.000061, 53.047077, 110.000046,
   117.991989, 65.000000, 68.760147, 69.999931, 71.428818, 75.000038, 76.843384, 80.968781,
   88.646126, 63.864388, 68.155350, 72.547775, 75.584831, 58.379192, 80.950836, 64.135651,
   54.384785, 73.821884, 64.437073, 59.176456, 65.521278, 61.399822, 58.144047, 57.004543,
   64.126297, 59.248363]

/-- The power in the bands that can just be heard, at 8 kHz. -/
def abs_thresh_power_8k : List ℚ :=
  [51286152.000000, 2454709.500000, 70794.593750, 4897.788574, 1174.897705, 389.045166, 104.712860,
   45.708820, 17.782795, 9.772372, 4.897789, 3.090296, 1.905461, 1.258925, 0.977237, 0.724436,
   0.562341, 0.457088, 0.389045, 0.331131, 0.295121, 0.269153, 0.257040, 0.251189, 0.251189,
   0.251189, 0.251189, 0.263027, 0.288403, 0.309030, 0.338844, 0.371535, 0.398107, 0.436516,
   0.467735, 0.489779, 0.501187, 0.501187, 0.512861, 0.524807, 0.524807, 0.524807]

/-- The lines of the spectrum in each band, at 16 kHz. -/
def nr_of_hz_bands_per_bark_band_16k : List ℕ :=
  [1, 1, 1, 1, 1, 1, 1, 1, 2, 1, 1, 1, 1, 1, 2, 1, 1, 2, 2, 2, 2, 2, 2, 2, 2, 3, 3, 3, 3, 4, 3, 4,
   5, 4, 5, 6, 6, 7, 8, 9, 9, 12, 12, 15, 16, 18, 21, 25, 20]

/-- The centres of the bands, on the scale of perception, at 16 kHz. -/
def centre_of_band_bark_16k : List ℚ :=
  [0.078672, 0.316341, 0.636559, 0.961246, 1.290450, 1.624217, 1.962597, 2.305636, 2.653383,
   3.005889, 3.363201, 3.725371, 4.092449, 4.464486, 4.841533, 5.223642, 5.610866, 6.003256,
   6.400869, 6.803755, 7.211971, 7.625571, 8.044611, 8.469146, 8.899232, 9.334927, 9.776288,
   10.223374, 10.676242, 11.134952, 11.599563, 12.070135, 12.546731, 13.029408, 13.518232,
   14.013264, 14.514566, 15.022202, 15.536238, 16.056736, 16.583761, 17.117382, 17.657663,
   18.204674, 18.758478, 19.319147, 19.886751, 20.461355, 21.043034]

/-- The widths of the bands, on the same scale, at 16 kHz. -/
def width_of_band_bark_16k : List ℚ :=
  [0.157344, 0.317994, 0.322441, 0.326934, 0.331474, 0.336061, 0.340697, 0.345381, 0.350114,
   0.354897, 0.359729, 0.364611, 0.369544, 0.374529, 0.379565, 0.384653, 0.389794, 0.394989,
   0.400236, 0.405538, 0.410894, 0.416306, 0.421773, 0.427297, 0.432877, 0.438514, 0.444209,
   0.449962, 0.455774, 0.461645, 0.467577, 0.473569, 0.479621, 0.485736, 0.491912, 0.498151,
   0.504454, 0.510819, 0.517250, 0.523745, 0.530308, 0.536934, 0.543629, 0.550390, 0.557220,
   0.564119, 0.571085, 0.578125, 0.585232]

/-- The factors that correct the power in the bands, at 16 kHz. -/
def pow_dens_correction_factor_16k : List ℚ :=
  [100.000000, 99.999992, 100.000000, 100.000008, 100.000008, 100.000015, 99.999992, 99.999969,
   50.000027, 100.000000, 99.999969, 100.000015, 99.999947, 100.000061, 53.047077, 110.000046,
   117.991989, 65.000000, 68.760147, 69.999931, 71.428818, 75.000038, 76.843384, 80.968781,
   88.646126, 63.864388, 68.155350, 72.547775, 75.584831, 58.379192, 80.950836, 64.135651,
   54.384785, 73.821884, 64.437073, 59.176456, 65.521278, 61.399822, 58.144047, 57.004543,
   64.126297, 54.311001, 61.114979, 55.077751, 56.849335, 55.628868, 53.137054, 54.985844,
   79.546974]

/-- The power in the bands that can just be heard, at 16 kHz. -/
def abs_thresh_power_16k : List ℚ :=
  [51286152.000000, 2454709.500000, 70794.593750, 4897.788574, 1174.897705, 389.045166, 104.712860,
   45.708820, 17.782795, 9.772372, 4.897789, 3.090296, 1.905461, 1.258925, 0.977237, 0.724436,
   0.562341, 0.457088, 0.389045, 0.331131, 0.295121, 0.269153, 0.257040, 0.251189, 0.251189,
   0.251189, 0.251189, 0.263027, 0.288403, 0.309030, 0.338844, 0.371535, 0.398107, 0.436516,
   0.467735, 0.489779, 0.501187, 0.501187, 0.512861, 0.524807, 0.524807, 0.524807, 0.512861,
   0.478630, 0.426580, 0.371535, 0.363078, 0.416869, 0.537032]

/-! ## The selection -/

/-- What is selected for a sample rate, and what the model relies on. -/
structure Bands (𝕜 : Type*) [Field 𝕜] [LinearOrder 𝕜] where
  /-- The number of bands. -/
  Nb : ℕ
  /-- The lines of a spectrum. -/
  lines : ℕ
  /-- The factor of the loudness. -/
  Sl : 𝕜
  /-- The factor of the power. -/
  Sp : 𝕜
  nr_of_hz_bands_per_bark_band : ℕ → ℕ
  centre_of_band_bark : ℕ → 𝕜
  width_of_band_bark : ℕ → 𝕜
  pow_dens_correction_factor : ℕ → 𝕜
  abs_thresh_power : ℕ → 𝕜
  /-- Sums over the bands leave out the first one. -/
  one_lt_Nb : 1 < Nb
  /-- Each line is in a band. -/
  lines_eq : ∑ band ∈ Finset.range Nb, nr_of_hz_bands_per_bark_band band = lines
  Sl_pos : 0 < Sl
  Sp_pos : 0 < Sp
  centre_pos : ∀ band < Nb, 0 < centre_of_band_bark band
  width_pos : ∀ band < Nb, 0 < width_of_band_bark band
  correction_pos : ∀ band < Nb, 0 < pow_dens_correction_factor band
  thresh_pos : ∀ band < Nb, 0 < abs_thresh_power band

variable {𝕜 : Type*} [Field 𝕜] [LinearOrder 𝕜] [IsStrictOrderedRing 𝕜]

/-- An entry of a table. -/
def entry (table : List ℚ) (band : ℕ) : 𝕜 := (table.getD band 0 : ℚ)

/-- A table with positive entries. -/
theorem entry_pos {table : List ℚ} {Nb : ℕ} (h : ∀ band < Nb, 0 < table.getD band 0) :
    ∀ band < Nb, (0 : 𝕜) < entry table band := fun band hband =>
  Rat.cast_pos.mpr (h band hband)

/-- The bands at 8 kHz. -/
def bands_8k : Bands 𝕜 where
  Nb := 42
  lines := 128
  Sl := (1.866055e-1 : ℚ)
  Sp := (2.764344e-5 : ℚ)
  nr_of_hz_bands_per_bark_band band := nr_of_hz_bands_per_bark_band_8k.getD band 0
  centre_of_band_bark := entry centre_of_band_bark_8k
  width_of_band_bark := entry width_of_band_bark_8k
  pow_dens_correction_factor := entry pow_dens_correction_factor_8k
  abs_thresh_power := entry abs_thresh_power_8k
  one_lt_Nb := by decide
  lines_eq := by decide
  Sl_pos := Rat.cast_pos.mpr (by decide +kernel)
  Sp_pos := Rat.cast_pos.mpr (by decide +kernel)
  centre_pos := entry_pos (by decide +kernel)
  width_pos := entry_pos (by decide +kernel)
  correction_pos := entry_pos (by decide +kernel)
  thresh_pos := entry_pos (by decide +kernel)

/-- The bands at 16 kHz. -/
def bands_16k : Bands 𝕜 where
  Nb := 49
  lines := 256
  Sl := (1.866055e-001 : ℚ)
  Sp := (6.910853e-006 : ℚ)
  nr_of_hz_bands_per_bark_band band := nr_of_hz_bands_per_bark_band_16k.getD band 0
  centre_of_band_bark := entry centre_of_band_bark_16k
  width_of_band_bark := entry width_of_band_bark_16k
  pow_dens_correction_factor := entry pow_dens_correction_factor_16k
  abs_thresh_power := entry abs_thresh_power_16k
  one_lt_Nb := by decide
  lines_eq := by decide
  Sl_pos := Rat.cast_pos.mpr (by decide +kernel)
  Sp_pos := Rat.cast_pos.mpr (by decide +kernel)
  centre_pos := entry_pos (by decide +kernel)
  width_pos := entry_pos (by decide +kernel)
  correction_pos := entry_pos (by decide +kernel)
  thresh_pos := entry_pos (by decide +kernel)

end TgVoipRate.Pesq
