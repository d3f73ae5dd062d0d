import Mathlib
import TgVoipRate.Dsp.Iir
import TgVoipRate.Pesq.ComputeDelay
import TgVoipRate.Pesq.ModelAccess

/-!
# Levels and filters

What `pesq_measure` of `pesqmain.c` does with a signal before it is aligned. `fix_power_level` gives
it a fixed power, which is measured behind a filter (`apply_filter` of `pesqdsp.c`), and a second
filter, by recursion or again by transforms, models the listener's equipment (`listen`). For the
alignment alone, `input_filter` of `pesqmod.c` takes out the mean and filters once more.

A filter curve is given by points, and `interpolate` draws lines between them. Arithmetic is exact.
-/

namespace TgVoipRate.Pesq.Acoustic

open Dsp (nextpow2 setPairs IIRFilt)

/-! ## Filter curves -/

/-- A filter curve: frequencies, each with a gain in dB. -/
structure FilterCurve where
  points : List (ℚ × ℚ)
  /-- A line goes through two points. -/
  two_le : 2 ≤ points.length
  /-- The frequencies increase. -/
  increasing : points.Pairwise fun p q => p.1 < q.1

/-- The filter behind which the power of a signal is measured. -/
def align_filter_dB : FilterCurve where
  points :=
    [(0, -500), (50, -500), (100, -500), (125, -500), (160, -500), (200, -500), (250, -500),
     (300, -500), (350, 0), (400, 0), (500, 0), (600, 0), (630, 0), (800, 0), (1000, 0), (1250, 0),
     (1600, 0), (2000, 0), (2500, 0), (3000, 0), (3250, 0), (3500, -500), (4000, -500),
     (5000, -500), (6300, -500), (8000, -500)]
  two_le := by decide
  increasing := by decide +kernel

/-- The filter of a telephone. -/
def standard_IRS_filter_dB : FilterCurve where
  points :=
    [(0, -200), (50, -40), (100, -20), (125, -12), (160, -6), (200, 0), (250, 4), (300, 6),
     (350, 8), (400, 10), (500, 11), (600, 12), (700, 12), (800, 12), (1000, 12), (1300, 12),
     (1600, 12), (2000, 12), (2500, 12), (3000, 12), (3250, 12), (3500, 4), (4000, -200),
     (5000, -200), (6300, -200), (8000, -200)]
  two_le := by decide
  increasing := by decide +kernel

namespace FilterCurve

variable {𝕜 : Type*} [Field 𝕜] [LinearOrder 𝕜] (curve : FilterCurve)

/-- The number of points. -/
def number_of_points : ℕ := curve.points.length

/-- A point. -/
def point (i : ℕ) : ℚ × ℚ := curve.points.getD i (0, 0)

/-- The line through a point and the next one. -/
def line (i : ℕ) (freq : 𝕜) : 𝕜 :=
  let (freqLow, curveLow) := curve.point i
  let (freqHigh, curveHigh) := curve.point (i + 1)
  ((freq - freqLow) * curveHigh + (freqHigh - freq) * curveLow) / (freqHigh - freqLow)

/-- The loop over the points below a frequency, from a point on. -/
def firstNotBelow (freq : 𝕜) (i : ℕ) : ℕ :=
  if i + 1 < curve.number_of_points ∧ (curve.point i).1 < freq then firstNotBelow freq (i + 1)
  -- The last point is not below the frequency, and the loop ends there.
  else i
termination_by curve.number_of_points - i

end FilterCurve

variable {𝕜 : Type*} [Field 𝕜] [LinearOrder 𝕜]

/-- `interpolate`: below the first point and above the last one, the outer lines go on. -/
def interpolate (freq : 𝕜) (curve : FilterCurve) : 𝕜 :=
  if freq ≤ (curve.point 0).1 then curve.line 0 freq
  else if freq ≥ (curve.point (curve.number_of_points - 1)).1 then
    curve.line (curve.number_of_points - 2) freq
  else curve.line (curve.firstNotBelow freq 1 - 1) freq

/-! ## Filters by transforms -/

/-- The factor of a line of the spectrum: the curve, relative to its gain at 1000 Hz. -/
def lineFactor (num : Numerics 𝕜) (freq_resolution : 𝕜) (curve : FilterCurve) (i : ℕ) : 𝕜 :=
  let overallGainFilter := interpolate ((1000 : ℚ) : 𝕜) curve
  let factorDb := interpolate (i * freq_resolution) curve - overallGainFilter
  num.pow (10 : ℚ) (factorDb / (20 : ℚ))

/-- The samples that are filtered: all but the buffers, with the padding. -/
def filteredLength (rate : Rate) (Nsamples : ℤ) : ℤ := Nsamples - 2 * rate.buffer + rate.padding

/-- The samples that are filtered, and zeros. -/
def filterWindow (rate : Rate) (Nsamples : ℤ) (data : ℤ → 𝕜) (i : ℕ) : 𝕜 :=
  if i < filteredLength rate Nsamples then data (i + rate.buffer) else 0

/-- Multiplies the lines of a spectrum by factors. -/
def scaleLines (pow_of_2 : ℕ) (factor : ℕ → 𝕜) (x : ℕ → 𝕜) : ℕ → 𝕜 :=
  setPairs (List.range (pow_of_2 / 2 + 1))
    (fun i => (x (2 * i) * factor i, x (2 * i + 1) * factor i)) x

/-- `apply_filter` -/
def apply_filter (num : Numerics 𝕜) (rate : Rate) (data : ℤ → 𝕜) (maxNsamples : ℤ)
    (filter_curve_db : FilterCurve) : ℤ → 𝕜 :=
  let n := filteredLength rate maxNsamples
  let pow_of_2 := nextpow2 n.toNat
  let x := num.RealFFT (filterWindow rate maxNsamples data) pow_of_2
  let freq_resolution := (rate.Fs : 𝕜) / pow_of_2
  let x := num.RealIFFT
    (scaleLines pow_of_2 (lineFactor num freq_resolution filter_curve_db) x) pow_of_2
  fun i => if rate.buffer ≤ i ∧ i < rate.buffer + n then x (i - rate.buffer).toNat else data i

/-! ## The level -/

/-- The power of a signal behind the filter. -/
def TARGET_AVG_POWER : ℚ := 1E7

/-- The power of a signal above 300 Hz. The divisor is the one of the longer signal. -/
def power_above_300Hz (num : Numerics 𝕜) (rate : Rate) (data : ℤ → 𝕜) (n maxNsamples : ℤ) : 𝕜 :=
  pow_of (apply_filter num rate data n align_filter_dB) rate.buffer
    (n - rate.buffer + rate.padding) (maxNsamples - 2 * rate.buffer + rate.padding)

/-- Multiplies the samples of a signal, but not the padding. -/
def scaleSamples (n : ℤ) (global_scale : 𝕜) (data : ℤ → 𝕜) (i : ℤ) : 𝕜 :=
  if 0 ≤ i ∧ i < n then data i * global_scale else data i

/-- `fix_power_level`: none if the signal has no power, when the scale is infinite and the samples
are not numbers. -/
def fix_power_level (num : Numerics 𝕜) (rate : Rate) (data : ℤ → 𝕜) (n maxNsamples : ℤ) :
    Option (ℤ → 𝕜) :=
  let power := power_above_300Hz num rate data n maxNsamples
  if power = 0 then none else some (scaleSamples n (num.sqrt (TARGET_AVG_POWER / power)) data)

/-! ## Recursive filters -/

/-- The sections of the filter before the alignment, at 8 kHz. -/
def InIIR_Hsos_8k : List ℚ :=
  [0.885535424, -0.885535424, 0.000000000, -0.771070709, 0.000000000, 0.895092588, 1.292907193,
   0.449260174, 1.268869037, 0.442025372, 4.049527940, -7.865190042, 3.815662102, -1.746859852,
   0.786305963, 0.500002353, -0.500002353, 0.000000000, 0.000000000, 0.000000000, 0.565002834,
   -0.241585934, -0.306009671, 0.259688659, 0.249979657, 2.115237288, 0.919935084, 1.141240051,
   -1.587313419, 0.665935315, 0.912224584, -0.224397719, -0.641121413, -0.246029464, -0.556720590,
   0.444617727, -0.307589321, 0.141638062, -0.996391149, 0.502251622]

/-- The sections of the filter before the alignment, at 16 kHz. -/
def InIIR_Hsos_16k : List ℚ :=
  [0.325631521, -0.086782860, -0.238848661, -1.079416490, 0.434583902, 0.403961804, -0.556985881,
   0.153024077, -0.415115835, 0.696590244, 4.736162769, 3.287251046, 1.753289019, -1.859599046,
   0.876284034, 0.365373469, 0.000000000, 0.000000000, -0.634626531, 0.000000000, 0.884811506,
   0.000000000, 0.000000000, -0.256725271, 0.141536777, 0.723593055, -1.447186099, 0.723593044,
   -1.129587469, 0.657232737, 1.644910855, -1.817280902, 1.249658063, -1.778403899, 0.801724355,
   0.633692689, -0.284644314, -0.319789663, 0.000000000, 0.000000000, 1.032763031, 0.268428979,
   0.602913323, 0.000000000, 0.000000000, 1.001616361, -0.823749013, 0.439731942, -0.885778255,
   0.000000000, 0.752472096, -0.375388990, 0.188977609, -0.077258216, 0.247230734, 1.023700575,
   0.001661628, 0.521284240, -0.183867259, 0.354324187]

/-- The section of the filter of the listener, at 8 kHz. -/
def WB_InIIR_Hsos_8k : List ℚ :=
  [2.6657628, -5.3315255, 2.6657628, -1.8890331, 0.89487434]

/-- The section of the filter of the listener, at 16 kHz. -/
def WB_InIIR_Hsos_16k : List ℚ :=
  [2.740826, -5.4816519, 2.740826, -1.9444777, 0.94597794]

/-- The coefficients and the number of the sections of a recursive filter. -/
structure Sections (𝕜 : Type*) where
  Hsos : ℕ → 𝕜
  Nsos : ℕ

/-- The sections in a table. -/
def Sections.ofTable (table : List ℚ) (Nsos : ℕ) : Sections 𝕜 :=
  { Hsos := fun i => (table.getD i 0 : ℚ), Nsos }

/-- The filter before the alignment. -/
def InIIR (rate : Rate) : Sections 𝕜 :=
  if rate.Fs = 16000 then .ofTable InIIR_Hsos_16k 12 else .ofTable InIIR_Hsos_8k 8

/-- The filter of the listener. -/
def WB_InIIR (rate : Rate) : Sections 𝕜 :=
  if rate.Fs = 16000 then .ofTable WB_InIIR_Hsos_16k 1 else .ofTable WB_InIIR_Hsos_8k 1

/-- `IIRFilt` in place, on a number of samples from a first one on. -/
def filterSamples (iir : Sections 𝕜) (start : ℤ) (n : ℕ) (data : ℤ → 𝕜) (i : ℤ) : 𝕜 :=
  let x := (List.range n).map fun k : ℕ => data (start + k)
  if start ≤ i ∧ i < start + n then
    (IIRFilt iir.Hsos iir.Nsos none x none).x.getD (i - start).toNat 0
  else data i

/-- Multiplies one sample. -/
def scaleAt (data : ℤ → 𝕜) (i : ℤ) (factor : 𝕜) : ℤ → 𝕜 :=
  Function.update data i (data i * factor)

/-- A sample at each end is faded. The last sample of a buffer is taken in place of one of the
signal at both ends. -/
def fadeEnd (rate : Rate) (Nsamples : ℤ) (data : ℤ → 𝕜) (i : ℕ) : ℤ → 𝕜 :=
  let data := scaleAt data (rate.buffer + i - 1) ((i : 𝕜) / (16 : ℚ))
  scaleAt data (Nsamples - rate.buffer - i) ((i : 𝕜) / (16 : ℚ))

/-- The filter of the listener's equipment: that of a telephone, or a recursive one for headphones
behind faded ends. -/
def listen (num : Numerics 𝕜) (rate : Rate) (input_filter : ℤ) (Nsamples : ℤ) (data : ℤ → 𝕜) :
    ℤ → 𝕜 :=
  if input_filter = 1 then apply_filter num rate data Nsamples standard_IRS_filter_dB
  else
    filterSamples (WB_InIIR rate) rate.buffer (Nsamples - 2 * rate.buffer).toNat
      ((List.range 16).foldl (fadeEnd rate Nsamples) data)

/-! ## Before the alignment -/

/-- The mean that `DC_block` takes out: the sum over the signal without the buffers, over the number
of samples with them. -/
def meanOf (rate : Rate) (data : ℤ → 𝕜) (Nsamples : ℤ) : 𝕜 :=
  (∑ k ∈ Finset.range (Nsamples - 2 * rate.buffer).toNat, data (rate.buffer + k)) / Nsamples

/-- `DC_block`: takes out the mean, and fades a window at each end. -/
def DC_block (rate : Rate) (data : ℤ → 𝕜) (Nsamples : ℤ) : ℤ → 𝕜 :=
  let facc := meanOf rate data Nsamples
  let data := fun i =>
    if rate.buffer ≤ i ∧ i < Nsamples - rate.buffer then data i - facc else data i
  let fade (first step : ℤ) (data : ℤ → 𝕜) : ℤ → 𝕜 :=
    (List.range rate.Downsample.toNat).foldl
      (fun data count => scaleAt data (first + step * count)
        (((0.5 : ℚ) + (count : 𝕜)) / rate.Downsample))
      data
  fade (Nsamples - rate.buffer - 1) (-1) (fade rate.buffer 1 data)

/-- `apply_filters` -/
def apply_filters (rate : Rate) (data : ℤ → 𝕜) (Nsamples : ℤ) : ℤ → 𝕜 :=
  filterSamples (InIIR rate) 0 (Nsamples + rate.padding).toNat data

/-- `input_filter`, for one of the two signals. -/
def input_filter (rate : Rate) (data : ℤ → 𝕜) (Nsamples : ℤ) : ℤ → 𝕜 :=
  apply_filters rate (DC_block rate data Nsamples) Nsamples

end TgVoipRate.Pesq.Acoustic
