import Mathlib
import TgVoipRate.Dsp.Correlation
import TgVoipRate.Pesq.Loudness

/-!
# The delay of a bad interval

`compute_delay` of `pesqmod.c`, which `pesq_psychoacoustic_model` calls on a bad interval of the
reference and the part of the degraded signal around it. It correlates the magnitudes of the samples
by transforms of twice their length, and searches the delays in a range on both sides of zero for
the highest correlation.
-/

namespace TgVoipRate.Pesq.Acoustic

variable {𝕜 : Type*} [Field 𝕜] [LinearOrder 𝕜]

/-- `pow_of`, for a range that it does not exit on. -/
def pow_of (x : ℤ → 𝕜) (start_sample stop_sample divisor : ℤ) : 𝕜 :=
  (∑ i ∈ Finset.range (stop_sample - start_sample).toNat,
    x (start_sample + i) * x (start_sample + i)) / divisor

/-- The magnitudes of some samples, with zeros behind them. -/
def magnitudes (time_series : ℤ → 𝕜) (start_sample n : ℤ) (i : ℕ) : 𝕜 :=
  if i < n then |time_series (i + start_sample)| else 0

/-- The product of a spectrum with the conjugate of the first one, which is scaled before. -/
def crossSpectrum (power_of_2 : ℕ) (x1 x2 : ℕ → 𝕜) (i : ℕ) : 𝕜 × 𝕜 :=
  let r1 := x1 (2 * i) / power_of_2
  let i1 := x1 (2 * i + 1) / power_of_2
  (r1 * x2 (2 * i) + i1 * x2 (2 * i + 1), -i1 * x2 (2 * i) + r1 * x2 (2 * i + 1))

/-- The correlation of the magnitudes, by transforms. -/
def crossCorrelation (num : Numerics 𝕜) (power_of_2 : ℕ) (x1 x2 : ℕ → 𝕜) : ℕ → 𝕜 :=
  let x1 := num.RealFFT x1 power_of_2
  let x2 := num.RealFFT x2 power_of_2
  let y := Dsp.setPairs (List.range (power_of_2 / 2 + 1)) (crossSpectrum power_of_2 x1 x2)
    fun _ => 0
  num.RealIFFT y power_of_2

/-- The delays that are tried, in order. -/
def delaysToTry (search_range : ℤ) : List ℤ :=
  (List.range search_range.toNat).map (fun i : ℕ => (i : ℤ) - search_range) ++
    (List.range search_range.toNat).map fun i : ℕ => (i : ℤ)

/-- The entry of the correlation for a delay: negative ones are at the end. -/
def delayIndex (power_of_2 : ℕ) (i : ℤ) : ℕ := (if i < 0 then i + power_of_2 else i).toNat

/-- The search: the highest correlation so far, and its delay. -/
def searchDelay (h : ℤ → 𝕜) (delays : List ℤ) (best : 𝕜 × ℤ) : 𝕜 × ℤ :=
  delays.foldl (fun best i => if h i > best.1 then (h i, i) else best) best

/-- `compute_delay`: `max_correlation` and the delay. -/
def compute_delay (num : Numerics 𝕜) (start_sample stop_sample search_range : ℤ)
    (time_series1 time_series2 : ℤ → 𝕜) : 𝕜 × ℤ :=
  let n := stop_sample - start_sample
  let power_of_2 := Dsp.nextpow2 (2 * n).toNat
  let power1 := pow_of time_series1 start_sample stop_sample n * n / power_of_2
  let power2 := pow_of time_series2 start_sample stop_sample n * n / power_of_2
  let normalization := num.sqrt (power1 * power2)
  if power1 ≤ (1E-6 : ℚ) ∨ power2 ≤ (1E-6 : ℚ) then (0, 0)
  else
    let y := crossCorrelation num power_of_2 (magnitudes time_series1 start_sample n)
      (magnitudes time_series2 start_sample n)
    searchDelay (fun i => |(|y (delayIndex power_of_2 i)| / normalization)|)
      (delaysToTry search_range) (0, 0)

end TgVoipRate.Pesq.Acoustic
