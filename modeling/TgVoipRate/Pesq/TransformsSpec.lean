import Mathlib
import TgVoipRate.Pesq.LoudnessSpec

/-!
# The transforms of the model are linear

The transforms of real numbers that an exact `Numerics` calls, in whatever state the globals are:
the first half of a spectrum is a discrete Fourier transform (`Exact.toComplex_RealFFT`), and the
way back only depends on that half (`Exact.RealIFFT_re`). So both are linear, in the entries that
they read and write (`Exact.RealFFT_combination`, `Exact.RealIFFT_combination`). The window of a
frame has a first line of a quarter of its length (`Exact.dft_Whanning`).
-/

namespace TgVoipRate.Pesq.Acoustic

open Dsp (toComplex root ofReals dft_congr circleAngles isPrimitiveRoot_root root_pow_eq
  root_inv_pow_eq)
open Fourier (dft dft_combination sum_root_pow)

variable {num : Numerics ℝ} (hnum : Exact num)

include hnum

/-- The first half of the spectrum of some real numbers. -/
theorem Exact.toComplex_RealFFT (x : ℕ → ℝ) (q : ℕ) {r : ℕ → ℝ} (hx : ∀ i < 2 ^ (q + 1), x i = r i)
    {k : ℕ} (hk : k ≤ 2 ^ q) :
    toComplex (num.RealFFT x (2 ^ (q + 1))) k =
      dft (root (2 ^ (q + 1))) (2 ^ (q + 1)) (ofReals r) k := by
  obtain ⟨s, memory, hcalled, heq⟩ := hnum.RealFFT_eq x (2 ^ (q + 1))
  rw [heq]
  exact Dsp.toComplex_RealFFT hcalled memory x q hx hk

omit hnum in
/-- The whole spectrum, from its first half. -/
noncomputable def wholeSpectrum (q : ℕ) (x : ℕ → ℝ) (k : ℕ) : ℂ :=
  if k ≤ 2 ^ q then toComplex x k else starRingEnd ℂ (toComplex x (2 ^ (q + 1) - k))

omit hnum in
/-- A spectrum that is symmetric is given by its first half. -/
theorem wholeSpectrum_eq {q : ℕ} {x : ℕ → ℝ} {Z : ℕ → ℂ}
    (hfirst : ∀ k ≤ 2 ^ q, toComplex x k = Z k)
    (hmirror : ∀ k ≤ 2 ^ (q + 1), Z k = starRingEnd ℂ (Z (2 ^ (q + 1) - k))) {k : ℕ}
    (hk : k < 2 ^ (q + 1)) : wholeSpectrum q x k = Z k := by
  have hsize : 2 ^ (q + 1) = 2 ^ q + 2 ^ q := by
    rw [pow_succ]
    omega
  unfold wholeSpectrum
  split
  · rename_i hhalf
    exact hfirst k hhalf
  · rw [hfirst _ (by omega), ← hmirror k hk.le]

/-- The way back from the first half of a spectrum. -/
theorem Exact.RealIFFT_re (x : ℕ → ℝ) (q : ℕ) {i : ℕ} (hi : i < 2 ^ (q + 1)) :
    num.RealIFFT x (2 ^ (q + 1)) i =
      (dft (root (2 ^ (q + 1)))⁻¹ (2 ^ (q + 1)) (wholeSpectrum q x) i / (2 ^ (q + 1) : ℕ)).re := by
  obtain ⟨s, memory, hcalled, heq⟩ := hnum.RealIFFT_eq x (2 ^ (q + 1))
  rw [heq]
  refine Dsp.RealIFFT_eq hcalled memory x q (fun k hk => (if_pos hk).symm) (fun k hk hlt => ?_) hi
  have hsize : 2 ^ (q + 1) = 2 ^ q + 2 ^ q := by
    rw [pow_succ]
    omega
  rw [if_neg (by omega), if_pos (by omega)]

/-- The spectrum of a combination of two arrays. -/
theorem Exact.RealFFT_combination (q : ℕ) {a b : ℝ} {x y z : ℕ → ℝ}
    (hz : ∀ i < 2 ^ (q + 1), z i = a * x i + b * y i) {k : ℕ} (hk : k ≤ 2 ^ q) :
    toComplex (num.RealFFT z (2 ^ (q + 1))) k =
      a * toComplex (num.RealFFT x (2 ^ (q + 1))) k +
        b * toComplex (num.RealFFT y (2 ^ (q + 1))) k := by
  rw [hnum.toComplex_RealFFT z q hz hk, hnum.toComplex_RealFFT x q (fun _ _ => rfl) hk,
    hnum.toComplex_RealFFT y q (fun _ _ => rfl) hk, ← dft_combination]
  refine dft_congr (fun n _ => ?_) _
  unfold ofReals
  push_cast
  rfl

/-- The way back from a combination of two spectra. -/
theorem Exact.RealIFFT_combination (q : ℕ) {a b : ℝ} {x y z : ℕ → ℝ}
    (hz : ∀ k ≤ 2 ^ q, toComplex z k = a * toComplex x k + b * toComplex y k) {i : ℕ}
    (hi : i < 2 ^ (q + 1)) :
    num.RealIFFT z (2 ^ (q + 1)) i =
      a * num.RealIFFT x (2 ^ (q + 1)) i + b * num.RealIFFT y (2 ^ (q + 1)) i := by
  -- The second half of the spectrum is that of the conjugates.
  have hwhole : ∀ k < 2 ^ (q + 1), wholeSpectrum q z k =
      a * wholeSpectrum q x k + b * wholeSpectrum q y k := by
    intro k hk
    rw [pow_succ] at hk
    unfold wholeSpectrum
    split
    · rename_i hle
      exact hz k hle
    · rw [hz _ (by rw [pow_succ]; omega), map_add, map_mul, map_mul, Complex.conj_ofReal,
        Complex.conj_ofReal]
  rw [hnum.RealIFFT_re z q hi, hnum.RealIFFT_re x q hi, hnum.RealIFFT_re y q hi,
    dft_congr hwhole, dft_combination, Complex.div_natCast_re, Complex.div_natCast_re,
    Complex.div_natCast_re, Complex.add_re, Complex.re_ofReal_mul, Complex.re_ofReal_mul]
  ring

/-- The spectrum of a multiple of an array. -/
theorem Exact.RealFFT_scaled (q : ℕ) {a : ℝ} {x z : ℕ → ℝ} (hz : ∀ i < 2 ^ (q + 1), z i = a * x i)
    {k : ℕ} (hk : k ≤ 2 ^ q) :
    toComplex (num.RealFFT z (2 ^ (q + 1))) k =
      a * toComplex (num.RealFFT x (2 ^ (q + 1))) k := by
  have hsum : ∀ i < 2 ^ (q + 1), z i = a * x i + 0 * x i := fun i hi => by
    rw [hz i hi, zero_mul, add_zero]
  rw [hnum.RealFFT_combination q hsum hk, Complex.ofReal_zero, zero_mul, add_zero]

/-- The way back from a multiple of a spectrum. -/
theorem Exact.RealIFFT_scaled (q : ℕ) {a : ℝ} {x z : ℕ → ℝ}
    (hz : ∀ k ≤ 2 ^ q, toComplex z k = a * toComplex x k) {i : ℕ} (hi : i < 2 ^ (q + 1)) :
    num.RealIFFT z (2 ^ (q + 1)) i = a * num.RealIFFT x (2 ^ (q + 1)) i := by
  have hsum : ∀ k ≤ 2 ^ q, toComplex z k =
      a * toComplex x k + (0 : ℝ) * toComplex x k := fun k hk => by
    rw [hz k hk, Complex.ofReal_zero, zero_mul, add_zero]
  rw [hnum.RealIFFT_combination q hsum hi, zero_mul, add_zero]

/-- The first line of a constant signal that is seen through the window of a frame. -/
theorem Exact.dft_Whanning {N : ℕ} (hN : 2 < N) (c : ℝ) :
    dft (root N) N (ofReals fun n => c * Whanning num N n) 1 = -(c * N / 4 : ℝ) := by
  have hw := isPrimitiveRoot_root (show N ≠ 0 by omega)
  have hterm : ∀ n : ℕ, ofReals (fun n => c * Whanning num N n) n * root N ^ (1 * n) =
      c / 2 * (root N ^ (n * 1) * (root N)⁻¹ ^ (0 * n)) -
        c / 4 * (root N ^ (n * 2) * (root N)⁻¹ ^ (0 * n)) -
        c / 4 * (root N ^ (n * 1) * (root N)⁻¹ ^ (1 * n)) := by
    intro n
    have hcos : (circleAngles.cos n N : ℂ) = (root N ^ n + (root N)⁻¹ ^ n) / 2 := by
      rw [root_pow_eq, root_inv_pow_eq]
      apply Complex.ext <;> simp
    unfold ofReals Whanning
    rw [hnum.angles_eq]
    push_cast
    rw [hcos]
    ring
  unfold dft
  rw [Finset.sum_congr rfl fun n _ => hterm n, Finset.sum_sub_distrib, Finset.sum_sub_distrib,
    ← Finset.mul_sum, ← Finset.mul_sum, ← Finset.mul_sum, sum_root_pow hw (by omega) (by omega),
    sum_root_pow hw hN (by omega), sum_root_pow hw (by omega) (by omega)]
  push_cast
  norm_num
  ring
end TgVoipRate.Pesq.Acoustic
