import TgVoipRate.Dsp.Correlation
import TgVoipRate.Dsp.FftCalls

/-!
# The correlation is a linear one

The transform of real numbers is symmetric (`dft_mirror`), so that half of a spectrum is enough, and
the product of the spectra of the reversed first sequence and of the second one is the spectrum of
their convolution. The sequences are padded to twice the length of the longer one at least, so it
does not wrap around (`FFTNXCorr_eq`).
-/

namespace TgVoipRate.Dsp

open Finset.HasAntidiagonal (antidiagonal)
open Fourier (dft dft_inv_dft convolve dft_convolve)
open Loops (Loop)

/-! ## The size -/

/-- The size is a power of two, and at least as large as the number. -/
theorem nextpow2_spec (X : ℕ) : (∃ p, nextpow2 X = 2 ^ p) ∧ X ≤ nextpow2 X := by
  refine ⟨?_, not_lt.mp ((doubleUpTo X).not_guard_run _)⟩
  refine (doubleUpTo X).run_invariant (I := fun C => ∃ p, C.val = 2 ^ p) ?_ ⟨0, rfl⟩
  rintro C - ⟨p, hp⟩
  refine ⟨p + 1, ?_⟩
  show 2 * C.val = _
  rw [hp, pow_succ']

/-! ## Transforms of real numbers -/

/-- Complex numbers that are written to an array. -/
theorem toComplex_setPairs (numbers : List ℕ) (z : ℕ → ℝ × ℝ) (y : ℕ → ℝ) (k : ℕ) :
    toComplex (setPairs numbers z y) k =
      if k ∈ numbers then ⟨(z k).1, (z k).2⟩ else toComplex y k := by
  induction numbers generalizing y with
  | nil => rfl
  | cons i numbers ih =>
    have hrest := ih (setPair y (2 * i) (z i))
    rw [toComplex_setPair, Function.update_apply] at hrest
    unfold setPairs at hrest ⊢
    rw [List.foldl_cons, hrest]
    by_cases hk : k = i
    · subst hk
      rw [if_pos rfl, ite_self, if_pos List.mem_cons_self]
    · rw [if_neg hk]
      refine if_congr ?_ rfl rfl
      rw [List.mem_cons, or_iff_right hk]

/-- Real numbers as complex ones. -/
def ofReals (r : ℕ → ℝ) (i : ℕ) : ℂ := r i

section Real

variable {s : FFTState ℝ} (h : Called s) (memory : RealMemory ℝ) (x : ℕ → ℝ) (q : ℕ)

include h

/-- A transform of real numbers is a call of `FFT`. -/
theorem Called.RealFFT : Called (RealFFT circleAngles memory s x (2 ^ (q + 1))).1 :=
  Called.FFT memory.tables _ (q + 1) h

/-- The first half of the spectrum of real numbers. What is behind them does not matter. -/
theorem toComplex_RealFFT {r : ℕ → ℝ} (hx : ∀ i < 2 ^ (q + 1), x i = r i) {k : ℕ}
    (hk : k ≤ 2 ^ q) :
    toComplex (RealFFT circleAngles memory s x (2 ^ (q + 1))).2 k =
      dft (root (2 ^ (q + 1))) (2 ^ (q + 1)) (ofReals r) k := by
  have hhalf : 2 ^ (q + 1) / 2 = 2 ^ q := (two_pow_succ_div q).1
  have hlt : k < 2 ^ (q + 1) := by
    have hpos := Nat.two_pow_pos q
    rw [pow_succ]
    omega
  unfold RealFFT
  dsimp only
  rw [toComplex_setPairs, if_pos (List.mem_range.mpr (by omega))]
  show toComplex _ k = _
  rw [toComplex_FFT h, if_pos hlt]
  refine dft_congr (fun n hn => ?_) k
  rw [toComplex_setPairs, if_pos (List.mem_range.mpr hn), hx n hn]
  rfl

/-- The way back, for a spectrum whose second half is the first one mirrored and conjugated. -/
theorem RealIFFT_eq {Z : ℕ → ℂ} (hZ : ∀ k ≤ 2 ^ q, toComplex x k = Z k)
    (hmirror : ∀ k, 2 ^ q < k → k < 2 ^ (q + 1) →
      Z k = starRingEnd ℂ (Z (2 ^ (q + 1) - k))) {i : ℕ} (hi : i < 2 ^ (q + 1)) :
    (RealIFFT circleAngles memory s x (2 ^ (q + 1))).2 i =
      (dft (root (2 ^ (q + 1)))⁻¹ (2 ^ (q + 1)) Z i / (2 ^ (q + 1) : ℕ)).re := by
  have hhalf : 2 ^ (q + 1) / 2 = 2 ^ q := (two_pow_succ_div q).1
  have hdouble : 2 ^ (q + 1) = 2 ^ q + 2 ^ q := by
    rw [pow_succ]
    omega
  unfold RealIFFT
  dsimp only
  rw [if_pos hi]
  generalize hy : setPairs (List.range' (2 ^ (q + 1) / 2 + 1)
      (2 ^ (q + 1) - (2 ^ (q + 1) / 2 + 1))) _ _ = y
  have hspectrum : ∀ n < 2 ^ (q + 1), toComplex y n = Z n := by
    intro n hn
    rw [← hy, toComplex_setPairs]
    -- The second half is written behind the first one.
    split
    · rename_i hmem
      rw [List.mem_range'_1, hhalf] at hmem
      rw [hmirror n (by omega) hn, ← hZ _ (by omega)]
      rfl
    · rename_i hmem
      rw [List.mem_range'_1, hhalf] at hmem
      rw [toComplex_setPairs, if_pos (List.mem_range.mpr (by omega))]
      exact hZ n (by omega)
  have hre := congrArg Complex.re (toComplex_IFFT h memory.tables y q i)
  rw [if_pos hi, dft_congr hspectrum] at hre
  exact hre

end Real

/-- The conjugate of the root is its inverse. -/
theorem conj_root (N : ℕ) : starRingEnd ℂ (root N) = (root N)⁻¹ := by
  have hroot := root_pow_eq N 1
  have hinv := root_inv_pow_eq N 1
  rw [pow_one] at hroot hinv
  rw [hinv, hroot]
  apply Complex.ext <;> simp

/-- The spectrum of real numbers is symmetric. -/
theorem dft_mirror {N : ℕ} (hN : N ≠ 0) (r : ℕ → ℝ) {k : ℕ} (hk : k ≤ N) :
    dft (root N) N (ofReals r) k = starRingEnd ℂ (dft (root N) N (ofReals r) (N - k)) := by
  have hroot := isPrimitiveRoot_root hN
  unfold dft
  rw [map_sum]
  refine Finset.sum_congr rfl fun n _ => ?_
  have hturn : root N ^ (k * n) * root N ^ ((N - k) * n) = 1 := by
    rw [← pow_add, ← add_mul, Nat.add_sub_cancel' hk, pow_mul, hroot.pow_eq_one, one_pow]
  rw [map_mul, map_pow, conj_root, inv_pow, ← eq_inv_of_mul_eq_one_left hturn]
  congr 1
  exact (Complex.conj_ofReal (r n)).symm

/-! ## The correlation -/

/-- The first sequence backwards, and zeros. -/
def reversed (x1 : ℕ → ℝ) (n1 i : ℕ) : ℝ := if i < n1 then x1 (n1 - 1 - i) else 0

/-- The second sequence, and zeros. -/
def extended (x2 : ℕ → ℝ) (n2 i : ℕ) : ℝ := if i < n2 then x2 i else 0

/-- The first array before its transform. -/
theorem reversePad_eq (x1 : ℕ → ℝ) (n1 N : ℕ) (tmp1 : ℕ → ℝ) {i : ℕ} (hi : i < N) :
    reversePad x1 n1 N tmp1 i = reversed x1 n1 i := by
  have hfold : ∀ n ≤ n1, ∀ i, (List.range n).foldl
      (fun tmp1 i => Function.update tmp1 (n1 - 1 - i) (x1 i)) tmp1 i =
        if n1 - n ≤ i ∧ i < n1 then x1 (n1 - 1 - i) else tmp1 i := by
    intro n
    induction n with
    | zero => exact fun _ i => (if_neg (by omega)).symm
    | succ n ih =>
      intro hn i
      rw [List.range_succ, List.foldl_append, List.foldl_cons, List.foldl_nil,
        Function.update_apply, ih (by omega)]
      by_cases hin : i = n1 - 1 - n
      · rw [if_pos hin, if_pos (by omega)]
        congr 1
        omega
      · rw [if_neg hin]
        refine if_congr ?_ rfl rfl
        omega
  unfold reversePad reversed
  by_cases hin : i < n1
  · rw [if_neg (by omega), hfold n1 le_rfl, if_pos (by omega), if_pos hin]
  · rw [if_pos (by omega), if_neg hin]

/-- The second array before its transform. -/
theorem pad_eq (x2 : ℕ → ℝ) (n2 N : ℕ) (tmp2 : ℕ → ℝ) {i : ℕ} (hi : i < N) :
    pad x2 n2 N tmp2 i = extended x2 n2 i := by
  unfold pad extended
  by_cases hin : i < n2
  · rw [if_pos hin, if_pos hin]
  · rw [if_neg hin, if_pos hi, if_neg hin]

/-- The sum of the products of entries of the two sequences, where an entry of the second one meets
the one of the first that is `k` entries behind it, from the end of the first sequence on. -/
def correlationAt (x1 : ℕ → ℝ) (n1 : ℕ) (x2 : ℕ → ℝ) (n2 k : ℕ) : ℝ :=
  ∑ j ∈ Finset.range n2, if j ≤ k ∧ k - j < n1 then x1 (n1 - 1 - (k - j)) * x2 j else 0

/-- A sum whose terms are zero from an index on. -/
theorem sum_range_ite {n N : ℕ} (h : n ≤ N) (f : ℕ → ℝ) :
    ∑ j ∈ Finset.range N, (if j < n then f j else 0) = ∑ j ∈ Finset.range n, f j := by
  rw [← Finset.sum_subset (Finset.range_mono h) fun j _ hj =>
    if_neg fun hlt => hj (Finset.mem_range.mpr hlt)]
  exact Finset.sum_congr rfl fun j hj => if_pos (Finset.mem_range.mp hj)

/-- The correlation is a convolution with the first sequence backwards. -/
theorem convolve_eq_correlationAt (x1 : ℕ → ℝ) (n1 : ℕ) (x2 : ℕ → ℝ) (n2 k : ℕ) :
    convolve (ofReals (reversed x1 n1)) (ofReals (extended x2 n2)) k =
      (correlationAt x1 n1 x2 n2 k : ℂ) := by
  have hterm : ∀ j, (if j < k + 1 then reversed x1 n1 (k - j) * extended x2 n2 j else 0) =
      if j < n2 then
        (if j ≤ k ∧ k - j < n1 then x1 (n1 - 1 - (k - j)) * x2 j else 0) else 0 := fun j => by
    unfold reversed extended
    by_cases hjk : j ≤ k <;> by_cases hkj : k - j < n1 <;> by_cases hj : j < n2 <;>
      simp [hjk, hkj, hj]
  have hreal : (∑ ij ∈ antidiagonal k, reversed x1 n1 ij.1 * extended x2 n2 ij.2) =
      correlationAt x1 n1 x2 n2 k := by
    calc ∑ ij ∈ antidiagonal k, reversed x1 n1 ij.1 * extended x2 n2 ij.2
        = ∑ ij ∈ antidiagonal k, reversed x1 n1 ij.2 * extended x2 n2 ij.1 :=
          Finset.Nat.sum_antidiagonal_swap.symm
      _ = ∑ j ∈ Finset.range (k + 1), reversed x1 n1 (k - j) * extended x2 n2 j :=
          Finset.Nat.sum_antidiagonal_eq_sum_range_succ_mk _ _
      _ = ∑ j ∈ Finset.range (k + 1 + n2),
            if j < k + 1 then reversed x1 n1 (k - j) * extended x2 n2 j else 0 :=
          (sum_range_ite (by omega) _).symm
      _ = ∑ j ∈ Finset.range (k + 1 + n2), if j < n2 then
            (if j ≤ k ∧ k - j < n1 then x1 (n1 - 1 - (k - j)) * x2 j else 0) else 0 :=
          Finset.sum_congr rfl fun j _ => hterm j
      _ = correlationAt x1 n1 x2 n2 k := sum_range_ite (by omega) _
  unfold convolve ofReals
  rw [← hreal]
  push_cast
  rfl

/-- The product of two numbers in arrays. -/
theorem mulPair_eq (x y : ℕ → ℝ) (k : ℕ) :
    (⟨(mulPair x y k).1, (mulPair x y k).2⟩ : ℂ) = toComplex x k * toComplex y k := by
  apply Complex.ext
  · rw [Complex.mul_re]
    rfl
  · rw [Complex.mul_im]
    rfl

/-- The spectrum of the correlation, for sequences that are padded to twice the longer one. -/
theorem dft_correlation (x1 : ℕ → ℝ) {n1 : ℕ} (hn1 : 1 ≤ n1) (x2 : ℕ → ℝ) {n2 : ℕ} (hn2 : 1 ≤ n2)
    {N : ℕ} (hN : n1 + n2 ≤ N) (w : ℂ) (k : ℕ) :
    dft w N (convolve (ofReals (reversed x1 n1)) (ofReals (extended x2 n2))) k =
      dft w N (ofReals (reversed x1 n1)) k * dft w N (ofReals (extended x2 n2)) k := by
  refine dft_convolve hn1 hn2 (by omega) w (fun i hi => ?_) (fun i hi => ?_) k
  · rw [ofReals, reversed, if_neg (by omega), Complex.ofReal_zero]
  · rw [ofReals, extended, if_neg (by omega), Complex.ofReal_zero]

/-- `FFTNXCorr` after any calls: it returns the length of the linear correlation, and writes all of
it. -/
theorem FFTNXCorr_eq {s : FFTState ℝ} (h : Called s) (memory : CorrelationMemory ℝ) (x1 : ℕ → ℝ)
    {n1 : ℕ} (hn1 : 1 ≤ n1) (x2 : ℕ → ℝ) {n2 : ℕ} (hn2 : 1 ≤ n2) (y : ℕ → ℝ) :
    (FFTNXCorr circleAngles memory s x1 n1 x2 n2 y).Ny = n1 + n2 - 1 ∧
      ∀ k < n1 + n2 - 1, (FFTNXCorr circleAngles memory s x1 n1 x2 n2 y).y k =
        correlationAt x1 n1 x2 n2 k := by
  obtain ⟨⟨q, hsize⟩, hmax⟩ := nextpow2_spec (max n1 n2)
  have hN : 2 * 2 ^ q = 2 ^ (q + 1) := (pow_succ' 2 q).symm
  have hlong : n1 + n2 ≤ 2 ^ (q + 1) := by
    have h1 := le_max_left n1 n2
    have h2 := le_max_right n1 n2
    omega
  refine ⟨rfl, fun k hk => ?_⟩
  unfold FFTNXCorr
  dsimp only
  rw [if_pos hk, hsize, hN]
  -- The two spectra, and the states of the globals behind them.
  have hfirst : ∀ {k}, k ≤ 2 ^ q →
      toComplex (RealFFT circleAngles memory.first s (reversePad x1 n1 (2 ^ (q + 1)) memory.tmp1)
        (2 ^ (q + 1))).2 k =
          dft (root (2 ^ (q + 1))) (2 ^ (q + 1)) (ofReals (reversed x1 n1)) k :=
    toComplex_RealFFT h memory.first _ q fun i hi => reversePad_eq x1 n1 _ memory.tmp1 hi
  have hcalled := h.RealFFT memory.first (reversePad x1 n1 (2 ^ (q + 1)) memory.tmp1) q
  generalize RealFFT circleAngles memory.first s _ (2 ^ (q + 1)) = first at hfirst hcalled ⊢
  have hsecond : ∀ {k}, k ≤ 2 ^ q →
      toComplex (RealFFT circleAngles memory.second first.1 (pad x2 n2 (2 ^ (q + 1)) memory.tmp2)
        (2 ^ (q + 1))).2 k =
          dft (root (2 ^ (q + 1))) (2 ^ (q + 1)) (ofReals (extended x2 n2)) k :=
    toComplex_RealFFT hcalled memory.second _ q fun i hi => pad_eq x2 n2 _ memory.tmp2 hi
  have hcalled' := hcalled.RealFFT memory.second (pad x2 n2 (2 ^ (q + 1)) memory.tmp2) q
  generalize RealFFT circleAngles memory.second first.1 _ (2 ^ (q + 1)) = second
    at hsecond hcalled' ⊢
  -- Their product is that of the correlation, in its first half and, mirrored, in its second.
  have hproduct := dft_correlation x1 hn1 x2 hn2 hlong (root (2 ^ (q + 1)))
  have hN0 : 2 ^ (q + 1) ≠ 0 := by positivity
  rw [RealIFFT_eq (Z := dft (root (2 ^ (q + 1))) (2 ^ (q + 1))
      (convolve (ofReals (reversed x1 n1)) (ofReals (extended x2 n2)))) hcalled' memory.back _ q
      ?_ ?_ (by omega),
    dft_inv_dft (isPrimitiveRoot_root hN0) _ (by omega),
    mul_div_cancel_left₀ _ (Nat.cast_ne_zero.mpr hN0), convolve_eq_correlationAt, Complex.ofReal_re]
  · intro k hk
    rw [toComplex_setPairs, if_pos (List.mem_range.mpr (by omega)), mulPair_eq, hfirst hk,
      hsecond hk, hproduct]
  · intro k hk hk'
    rw [hproduct, hproduct, map_mul, ← dft_mirror hN0 _ hk'.le, ← dft_mirror hN0 _ hk'.le]

end TgVoipRate.Dsp
