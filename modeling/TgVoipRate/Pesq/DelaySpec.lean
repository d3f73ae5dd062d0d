import Mathlib
import TgVoipRate.Lib.CrossCorrelation
import TgVoipRate.Pesq.ComputeDelay
import TgVoipRate.Pesq.CrudeLag
import TgVoipRate.Pesq.LevelSpec

/-!
# What `compute_delay` finds

The transforms of `compute_delay` have twice the length of the samples, and so the correlation that
they give does not wrap around (`crossCorrelation_magnitudes`). What is searched is the correlation
coefficient of the magnitudes, and the delay is the first one with the highest coefficient
(`compute_delay_spec`). For a copy this is its delay, and the coefficient is one
(`compute_delay_copy`).
-/

namespace TgVoipRate.Pesq.Acoustic

open Dsp (toComplex root ofReals nextpow2 toComplex_setPairs isPrimitiveRoot_root)
open Fourier (dft)
open CrossCorrelation (corr energy coefficient)

/-! ## The correlation by transforms -/

section Transforms

variable {num : Numerics ℝ} (hnum : Exact num)

/-- The product of a spectrum with the conjugate of the first one. -/
theorem toComplex_crossSpectrum (q : ℕ) (x1 x2 : ℕ → ℝ) {k : ℕ} (hk : k ≤ 2 ^ q) :
    toComplex (Dsp.setPairs (List.range (2 ^ (q + 1) / 2 + 1)) (crossSpectrum (2 ^ (q + 1)) x1 x2)
      fun _ => 0) k =
        starRingEnd ℂ (toComplex x1 k) * toComplex x2 k / (2 ^ (q + 1) : ℕ) := by
  have hsize : 2 ^ (q + 1) / 2 = 2 ^ q := (Dsp.two_pow_succ_div q).1
  rw [toComplex_setPairs, if_pos (List.mem_range.mpr (by omega))]
  unfold crossSpectrum toComplex
  apply Complex.ext
  · rw [Complex.div_natCast_re, Complex.mul_re]
    simp only [Complex.conj_re, Complex.conj_im]
    ring
  · rw [Complex.div_natCast_im, Complex.mul_im]
    simp only [Complex.conj_re, Complex.conj_im]
    ring

/-- The conjugate of a spectrum of real numbers. -/
theorem conj_dft_ofReals (N : ℕ) (r : ℕ → ℝ) (k : ℕ) :
    starRingEnd ℂ (dft (root N) N (ofReals r) k) = dft (root N)⁻¹ N (ofReals r) k := by
  have hreal : (fun n => starRingEnd ℂ (ofReals r n)) = ofReals r :=
    funext fun n => Complex.conj_ofReal (r n)
  rw [Fourier.map_dft, Dsp.conj_root, hreal]

include hnum

/-- The whole spectrum that is transformed back. -/
theorem wholeSpectrum_cross (q : ℕ) (x1 x2 : ℕ → ℝ) {k : ℕ} (hk : k < 2 ^ (q + 1)) :
    wholeSpectrum q (Dsp.setPairs (List.range (2 ^ (q + 1) / 2 + 1))
      (crossSpectrum (2 ^ (q + 1)) (num.RealFFT x1 (2 ^ (q + 1))) (num.RealFFT x2 (2 ^ (q + 1))))
      fun _ => 0) k =
        dft (root (2 ^ (q + 1)))⁻¹ (2 ^ (q + 1)) (ofReals x1) k *
          dft (root (2 ^ (q + 1))) (2 ^ (q + 1)) (ofReals x2) k / (2 ^ (q + 1) : ℕ) := by
  have hN : 2 ^ (q + 1) ≠ 0 := (Nat.two_pow_pos _).ne'
  rw [← conj_dft_ofReals]
  refine wholeSpectrum_eq (Z := fun k => starRingEnd ℂ (dft (root (2 ^ (q + 1))) (2 ^ (q + 1))
    (ofReals x1) k) * dft (root (2 ^ (q + 1))) (2 ^ (q + 1)) (ofReals x2) k / (2 ^ (q + 1) : ℕ))
    (fun k hhalf => ?_) (fun k hle => ?_) hk
  · rw [toComplex_crossSpectrum q _ _ hhalf, hnum.toComplex_RealFFT x1 q (fun _ _ => rfl) hhalf,
      hnum.toComplex_RealFFT x2 q (fun _ _ => rfl) hhalf]
  · rw [Dsp.dft_mirror hN x1 hle, Dsp.dft_mirror hN x2 hle, map_div₀, map_mul, map_natCast]

/-- The transforms give the circular correlation, over the length. -/
theorem crossCorrelation_eq (q : ℕ) (x1 x2 : ℕ → ℝ) {j : ℕ} (hj : j < 2 ^ (q + 1)) :
    crossCorrelation num (2 ^ (q + 1)) x1 x2 j =
      (∑ n ∈ Finset.range (2 ^ (q + 1)), x1 n * x2 ((n + j) % 2 ^ (q + 1))) /
        (2 ^ (q + 1) : ℕ) := by
  have hN : ((2 ^ (q + 1) : ℕ) : ℂ) ≠ 0 := Nat.cast_ne_zero.mpr (Nat.two_pow_pos _).ne'
  have hroot := isPrimitiveRoot_root (Nat.two_pow_pos (q + 1)).ne'
  unfold crossCorrelation
  rw [hnum.RealIFFT_re _ q hj,
    Dsp.dft_congr (fun k hk => (wholeSpectrum_cross hnum q x1 x2 hk).trans (div_eq_inv_mul _ _)) j,
    Fourier.dft_const_mul, Fourier.dft_inv_correlate hroot, inv_mul_cancel_left₀ hN]
  rw [show (∑ n ∈ Finset.range (2 ^ (q + 1)),
      ofReals x1 n * ofReals x2 ((n + j) % 2 ^ (q + 1))) =
        ((∑ n ∈ Finset.range (2 ^ (q + 1)), x1 n * x2 ((n + j) % 2 ^ (q + 1)) : ℝ) : ℂ) by
      unfold ofReals
      push_cast
      rfl, Complex.div_natCast_re, Complex.ofReal_re]

end Transforms

/-! ## The correlation of the magnitudes -/

/-- The magnitudes of some samples, and zeros around them. -/
def magnitudesAround (time_series : ℤ → ℝ) (start_sample n i : ℤ) : ℝ :=
  if 0 ≤ i ∧ i < n then |time_series (i + start_sample)| else 0

section Magnitudes

variable (x y : ℤ → ℝ) (start_sample n : ℤ)

/-- The array has the magnitudes, and zeros behind them. -/
theorem magnitudes_eq (i : ℕ) :
    magnitudes x start_sample n i = magnitudesAround x start_sample n i :=
  if_congr (iff_and_self.mpr fun _ => Int.natCast_nonneg i) rfl rfl

/-- There is nothing around the samples. -/
theorem support_magnitudesAround :
    Function.support (magnitudesAround x start_sample n) ⊆ Set.Ico 0 n := fun _ hi =>
  by_contra fun hnot => hi (if_neg hnot)

/-- There are finitely many samples. -/
theorem finite_magnitudesAround :
    (Function.support (magnitudesAround x start_sample n)).Finite :=
  (Set.finite_Ico 0 n).subset (support_magnitudesAround x start_sample n)

/-- Magnitudes are not negative. -/
theorem magnitudesAround_nonneg (i : ℤ) : 0 ≤ magnitudesAround x start_sample n i := by
  unfold magnitudesAround
  split
  · exact abs_nonneg _
  · exact le_rfl

/-- The power over the length of the transforms. -/
theorem power_eq {stop_sample : ℤ} (hn : start_sample < stop_sample) (N : ℝ) :
    pow_of x start_sample stop_sample (stop_sample - start_sample) *
        ((stop_sample - start_sample : ℤ) : ℝ) / N =
      energy (magnitudesAround x start_sample (stop_sample - start_sample)) / N := by
  have hlength : ((stop_sample - start_sample : ℤ) : ℝ) ≠ 0 := Int.cast_ne_zero.mpr (by omega)
  have hsupport : (Function.support fun i =>
      magnitudesAround x start_sample (stop_sample - start_sample) i ^ 2) ⊆
        Set.Ico 0 (stop_sample - start_sample) :=
    fun i hi => support_magnitudesAround x start_sample _ fun hzero => hi (by simp [hzero])
  unfold pow_of energy
  rw [div_mul_cancel₀ _ hlength, CrossCorrelation.finsum_eq_sum_range hsupport]
  congr 1
  refine Finset.sum_congr rfl fun i hi => ?_
  have hi := Finset.mem_range.mp hi
  unfold magnitudesAround
  rw [if_pos (by omega), sq_abs, add_comm start_sample, pow_two]

variable {n} {N : ℕ} {lag : ℤ}

/-- Each delay has an entry. -/
theorem delayIndex_lt (hlong : 2 * n ≤ N) (hlag : lag ∈ Set.Ico (-n) n) : delayIndex N lag < N := by
  obtain ⟨hlow, hhigh⟩ := hlag
  unfold delayIndex
  split <;> omega

/-- The entries that wrap around are zeros. -/
theorem magnitudesAround_mod (hlong : 2 * n ≤ N) (hlag : lag ∈ Set.Ico (-n) n) {i : ℕ}
    (hi : (i : ℤ) < n) :
    magnitudesAround y start_sample n ((i + delayIndex N lag) % N : ℕ) =
      magnitudesAround y start_sample n (i + lag) := by
  obtain ⟨hlow, hhigh⟩ := hlag
  unfold delayIndex
  rcases lt_or_ge lag 0 with hneg | hpos
  · rw [if_pos hneg]
    rcases lt_or_ge (i + lag) 0 with hbefore | hinside
    · rw [Nat.mod_eq_of_lt (by omega)]
      unfold magnitudesAround
      rw [if_neg (by omega), if_neg (by omega)]
    · have hindex : i + (lag + N).toNat = (i + lag).toNat + N := by omega
      rw [hindex, Nat.add_mod_right, Nat.mod_eq_of_lt (by omega), Int.toNat_of_nonneg hinside]
  · rw [if_neg (by omega), Nat.mod_eq_of_lt (by omega)]
    congr 1
    omega

/-- The transforms are long enough: the correlation does not wrap around. -/
theorem crossCorrelation_magnitudes {num : Numerics ℝ} (hnum : Exact num) {q : ℕ}
    (hlong : 2 * n ≤ (2 ^ (q + 1) : ℕ)) (hlag : lag ∈ Set.Ico (-n) n) :
    crossCorrelation num (2 ^ (q + 1)) (magnitudes x start_sample n) (magnitudes y start_sample n)
        (delayIndex (2 ^ (q + 1)) lag) =
      corr (magnitudesAround x start_sample n) (magnitudesAround y start_sample n) lag /
        (2 ^ (q + 1) : ℕ) := by
  have hbound : n ≤ (2 ^ (q + 1) : ℕ) := by
    obtain ⟨hlow, hhigh⟩ := hlag
    omega
  have hsupport : (Function.support fun i => magnitudesAround x start_sample n i *
      magnitudesAround y start_sample n (i + lag)) ⊆ Set.Ico 0 ((2 ^ (q + 1) : ℕ) : ℤ) :=
    (Function.support_mul_subset_left _ _).trans
      ((support_magnitudesAround x start_sample n).trans (Set.Ico_subset_Ico_right hbound))
  rw [crossCorrelation_eq hnum q _ _ (delayIndex_lt hlong hlag)]
  unfold corr
  rw [CrossCorrelation.finsum_eq_sum_range hsupport, Int.toNat_natCast]
  congr 1
  refine Finset.sum_congr rfl fun i _ => ?_
  rw [magnitudes_eq, magnitudes_eq]
  by_cases hi : (i : ℤ) < n
  · rw [magnitudesAround_mod y start_sample hlong hlag hi]
  · unfold magnitudesAround
    rw [if_neg fun h => hi h.2, zero_mul, zero_mul]

end Magnitudes

/-! ## The search -/

/-- Only the values at the delays matter. -/
theorem searchDelay_congr {h h' : ℤ → ℝ} {delays : List ℤ} (heq : ∀ i ∈ delays, h i = h' i)
    (best : ℝ × ℤ) : searchDelay h delays best = searchDelay h' delays best := by
  unfold searchDelay
  refine List.foldl_ext _ _ _ fun best i hi => ?_
  rw [heq i hi]

/-- The delays that are tried, in one list. -/
theorem delaysToTry_eq (R : ℕ) :
    delaysToTry R = (List.range (R + R)).map fun k : ℕ => (k : ℤ) - R := by
  unfold delaysToTry
  rw [Int.toNat_natCast, List.range_add, List.map_append, List.map_map]
  refine congrArg _ (List.map_congr_left fun k _ => ?_)
  rw [Function.comp_apply]
  push_cast
  ring

/-- The delays are inside of the range. -/
theorem mem_delaysToTry {search_range i : ℤ} (h : i ∈ delaysToTry search_range) :
    i ∈ Set.Ico (-search_range) search_range := by
  unfold delaysToTry at h
  rw [List.mem_append, List.mem_map, List.mem_map] at h
  obtain ⟨k, hk, rfl⟩ | ⟨k, hk, rfl⟩ := h
  · have hk := List.mem_range.mp hk
    exact ⟨by omega, by omega⟩
  · have hk := List.mem_range.mp hk
    exact ⟨by omega, by omega⟩

/-- The search over the delays is one over the first indices. -/
theorem searchDelay_eq (h : ℤ → ℝ) (R : ℕ) :
    searchDelay h (delaysToTry R) (0, 0) =
      ((largest (fun k => h (k - R)) R (R + R)).1,
        (largest (fun k => h (k - R)) R (R + R)).2 - R) := by
  unfold searchDelay largest
  rw [delaysToTry_eq, List.foldl_map]
  -- The search has the delay where that of the largest entry has the index.
  have hstart : ((0 : ℝ), (0 : ℤ)) = (fun m : ℝ × ℤ => (m.1, m.2 - R)) (0, R) :=
    Prod.ext rfl (sub_self _).symm
  rw [hstart]
  exact List.foldl_hom (fun m : ℝ × ℤ => (m.1, m.2 - (R : ℤ))) fun m k => by
    dsimp only
    split <;> rfl

/-- The search keeps the first delay with the highest value, if there is a positive one. -/
theorem searchDelay_spec (h : ℤ → ℝ) {search_range : ℤ} (hrange : 0 < search_range)
    (hnonneg : ∀ i, 0 ≤ h i) :
    IsFirstPeak h (Set.Ico (-search_range) search_range)
        (searchDelay h (delaysToTry search_range) (0, 0)).2 ∧
      (searchDelay h (delaysToTry search_range) (0, 0)).1 =
        h (searchDelay h (delaysToTry search_range) (0, 0)).2 := by
  obtain ⟨R, rfl⟩ := Int.eq_ofNat_of_zero_le hrange.le
  have hentry : ∀ l ∈ Set.Ico (-(R : ℤ)) R, ∃ k < R + R, (k : ℤ) - R = l := by
    intro l hl
    obtain ⟨hlow, hhigh⟩ := hl
    exact ⟨(l + R).toNat, by omega, by omega⟩
  rw [searchDelay_eq]
  rcases largest_spec (fun k => h (k - R)) R (R + R) with
    ⟨heq, hle⟩ | ⟨i, hi, heq, hpos, hle, hlt⟩
  · rw [heq]
    refine ⟨⟨fun ⟨l, hl, hlpos⟩ => ?_, fun _ => sub_self _⟩, ?_⟩
    · obtain ⟨k, hk, rfl⟩ := hentry l hl
      exact absurd (hle k hk) (not_le.mpr hlpos)
    · -- No delay has another value than zero.
      exact le_antisymm (hnonneg _) (hle R (by omega))
  · rw [heq]
    refine ⟨⟨fun _ => ⟨⟨by omega, by omega⟩, fun l hl => ?_, fun l hl hbefore => ?_⟩,
      fun hnone => ?_⟩, rfl⟩
    · obtain ⟨k, hk, rfl⟩ := hentry l hl
      exact hle k hk
    · obtain ⟨k, hk, rfl⟩ := hentry l hl
      exact hlt k (by omega)
    · exact absurd (hnone _ ⟨by omega, by omega⟩) (not_le.mpr hpos)

/-! ## `compute_delay` -/

section ComputeDelay

variable {num : Numerics ℝ} {start_sample stop_sample search_range : ℤ} (x y : ℤ → ℝ)

/-- What is searched is the correlation coefficient. -/
theorem similarity_eq (start_sample : ℤ) (hnum : Exact num) {q : ℕ} {n lag : ℤ}
    (hlong : 2 * n ≤ (2 ^ (q + 1) : ℕ)) (hlag : lag ∈ Set.Ico (-n) n) :
    |(|crossCorrelation num (2 ^ (q + 1)) (magnitudes x start_sample n)
        (magnitudes y start_sample n) (delayIndex (2 ^ (q + 1)) lag)| /
      num.sqrt (energy (magnitudesAround x start_sample n) / (2 ^ (q + 1) : ℕ) *
        (energy (magnitudesAround y start_sample n) / (2 ^ (q + 1) : ℕ))))| =
      coefficient (magnitudesAround x start_sample n) (magnitudesAround y start_sample n) lag := by
  have hN : (0 : ℝ) < (2 ^ (q + 1) : ℕ) := by positivity
  have hnonneg := CrossCorrelation.coefficient_nonneg (magnitudesAround_nonneg x start_sample n)
    (magnitudesAround_nonneg y start_sample n) lag
  have hcorr : 0 ≤ corr (magnitudesAround x start_sample n) (magnitudesAround y start_sample n)
      lag := finsum_nonneg fun i => mul_nonneg (magnitudesAround_nonneg x start_sample n i)
    (magnitudesAround_nonneg y start_sample n _)
  rw [crossCorrelation_magnitudes x y start_sample hnum hlong hlag, hnum.sqrt_eq,
    div_mul_div_comm, Real.sqrt_div' _ (mul_self_nonneg _), Real.sqrt_mul_self hN.le,
    abs_of_nonneg (div_nonneg hcorr hN.le), div_div_div_cancel_right₀ hN.ne']
  exact abs_of_nonneg hnonneg

/-- Both powers are large enough for a search. -/
def Loud (start_sample stop_sample : ℤ) (x y : ℤ → ℝ) : Prop :=
  let n := stop_sample - start_sample
  let N := nextpow2 (2 * n).toNat
  (1E-6 : ℚ) * N < energy (magnitudesAround x start_sample n) ∧
    (1E-6 : ℚ) * N < energy (magnitudesAround y start_sample n)

/-- The delay and the correlation, for signals that are loud enough or not. -/
theorem compute_delay_eq (hnum : Exact num) (hn : start_sample < stop_sample)
    (hfit : search_range ≤ stop_sample - start_sample) :
    let n := stop_sample - start_sample
    let similarity := coefficient (magnitudesAround x start_sample n)
      (magnitudesAround y start_sample n)
    (¬Loud start_sample stop_sample x y →
      compute_delay num start_sample stop_sample search_range x y = (0, 0)) ∧
    (Loud start_sample stop_sample x y →
      compute_delay num start_sample stop_sample search_range x y =
        searchDelay similarity (delaysToTry search_range) (0, 0)) := by
  intro n similarity
  obtain ⟨q, hq, hlong⟩ := exists_nextpow2 (n := (2 * n).toNat) (by omega)
  have hN : (0 : ℝ) < (2 ^ (q + 1) : ℕ) := by positivity
  unfold Loud compute_delay
  dsimp only
  rw [power_eq x start_sample hn, power_eq y start_sample hn, hq]
  have hpower : energy (magnitudesAround x start_sample n) / (2 ^ (q + 1) : ℕ) ≤ (1E-6 : ℚ) ∨
      energy (magnitudesAround y start_sample n) / (2 ^ (q + 1) : ℕ) ≤ (1E-6 : ℚ) ↔
        ¬((1E-6 : ℚ) * (2 ^ (q + 1) : ℕ) < energy (magnitudesAround x start_sample n) ∧
          (1E-6 : ℚ) * (2 ^ (q + 1) : ℕ) < energy (magnitudesAround y start_sample n)) := by
    rw [div_le_iff₀ hN, div_le_iff₀ hN, ← not_lt, ← not_lt, not_and_or]
  refine ⟨fun hquiet => if_pos (hpower.mpr hquiet), fun hloud => ?_⟩
  rw [if_neg fun hquiet => hpower.mp hquiet hloud]
  exact searchDelay_congr (fun i hi => similarity_eq x y start_sample hnum (by omega)
    (Set.Ico_subset_Ico (neg_le_neg hfit) hfit (mem_delaysToTry hi))) _

variable (hnum : Exact num) (hn : start_sample < stop_sample) (hrange : 0 < search_range)
  (hfit : search_range ≤ stop_sample - start_sample)

include hnum hn hrange hfit

/-- The delay of signals that are loud enough is the first one with the highest coefficient. -/
theorem compute_delay_loud (hloud : Loud start_sample stop_sample x y) :
    let similarity := coefficient (magnitudesAround x start_sample (stop_sample - start_sample))
      (magnitudesAround y start_sample (stop_sample - start_sample))
    let found := compute_delay num start_sample stop_sample search_range x y
    found.1 = similarity found.2 ∧
      IsFirstPeak similarity (Set.Ico (-search_range) search_range) found.2 := by
  intro similarity found
  obtain ⟨hpeak, hvalue⟩ := searchDelay_spec similarity hrange
    (CrossCorrelation.coefficient_nonneg (magnitudesAround_nonneg x start_sample _)
      (magnitudesAround_nonneg y start_sample _))
  rw [show found = _ from (compute_delay_eq x y hnum hn hfit).2 hloud]
  exact ⟨hvalue, hpeak⟩

/-- A copy is found. -/
theorem compute_delay_copy (hloud : Loud start_sample stop_sample x y) {gain : ℝ} (hgain : 0 < gain)
    {delay : ℤ} (hdelay : delay ∈ Set.Ico (-search_range) search_range)
    (hcopy : ∀ i, magnitudesAround y start_sample (stop_sample - start_sample) i =
      gain * magnitudesAround x start_sample (stop_sample - start_sample) (i - delay)) :
    compute_delay num start_sample stop_sample search_range x y = (1, delay) := by
  have hfinite := finite_magnitudesAround x start_sample (stop_sample - start_sample)
  have hne : magnitudesAround x start_sample (stop_sample - start_sample) ≠ 0 := by
    intro hzero
    have hpos := hloud.1
    rw [hzero, show energy (0 : ℤ → ℝ) = 0 from finsum_eq_zero_of_forall_eq_zero fun _ => by simp]
      at hpos
    exact absurd hpos (not_lt.mpr (by positivity))
  have hone := CrossCorrelation.coefficient_copy hfinite hne hgain delay
  obtain ⟨hvalue, hpeak⟩ := compute_delay_loud x y hnum hn hrange hfit hloud
  rw [funext hcopy] at hvalue hpeak
  obtain ⟨-, hle, -⟩ := hpeak.peak ⟨delay, hdelay, by rw [hone]; exact one_pos⟩
  have heq : (compute_delay num start_sample stop_sample search_range x y).2 = delay := by
    by_contra hother
    have hless := CrossCorrelation.coefficient_copy_lt hfinite hne hgain hother
    rw [← hone] at hless
    exact absurd (hle delay hdelay) (not_le.mpr hless)
  exact Prod.ext (by rw [hvalue, heq, hone]) heq

/-- In exact arithmetic, for a range that is not longer than the samples: the correlation is between
zero and one. If both signals are loud enough it is the highest correlation coefficient of the
magnitudes for the delays in the range, and the delay is the first one that has it; and otherwise
both are zero. -/
theorem compute_delay_spec :
    (compute_delay num start_sample stop_sample search_range x y).1 ∈ Set.Icc 0 1 ∧
    (¬Loud start_sample stop_sample x y →
      compute_delay num start_sample stop_sample search_range x y = (0, 0)) ∧
    (Loud start_sample stop_sample x y →
      let n := stop_sample - start_sample
      let similarity := coefficient (magnitudesAround x start_sample n)
        (magnitudesAround y start_sample n)
      let found := compute_delay num start_sample stop_sample search_range x y
      found.1 = similarity found.2 ∧
        IsFirstPeak similarity (Set.Ico (-search_range) search_range) found.2) := by
  have hquiet := (compute_delay_eq x y hnum hn hfit).1
  have hloud := compute_delay_loud x y hnum hn hrange hfit
  refine ⟨?_, hquiet, hloud⟩
  by_cases h : Loud start_sample stop_sample x y
  · rw [(hloud h).1]
    exact ⟨CrossCorrelation.coefficient_nonneg (magnitudesAround_nonneg x start_sample _)
        (magnitudesAround_nonneg y start_sample _) _,
      CrossCorrelation.coefficient_le_one (finite_magnitudesAround x start_sample _)
        (finite_magnitudesAround y start_sample _) _⟩
  · rw [hquiet h]
    exact ⟨le_rfl, zero_le_one⟩

omit hnum hn hrange hfit

/-- The correlation of two clicks. -/
theorem compute_delay_spec_clicks :
    (compute_delay realNumerics 0 8 4 (clickAt 2) (clickAt 4)).1 ∈ Set.Icc 0 1 :=
  (compute_delay_spec (clickAt 2) (clickAt 4) exact_realNumerics (by norm_num) (by norm_num)
    (by norm_num)).1

end ComputeDelay

end TgVoipRate.Pesq.Acoustic
