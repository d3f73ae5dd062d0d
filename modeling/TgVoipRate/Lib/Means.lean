import Mathlib.Algebra.Order.BigOperators.Ring.Finset
import Mathlib.Analysis.SpecialFunctions.Pow.Real
import Mathlib.Tactic.Linarith
import Mathlib.Tactic.Positivity

/-!
# Means

Two kinds of means that measurements are condensed with. A power mean (`powerMean`) is the root of a
sum of powers over a divisor. It keeps bounds, also with weights in front of the values
(`powerMean_mul_le`), it is monotone, and it vanishes only if all values do. Smoothing (`smooth`)
moves an average by a fixed share towards each new value, and stays in every interval that contains
the first average and the values.
-/

namespace Means

/-! ## Power means -/

section PowerMean

variable {ι : Type*} {s : Finset ι} {p n M : ℝ} {x y w : ι → ℝ}

/-- The mean of some values with an exponent, over a divisor. -/
noncomputable def powerMean (p n : ℝ) (s : Finset ι) (x : ι → ℝ) : ℝ :=
  ((∑ i ∈ s, x i ^ p) / n) ^ (1 / p)

/-- The sum of the powers is not negative. -/
theorem sum_rpow_nonneg (p : ℝ) (hx : ∀ i ∈ s, 0 ≤ x i) : 0 ≤ ∑ i ∈ s, x i ^ p :=
  Finset.sum_nonneg fun i hi => Real.rpow_nonneg (hx i hi) p

/-- A power mean is not negative. -/
theorem powerMean_nonneg (p : ℝ) (hn : 0 ≤ n) (hx : ∀ i ∈ s, 0 ≤ x i) : 0 ≤ powerMean p n s x :=
  Real.rpow_nonneg (div_nonneg (sum_rpow_nonneg p hx) hn) _

/-- Equal values have the same mean. -/
theorem powerMean_congr (p n : ℝ) (h : ∀ i ∈ s, x i = y i) :
    powerMean p n s x = powerMean p n s y := by
  have hsum : ∑ i ∈ s, x i ^ p = ∑ i ∈ s, y i ^ p :=
    Finset.sum_congr rfl fun i hi => by rw [h i hi]
  rw [powerMean, hsum, powerMean]

/-- Larger values have a larger mean. -/
theorem powerMean_mono (hp : 0 < p) (hn : 0 ≤ n) (hx : ∀ i ∈ s, 0 ≤ x i)
    (h : ∀ i ∈ s, x i ≤ y i) : powerMean p n s x ≤ powerMean p n s y := by
  have hsum : ∑ i ∈ s, x i ^ p ≤ ∑ i ∈ s, y i ^ p :=
    Finset.sum_le_sum fun i hi => Real.rpow_le_rpow (hx i hi) (h i hi) hp.le
  exact Real.rpow_le_rpow (div_nonneg (sum_rpow_nonneg p hx) hn)
    (div_le_div_of_nonneg_right hsum hn) (one_div_pos.mpr hp).le

/-- The root of a power. -/
theorem rpow_rpow_one_div (hp : 0 < p) (hM : 0 ≤ M) : (M ^ p) ^ (1 / p) = M := by
  rw [← Real.rpow_mul hM, mul_one_div_cancel hp.ne', Real.rpow_one]

/-- Values up to a bound, with weights whose powers add up to the divisor at most, have a mean up to
the bound. -/
theorem powerMean_mul_le (hp : 0 < p) (hn : 0 < n) (hw : ∀ i ∈ s, 0 ≤ w i)
    (hsum : ∑ i ∈ s, w i ^ p ≤ n) (hM : 0 ≤ M) (hx : ∀ i ∈ s, 0 ≤ x i) (hxM : ∀ i ∈ s, x i ≤ M) :
    powerMean p n s (fun i => w i * x i) ≤ M := by
  have hpowers : ∑ i ∈ s, (w i * x i) ^ p ≤ n * M ^ p := by
    calc ∑ i ∈ s, (w i * x i) ^ p ≤ ∑ i ∈ s, w i ^ p * M ^ p := by
          refine Finset.sum_le_sum fun i hi => ?_
          rw [Real.mul_rpow (hw i hi) (hx i hi)]
          exact mul_le_mul_of_nonneg_left (Real.rpow_le_rpow (hx i hi) (hxM i hi) hp.le)
            (Real.rpow_nonneg (hw i hi) p)
      _ = (∑ i ∈ s, w i ^ p) * M ^ p := (Finset.sum_mul _ _ _).symm
      _ ≤ n * M ^ p := mul_le_mul_of_nonneg_right hsum (Real.rpow_nonneg hM p)
  have hmean : (∑ i ∈ s, (w i * x i) ^ p) / n ≤ M ^ p := by
    rwa [div_le_iff₀ hn, mul_comm]
  have hnonneg : 0 ≤ (∑ i ∈ s, (w i * x i) ^ p) / n :=
    div_nonneg (sum_rpow_nonneg p fun i hi => mul_nonneg (hw i hi) (hx i hi)) hn.le
  calc powerMean p n s (fun i => w i * x i) ≤ (M ^ p) ^ (1 / p) :=
        Real.rpow_le_rpow hnonneg hmean (one_div_pos.mpr hp).le
    _ = M := rpow_rpow_one_div hp hM

/-- Values up to a bound, no more of them than the divisor, have a mean up to the bound. -/
theorem powerMean_le (hp : 0 < p) (hn : 0 < n) (hcard : (s.card : ℝ) ≤ n) (hM : 0 ≤ M)
    (hx : ∀ i ∈ s, 0 ≤ x i) (hxM : ∀ i ∈ s, x i ≤ M) : powerMean p n s x ≤ M := by
  have hones : ∑ i ∈ s, (1 : ℝ) ^ p ≤ n := by
    simpa only [Real.one_rpow, Finset.sum_const, nsmul_eq_mul, mul_one] using hcard
  calc powerMean p n s x = powerMean p n s (fun i => 1 * x i) :=
        powerMean_congr p n fun i _ => (one_mul (x i)).symm
    _ ≤ M := powerMean_mul_le hp hn (fun _ _ => zero_le_one) hones hM hx hxM

/-- No value is above the mean times the divisor, where both the exponent and the divisor are at
least one. -/
theorem le_powerMean_mul (hp : 1 ≤ p) (hn : 1 ≤ n) (hx : ∀ i ∈ s, 0 ≤ x i) {i : ι} (hi : i ∈ s) :
    x i ≤ powerMean p n s x * n := by
  have hp0 : 0 < p := zero_lt_one.trans_le hp
  have hn0 : 0 < n := zero_lt_one.trans_le hn
  have hsum : 0 ≤ ∑ i ∈ s, x i ^ p := sum_rpow_nonneg p hx
  have hroot : n ^ (1 / p) ≤ n := by
    calc n ^ (1 / p) ≤ n ^ (1 : ℝ) :=
          Real.rpow_le_rpow_of_exponent_le hn ((div_le_one hp0).mpr hp)
      _ = n := Real.rpow_one n
  have hpower : x i ^ p ≤ ∑ i ∈ s, x i ^ p :=
    Finset.single_le_sum (f := fun i => x i ^ p) (fun i hi => Real.rpow_nonneg (hx i hi) p) hi
  calc x i = (x i ^ p) ^ (1 / p) := (rpow_rpow_one_div hp0 (hx i hi)).symm
    _ ≤ (∑ i ∈ s, x i ^ p) ^ (1 / p) :=
        Real.rpow_le_rpow (Real.rpow_nonneg (hx i hi) p) hpower (one_div_nonneg.mpr hp0.le)
    _ = powerMean p n s x * n ^ (1 / p) := by
        rw [powerMean, ← Real.mul_rpow (div_nonneg hsum hn0.le) hn0.le, div_mul_cancel₀ _ hn0.ne']
    _ ≤ powerMean p n s x * n :=
        mul_le_mul_of_nonneg_left hroot (powerMean_nonneg p hn0.le hx)

/-- A mean vanishes exactly if all values do. -/
theorem powerMean_eq_zero_iff (hp : 0 < p) (hn : 0 < n) (hx : ∀ i ∈ s, 0 ≤ x i) :
    powerMean p n s x = 0 ↔ ∀ i ∈ s, x i = 0 := by
  have hroot : 1 / p ≠ 0 := (one_div_pos.mpr hp).ne'
  have hpower : ∀ i ∈ s, x i ^ p = 0 ↔ x i = 0 := fun i hi =>
    Real.rpow_eq_zero (hx i hi) hp.ne'
  rw [powerMean, Real.rpow_eq_zero (div_nonneg (sum_rpow_nonneg p hx) hn.le) hroot,
    div_eq_zero_iff, or_iff_left hn.ne',
    Finset.sum_eq_zero_iff_of_nonneg fun i hi => Real.rpow_nonneg (hx i hi) p]
  exact forall₂_congr hpower

end PowerMean

/-! ## Smoothing -/

section Smooth

variable {𝕜 : Type*} [Field 𝕜] [LinearOrder 𝕜] [IsStrictOrderedRing 𝕜] {share lo hi : 𝕜}

/-- One step of smoothing: the share of the average that is kept, and the rest of the new value. -/
def smooth (share average value : 𝕜) : 𝕜 := share * average + (1 - share) * value

/-- A step does not leave an interval that contains the average and the value. -/
theorem smooth_mem_Icc (h0 : 0 ≤ share) (h1 : share ≤ 1) {average value : 𝕜}
    (haverage : average ∈ Set.Icc lo hi) (hvalue : value ∈ Set.Icc lo hi) :
    smooth share average value ∈ Set.Icc lo hi := by
  have hrest : 0 ≤ 1 - share := sub_nonneg.mpr h1
  refine ⟨?_, ?_⟩
  · calc lo = share * lo + (1 - share) * lo := by ring
      _ ≤ smooth share average value :=
        add_le_add (mul_le_mul_of_nonneg_left haverage.1 h0)
          (mul_le_mul_of_nonneg_left hvalue.1 hrest)
  · calc smooth share average value ≤ share * hi + (1 - share) * hi :=
        add_le_add (mul_le_mul_of_nonneg_left haverage.2 h0)
          (mul_le_mul_of_nonneg_left hvalue.2 hrest)
      _ = hi := by ring

/-- The averages of a sequence of values, the first of which is its own average. -/
def smoothed (share : 𝕜) (value : ℕ → 𝕜) : ℕ → 𝕜
  | 0 => value 0
  | n + 1 => smooth share (smoothed share value n) (value (n + 1))

/-- An average is in every interval that contains the values up to it. -/
theorem smoothed_mem_Icc (h0 : 0 ≤ share) (h1 : share ≤ 1) {value : ℕ → 𝕜} {n : ℕ}
    (hvalue : ∀ k ≤ n, value k ∈ Set.Icc lo hi) : smoothed share value n ∈ Set.Icc lo hi := by
  induction n with
  | zero => exact hvalue 0 le_rfl
  | succ n ih =>
    exact smooth_mem_Icc h0 h1 (ih fun k hk => hvalue k (by omega)) (hvalue (n + 1) le_rfl)

omit [LinearOrder 𝕜] [IsStrictOrderedRing 𝕜] in
/-- In an average, the weight of a value falls by the share with every later one. -/
theorem smoothed_eq (share : 𝕜) (value : ℕ → 𝕜) (n : ℕ) :
    smoothed share value n = share ^ n * value 0 +
      ∑ k ∈ Finset.range n, (1 - share) * share ^ (n - 1 - k) * value (k + 1) := by
  induction n with
  | zero => simp [smoothed]
  | succ n ih =>
    have hstep : ∀ k ∈ Finset.range n, (1 - share) * share ^ (n + 1 - 1 - k) * value (k + 1) =
        share * ((1 - share) * share ^ (n - 1 - k) * value (k + 1)) := by
      intro k hk
      have hlt := Finset.mem_range.mp hk
      have hexponent : n + 1 - 1 - k = n - 1 - k + 1 := by omega
      rw [hexponent, pow_succ]
      ring
    have hlast : n + 1 - 1 - n = 0 := by omega
    rw [Finset.sum_range_succ, Finset.sum_congr rfl hstep, ← Finset.mul_sum, hlast]
    unfold smoothed smooth
    rw [ih]
    ring

end Smooth

end Means
