import Mathlib

/-!
# Correlation of sequences with finite support

The correlation of two sequences at a lag, the sum of products of the one with the other one behind
the lag. Its square is at most the product of the energies (`sq_corr_le`). A sequence that is not
zero is not a shift of itself, since its support is finite, so its correlation with itself has a
strict maximum at no lag (`corr_self_lt`), and its correlation with a louder and later copy has one
at the delay of the copy (`corr_copy_lt`).
-/

namespace CrossCorrelation

variable {G R : Type*} [AddCommGroup G] [Field R]

/-- The correlation at a lag. -/
noncomputable def corr (x y : G → R) (lag : G) : R := ∑ᶠ i, x i * y (i + lag)

/-- The energy of a sequence. -/
noncomputable def energy (x : G → R) : R := ∑ᶠ i, x i ^ 2

/-- A sum over the integers in a range from zero on. -/
theorem finsum_eq_sum_range {M : Type*} [AddCommMonoid M] {f : ℤ → M} {n : ℤ}
    (hf : Function.support f ⊆ Set.Ico 0 n) :
    ∑ᶠ i, f i = ∑ i ∈ Finset.range n.toNat, f i := by
  have hsupport : Function.support f ⊆
      ((Finset.range n.toNat).map Nat.castEmbedding : Finset ℤ) := by
    intro i hi
    obtain ⟨hlow, hhigh⟩ := hf hi
    rw [Finset.mem_coe, Finset.mem_map]
    exact ⟨i.toNat, Finset.mem_range.mpr (by omega), Int.toNat_of_nonneg hlow⟩
  rw [finsum_eq_sum_of_support_subset _ hsupport, Finset.sum_map]
  rfl

/-- The correlation of a sequence with itself at no lag is its energy. -/
theorem corr_self_zero (x : G → R) : corr x x 0 = energy x :=
  finsum_congr fun i => by rw [add_zero, pow_two]

/-- A shift does not change the energy. -/
theorem energy_shift (x : G → R) (d : G) : energy (fun i => x (i + d)) = energy x :=
  finsum_comp_equiv (f := fun i => x i ^ 2) (Equiv.addRight d)

/-- The correlation with a later copy of a sequence. -/
theorem corr_copy (x y : G → R) (gain : R) (delay lag : G) :
    corr x (fun i => gain * y (i - delay)) lag = gain * corr x y (lag - delay) := by
  unfold corr
  rw [mul_finsum]
  refine finsum_congr fun i => ?_
  dsimp only
  rw [add_sub_assoc]
  ring

/-- The correlation is a sum over a set that has the support of a factor. -/
theorem corr_eq_sum {x : G → R} {s : Finset G} (hs : Function.support x ⊆ s) (y : G → R) (lag : G) :
    corr x y lag = ∑ i ∈ s, x i * y (i + lag) :=
  finsum_eq_sum_of_support_subset _
    ((Function.support_mul_subset_left x fun i => y (i + lag)).trans hs)

omit [AddCommGroup G] in
/-- The energy is a sum over a set that has the support. -/
theorem energy_eq_sum {x : G → R} {s : Finset G} (hs : Function.support x ⊆ s) :
    energy x = ∑ i ∈ s, x i ^ 2 :=
  finsum_eq_sum_of_support_subset _ fun i hi => hs (mt (fun hzero => by simp [hzero]) hi)

/-- A sequence that is not zero does not have a period. -/
theorem not_periodic [IsAddTorsionFree G] {x : G → R} (hx : (Function.support x).Finite)
    (hne : x ≠ 0) {lag : G} (hlag : lag ≠ 0) :
    ¬∀ i, x (i + lag) = x i := by
  intro hperiod
  obtain ⟨i, hi⟩ := Function.ne_iff.mp hne
  -- The value would be taken infinitely often.
  have hvalues : ∀ k : ℕ, x (i + k • lag) = x i := by
    intro k
    induction k with
    | zero => rw [zero_nsmul, add_zero]
    | succ k ih => rw [succ_nsmul, ← add_assoc, hperiod, ih]
  have hinjective : Function.Injective fun k : ℕ => i + k • lag := fun k l hkl =>
    injective_nsmul_iff_not_isOfFinAddOrder.mpr (not_isOfFinAddOrder_of_isAddTorsionFree hlag)
      (add_left_cancel hkl)
  refine Set.infinite_of_injective_forall_mem hinjective (fun k => ?_) hx
  rw [Function.mem_support, hvalues k]
  exact hi

section Finite

variable [LinearOrder R] [IsStrictOrderedRing R] {x y : G → R}
  (hx : (Function.support x).Finite)

include hx

/-- The square of a correlation is at most the product of the energies. -/
theorem sq_corr_le (hy : (Function.support y).Finite) (lag : G) :
    corr x y lag ^ 2 ≤ energy x * energy y := by
  classical
  have hshift : (Function.support fun i => y (i + lag)).Finite :=
    hy.preimage (add_left_injective lag).injOn
  have hxs : Function.support x ⊆ (hx.toFinset ∪ hshift.toFinset : Finset G) := by
    simp [Set.subset_union_left]
  have hys : (Function.support fun i => y (i + lag)) ⊆
      (hx.toFinset ∪ hshift.toFinset : Finset G) := by
    simp [Set.subset_union_right]
  rw [corr_eq_sum hxs, energy_eq_sum hxs, ← energy_shift y lag, energy_eq_sum hys]
  exact Finset.sum_mul_sq_le_sq_mul_sq _ _ _

/-- The correlation of a sequence with itself is less at any lag. -/
theorem corr_self_lt [IsAddTorsionFree G] (hne : x ≠ 0) {lag : G} (hlag : lag ≠ 0) :
    corr x x lag < energy x := by
  classical
  have hshift : (Function.support fun i => x (i + lag)).Finite :=
    hx.preimage (add_left_injective lag).injOn
  set s := hx.toFinset ∪ hshift.toFinset with hs
  have hxs : Function.support x ⊆ (s : Set G) := by simp [hs, Set.subset_union_left]
  have hys : (Function.support fun i => x (i + lag)) ⊆ (s : Set G) := by
    simp [hs, Set.subset_union_right]
  -- The energy of the difference of both is positive.
  have hpos : 0 < ∑ i ∈ s, (x i - x (i + lag)) ^ 2 := by
    refine lt_of_le_of_ne (Finset.sum_nonneg fun i _ => sq_nonneg _) fun hzero => ?_
    refine not_periodic hx hne hlag fun i => ?_
    by_cases hi : i ∈ s
    · have hterm := (Finset.sum_eq_zero_iff_of_nonneg fun i _ => sq_nonneg _).mp hzero.symm i hi
      exact (sub_eq_zero.mp (pow_eq_zero_iff two_ne_zero |>.mp hterm)).symm
    · have hout : x i = 0 := by_contra fun h => hi (hxs h)
      have hout' : x (i + lag) = 0 := by_contra fun h => hi (hys h)
      rw [hout, hout']
  have hexpand : ∑ i ∈ s, (x i - x (i + lag)) ^ 2 =
      energy x + energy x - 2 * corr x x lag := by
    rw [corr_eq_sum hxs]
    nth_rewrite 2 [← energy_shift x lag]
    rw [energy_eq_sum hxs, energy_eq_sum hys, Finset.mul_sum, ← Finset.sum_add_distrib,
      ← Finset.sum_sub_distrib]
    exact Finset.sum_congr rfl fun i _ => by ring
  linarith

omit [AddCommGroup G] in
/-- A sequence that is not zero has energy. -/
theorem energy_pos (hne : x ≠ 0) : 0 < energy x := by
  obtain ⟨i, hi⟩ := Function.ne_iff.mp hne
  have hxs : Function.support x ⊆ (hx.toFinset : Set G) := by simp
  rw [energy_eq_sum hxs]
  exact Finset.sum_pos' (fun i _ => sq_nonneg _) ⟨i, hx.mem_toFinset.mpr hi, sq_pos_of_ne_zero hi⟩

/-- The correlation with an amplified and later copy is highest at the delay of the copy, and
nowhere else. -/
theorem corr_copy_lt [IsAddTorsionFree G] (hne : x ≠ 0) {gain : R} (hgain : 0 < gain)
    {delay lag : G} (hlag : lag ≠ delay) :
    corr x (fun i => gain * x (i - delay)) lag < corr x (fun i => gain * x (i - delay)) delay := by
  rw [corr_copy, corr_copy, sub_self, corr_self_zero]
  exact mul_lt_mul_of_pos_left (corr_self_lt hx hne (sub_ne_zero.mpr hlag)) hgain

end Finite

/-! ## The correlation coefficient -/

section Coefficient

variable {G : Type*} [AddCommGroup G]

/-- The correlation over the geometric mean of the energies. -/
noncomputable def coefficient (x y : G → ℝ) (lag : G) : ℝ :=
  corr x y lag / √(energy x * energy y)

variable {x y : G → ℝ}

/-- The coefficient of sequences without negative entries is not negative. -/
theorem coefficient_nonneg (hx : ∀ i, 0 ≤ x i) (hy : ∀ i, 0 ≤ y i) (lag : G) :
    0 ≤ coefficient x y lag :=
  div_nonneg (finsum_nonneg fun i => mul_nonneg (hx i) (hy _)) (Real.sqrt_nonneg _)

/-- The coefficient is at most one. -/
theorem coefficient_le_one (hx : (Function.support x).Finite) (hy : (Function.support y).Finite)
    (lag : G) : coefficient x y lag ≤ 1 :=
  div_le_one_of_le₀ (Real.le_sqrt_of_sq_le (sq_corr_le hx hy lag)) (Real.sqrt_nonneg _)

/-- The energy of an amplified and later copy. -/
theorem energy_copy (x : G → ℝ) (gain : ℝ) (delay : G) :
    energy (fun i => gain * x (i - delay)) = gain ^ 2 * energy x := by
  unfold energy
  rw [mul_finsum, ← finsum_comp_equiv (f := fun i => gain ^ 2 * x i ^ 2) (Equiv.subRight delay)]
  exact finsum_congr fun i => mul_pow _ _ _

/-- The coefficient of an amplified and later copy is one at its delay. -/
theorem coefficient_copy (hx : (Function.support x).Finite) (hne : x ≠ 0) {gain : ℝ}
    (hgain : 0 < gain) (delay : G) : coefficient x (fun i => gain * x (i - delay)) delay = 1 := by
  have hpos := energy_pos hx hne
  unfold coefficient
  rw [corr_copy, sub_self, corr_self_zero, energy_copy,
    show energy x * (gain ^ 2 * energy x) = (gain * energy x) ^ 2 by ring,
    Real.sqrt_sq (by positivity)]
  exact div_self (by positivity)

/-- The coefficient of an amplified and later copy is less at any other lag. -/
theorem coefficient_copy_lt [IsAddTorsionFree G] (hx : (Function.support x).Finite) (hne : x ≠ 0)
    {gain : ℝ} (hgain : 0 < gain) {delay lag : G} (hlag : lag ≠ delay) :
    coefficient x (fun i => gain * x (i - delay)) lag < 1 := by
  have hpos := energy_pos hx hne
  rw [← coefficient_copy hx hne hgain delay]
  refine div_lt_div_of_pos_right (corr_copy_lt hx hne hgain hlag) (Real.sqrt_pos.mpr ?_)
  rw [energy_copy]
  positivity

end Coefficient

end CrossCorrelation
