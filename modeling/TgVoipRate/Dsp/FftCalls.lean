import TgVoipRate.Dsp.FftSpec

/-!
# Calls of the transforms

`FFT` and `IFFT` at the angles of the circle, after any calls before. The tables that calls leave
behind are valid (`Called.valid`), so `FFT` computes the discrete Fourier transform and `IFFT` its
inverse, and neither of them depends on the calls before (`transforms_after_calls`).
-/

namespace TgVoipRate.Dsp

open Fourier (dft dft_inv_dft)

/-! ## The angles of the circle -/

/-- The angles, with the cosine and the sine. -/
noncomputable def circleAngles : Angles ℝ where
  cos C N := Real.cos (2 * Real.pi * C / N)
  sin C N := Real.sin (2 * Real.pi * C / N)

/-- The root of unity of `FFT`. -/
noncomputable def root (N : ℕ) : ℂ := Complex.exp (-(2 * Real.pi * Complex.I / N))

/-- The root is a primitive one. -/
theorem isPrimitiveRoot_root {N : ℕ} (hN : N ≠ 0) : IsPrimitiveRoot (root N) N := by
  unfold root
  rw [Complex.exp_neg]
  exact (Complex.isPrimitiveRoot_exp N hN).inv

/-- A power of the root. -/
theorem root_pow (N C : ℕ) : root N ^ C = Complex.exp (-(2 * Real.pi * Complex.I * C / N)) := by
  unfold root
  rw [← Complex.exp_nat_mul]
  congr 1
  ring

/-- A power of the root has the cosine and the sine of an angle. -/
theorem root_pow_eq (N C : ℕ) :
    root N ^ C = ⟨circleAngles.cos C N, -circleAngles.sin C N⟩ := by
  have hangle : -(2 * Real.pi * Complex.I * C / N) =
      ((-(2 * Real.pi * C / N) : ℝ) : ℂ) * Complex.I := by
    push_cast
    ring
  rw [root_pow, hangle, Complex.exp_mul_I, ← Complex.ofReal_cos, ← Complex.ofReal_sin,
    Real.cos_neg, Real.sin_neg]
  unfold circleAngles
  dsimp only
  generalize 2 * Real.pi * C / N = angle
  apply Complex.ext <;> simp [Complex.cos_ofReal_re, Complex.sin_ofReal_re]

/-- A power of the inverse root has the opposite sine. -/
theorem root_inv_pow_eq (N C : ℕ) :
    (root N)⁻¹ ^ C = ⟨circleAngles.cos C N, circleAngles.sin C N⟩ := by
  have hunit : circleAngles.cos C N * circleAngles.cos C N +
      circleAngles.sin C N * circleAngles.sin C N = 1 := by
    have hsq := Real.cos_sq_add_sin_sq (2 * Real.pi * C / N)
    unfold circleAngles
    nlinarith [hsq]
  rw [inv_pow, root_pow_eq]
  apply Complex.ext
  · simp [Complex.inv_re, Complex.normSq_mk, hunit]
  · simp [Complex.inv_im, Complex.normSq_mk, hunit]

/-- The butterfly of `FFT`. -/
theorem FFT_butterfly_turns (N : ℕ) : Turns FFT_butterfly circleAngles N (root N) := by
  intro C z₁ z₂
  rw [root_pow_eq]
  refine ⟨?_, ?_⟩ <;> apply Complex.ext <;> simp [FFT_butterfly] <;> ring

/-- The butterfly of `IFFT`. -/
theorem IFFT_butterfly_turns (N : ℕ) : Turns IFFT_butterfly circleAngles N (root N)⁻¹ := by
  intro C z₁ z₂
  rw [root_inv_pow_eq]
  refine ⟨?_, ?_⟩ <;> apply Complex.ext <;> simp [IFFT_butterfly] <;> ring

/-- Half a turn. -/
theorem root_pow_half (q : ℕ) : root (2 ^ (q + 1)) ^ 2 ^ q = -1 := by
  have hroot := isPrimitiveRoot_root (N := 2 ^ (q + 1)) (by positivity)
  exact (hroot.pow (by positivity) (pow_succ 2 q)).eq_neg_one_of_two_right

/-! ## Calls -/

/-- The states of the globals after some calls: at the start there are no tables. The sizes are
powers of two. -/
inductive Called : FFTState ℝ → Prop
  /-- Before the first call. -/
  | start (s : FFTState ℝ) : s.FFTSwapInitialised = 0 → Called s
  /-- After a transform. -/
  | FFT {s : FFTState ℝ} (memory : FFTTables ℝ) (x : ℕ → ℝ) (p : ℕ) : Called s →
      Called (FFT circleAngles memory s x (2 ^ p)).1
  /-- After an inverse transform. -/
  | IFFT {s : FFTState ℝ} (memory : FFTTables ℝ) (x : ℕ → ℝ) (p : ℕ) : Called s →
      Called (IFFT circleAngles memory s x (2 ^ p)).1
  /-- After the tables are freed. -/
  | FFTFree {s : FFTState ℝ} : Called s → Called (FFTFree s)

/-- An inverse transform leaves the state that its network leaves. -/
theorem IFFT_state (memory : FFTTables ℝ) (s : FFTState ℝ) (x : ℕ → ℝ) (N : ℕ) :
    (IFFT circleAngles memory s x N).1 =
      (transform IFFT_butterfly circleAngles memory s x N).1 := by
  unfold IFFT
  dsimp only
  split <;> rfl

/-- After any calls, the tables are valid. -/
theorem Called.valid {s : FFTState ℝ} (h : Called s) : Valid circleAngles s := by
  induction h with
  | start s hnone => exact Or.inl hnone
  | FFT memory x p _ ih => exact ih.transform FFT_butterfly memory x p
  | IFFT memory x p _ ih =>
    rw [IFFT_state]
    exact ih.transform IFFT_butterfly memory x p
  | FFTFree _ ih => exact ih.free

section Calls

variable {s : FFTState ℝ} (h : Called s) (memory : FFTTables ℝ) (x : ℕ → ℝ) (q : ℕ)

include h

/-- `FFT` for the array as complex numbers. -/
theorem toComplex_FFT (k : ℕ) :
    toComplex (FFT circleAngles memory s x (2 ^ (q + 1))).2 k =
      if k < 2 ^ (q + 1) then dft (root (2 ^ (q + 1))) (2 ^ (q + 1)) (toComplex x) k
      else toComplex x k :=
  toComplex_transform (FFT_butterfly_turns _) (root_pow_half q) h.valid memory x k

/-- `IFFT` for the array as complex numbers. -/
theorem toComplex_IFFT (k : ℕ) :
    toComplex (IFFT circleAngles memory s x (2 ^ (q + 1))).2 k =
      if k < 2 ^ (q + 1) then
        dft (root (2 ^ (q + 1)))⁻¹ (2 ^ (q + 1)) (toComplex x) k / (2 ^ (q + 1) : ℕ)
      else toComplex x k := by
  have hhalf : (root (2 ^ (q + 1)))⁻¹ ^ 2 ^ q = -1 := by
    rw [inv_pow, root_pow_half, inv_neg, inv_one]
  have htransform := toComplex_transform (IFFT_butterfly_turns _) hhalf h.valid memory x k
  unfold IFFT
  dsimp only
  rw [if_pos (Nat.one_lt_two_pow (by omega))]
  generalize (transform IFFT_butterfly circleAngles memory s x (2 ^ (q + 1))).2 = y
    at htransform ⊢
  split at htransform
  · rename_i hk
    rw [if_pos hk, ← htransform]
    unfold toComplex
    dsimp only
    rw [if_pos (by omega), if_pos (by omega)]
    apply Complex.ext
    · rw [Complex.div_natCast_re]
    · rw [Complex.div_natCast_im]
  · rename_i hk
    rw [if_neg hk, ← htransform]
    unfold toComplex
    dsimp only
    rw [if_neg (by omega), if_neg (by omega)]

end Calls

/-- A transform only depends on the entries that it is for. -/
theorem dft_congr {w : ℂ} {N : ℕ} {z z' : ℕ → ℂ} (h : ∀ n < N, z n = z' n) (k : ℕ) :
    dft w N z k = dft w N z' k :=
  Finset.sum_congr rfl fun n hn => by rw [h n (Finset.mem_range.mp hn)]

/-- An array is known from its complex numbers. -/
theorem eq_of_toComplex {x y : ℕ → ℝ} {j : ℕ} (h : toComplex x (j / 2) = toComplex y (j / 2)) :
    x j = y j := by
  obtain ⟨hre, him⟩ := Complex.mk.inj h
  rcases Nat.mod_two_eq_zero_or_one j with hbit | hbit
  · rwa [show 2 * (j / 2) = j by omega] at hre
  · rwa [show 2 * (j / 2) + 1 = j by omega] at him

/-- After any calls of `FFT`, `IFFT` and `FFTFree` for powers of two, `FFT` leaves the discrete
Fourier transform in its array and `IFFT` the inverse one; `IFFT` takes back what `FFT` does, with
any calls between them; and neither result depends on the calls before. -/
theorem transforms_after_calls {s : FFTState ℝ} (h : Called s) (memory : FFTTables ℝ) (x : ℕ → ℝ)
    {N p : ℕ} (hN : N = 2 ^ p) (hN₂ : 2 ≤ N) :
    (∀ k < N, toComplex (FFT circleAngles memory s x N).2 k =
      ∑ n ∈ Finset.range N, toComplex x n * Complex.exp (-2 * Real.pi * Complex.I * k * n / N)) ∧
    (∀ k < N, toComplex (IFFT circleAngles memory s x N).2 k =
      (∑ n ∈ Finset.range N,
        toComplex x n * Complex.exp (2 * Real.pi * Complex.I * k * n / N)) / N) ∧
    ∀ s', Called s' → ∀ memory',
      (∀ j < 2 * N, (IFFT circleAngles memory' s' (FFT circleAngles memory s x N).2 N).2 j = x j) ∧
        (FFT circleAngles memory' s' x N).2 = (FFT circleAngles memory s x N).2 ∧
        (IFFT circleAngles memory' s' x N).2 = (IFFT circleAngles memory s x N).2 := by
  -- The tables are for `2 ^ q` butterflies.
  obtain ⟨q, rfl⟩ : ∃ q, p = q + 1 := Nat.exists_eq_succ_of_ne_zero fun hp => by
    rw [hN, hp] at hN₂
    omega
  subst hN
  have hroot := isPrimitiveRoot_root (N := 2 ^ (q + 1)) (by positivity)
  refine ⟨fun k hk => ?_, fun k hk => ?_, fun s' h' memory' => ⟨fun j hj => ?_, ?_, ?_⟩⟩
  · rw [toComplex_FFT h, if_pos hk]
    refine Finset.sum_congr rfl fun n _ => ?_
    rw [root_pow]
    congr 2
    push_cast
    ring
  · rw [toComplex_IFFT h, if_pos hk]
    congr 1
    refine Finset.sum_congr rfl fun n _ => ?_
    rw [inv_pow, root_pow, ← Complex.exp_neg]
    congr 2
    push_cast
    ring
  · -- The inverse transform of the transform, but for the length, by which `IFFT` divides.
    apply eq_of_toComplex
    have hhalf : j / 2 < 2 ^ (q + 1) := by omega
    have hN0 : ((2 ^ (q + 1) : ℕ) : ℂ) ≠ 0 := Nat.cast_ne_zero.mpr (by positivity)
    rw [toComplex_IFFT h', if_pos hhalf,
      dft_congr (fun n hn => (toComplex_FFT h memory x q n).trans (if_pos hn)),
      dft_inv_dft hroot _ hhalf, mul_div_cancel_left₀ _ hN0]
  · funext j
    apply eq_of_toComplex
    rw [toComplex_FFT h', toComplex_FFT h]
  · funext j
    apply eq_of_toComplex
    rw [toComplex_IFFT h', toComplex_IFFT h]

/-- Memory that is not cleared. -/
def leftover : FFTTables ℝ where
  FFTButter _ := 7
  FFTBitSwap _ := 7
  FFTPhi _ := 7

/-- The globals at the start. -/
def noTables : FFTState ℝ := { leftover with FFTSwapInitialised := 0, FFTLog2N := 0 }

/-- A sequence of one number. -/
def impulse (j : ℕ) : ℝ := if j = 0 then 1 else 0

/-- The globals after a transform of eight numbers. -/
noncomputable def tablesOfEight : FFTState ℝ :=
  (FFT circleAngles leftover noTables impulse (2 ^ 3)).1

/-- Transforms of four numbers, forth and back, after one of eight numbers and with the tables freed
in between; and the same transform without the one before. -/
theorem transforms_after_calls_four :
    (IFFT circleAngles leftover noTables
      (FFT circleAngles leftover tablesOfEight impulse 4).2 4).2 0 = 1 ∧
      (FFT circleAngles leftover noTables impulse 4).2 =
        (FFT circleAngles leftover tablesOfEight impulse 4).2 := by
  have hstart : Called noTables := Called.start noTables rfl
  obtain ⟨hback, hsame, -⟩ :=
    (transforms_after_calls (Called.FFT leftover impulse 3 hstart) leftover impulse
      (N := 4) (p := 2) rfl (by decide)).2.2 noTables hstart leftover
  exact ⟨(hback 0 (by decide)).trans (if_pos rfl), hsame⟩

end TgVoipRate.Dsp
