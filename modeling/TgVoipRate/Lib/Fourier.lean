import Mathlib.Algebra.Field.GeomSum
import Mathlib.Algebra.Polynomial.Eval.Degree
import Mathlib.RingTheory.RootsOfUnity.PrimitiveRoots
import Mathlib.Tactic.Ring

/-!
# Fourier transforms of sequences whose length is a power of two

What a butterfly network computes (`blockDft_double`): before stage `t` the sequence consists of
`2 ^ t` blocks, and block `b` holds the sums over every `m`-th entry with the powers of the root
that belong to the reversed bits of `b`. Behind the last stage each block is one entry of the
transform, in the order of reversed bits (`blockDft_last`). A pass of swaps whose table is an
involution puts them into order, even though it writes to its table on the way (`swapAll_eq`).

The second part has the inverse of a transform (`dft_inv_dft`), and the transform of a linear
convolution of sequences that are short enough not to wrap around (`dft_convolve`).
-/

namespace Fourier

/-! ## Reversed bits -/

/-- The lowest bits of a number, in reverse. -/
def bitReverse : ℕ → ℕ → ℕ
  | 0, _ => 0
  | t + 1, b => bitReverse t (b / 2) + b % 2 * 2 ^ t

@[simp] theorem bitReverse_zero_right (t : ℕ) : bitReverse t 0 = 0 := by
  induction t with
  | zero => rfl
  | succ t ih => simp [bitReverse, ih]

/-- The last bit comes first. -/
theorem bitReverse_double (t b : ℕ) {c : ℕ} (hc : c < 2) :
    bitReverse (t + 1) (2 * b + c) = bitReverse t b + c * 2 ^ t := by
  have hdiv : (2 * b + c) / 2 = b := by omega
  have hmod : (2 * b + c) % 2 = c := by omega
  rw [bitReverse, hdiv, hmod]

/-- A reversed number has no more bits. -/
theorem bitReverse_lt (t b : ℕ) : bitReverse t b < 2 ^ t := by
  induction t generalizing b with
  | zero => exact Nat.one_pos
  | succ t ih =>
    have hlt := ih (b / 2)
    have hbit : b % 2 * 2 ^ t ≤ 1 * 2 ^ t := Nat.mul_le_mul_right _ (by omega)
    rw [bitReverse, pow_succ]
    omega

/-- Leading zeros become trailing ones. -/
theorem bitReverse_add_width {t b : ℕ} (m : ℕ) (hb : b < 2 ^ t) :
    bitReverse (t + m) b = bitReverse t b * 2 ^ m := by
  induction t generalizing b with
  | zero =>
    have hzero : b = 0 := by simpa using hb
    subst hzero
    simp
  | succ t ih =>
    have hhalf : b / 2 < 2 ^ t := by
      rw [pow_succ] at hb
      omega
    rw [show t + 1 + m = t + m + 1 by omega, bitReverse, bitReverse, ih hhalf, pow_add]
    ring

/-- A leading bit becomes a trailing one. -/
theorem bitReverse_add_pow {j b : ℕ} (m : ℕ) (hb : b < 2 ^ j) :
    bitReverse (m + j + 1) (b + 2 ^ j) = bitReverse (m + j + 1) b + 2 ^ m := by
  induction j generalizing b with
  | zero =>
    have hzero : b = 0 := by simpa using hb
    subst hzero
    simp [bitReverse]
  | succ j ih =>
    have hhalf : b / 2 < 2 ^ j := by
      rw [pow_succ] at hb
      omega
    have hdiv : (b + 2 ^ (j + 1)) / 2 = b / 2 + 2 ^ j := by
      rw [pow_succ]
      omega
    have hmod : (b + 2 ^ (j + 1)) % 2 = b % 2 := by
      rw [pow_succ]
      omega
    rw [← add_assoc, bitReverse, hdiv, hmod, ih hhalf]
    conv_rhs => rw [bitReverse]
    ring

/-- Reversing twice gives the number back. -/
theorem bitReverse_bitReverse {t b : ℕ} (hb : b < 2 ^ t) : bitReverse t (bitReverse t b) = b := by
  induction t generalizing b with
  | zero =>
    have hzero : b = 0 := by simpa using hb
    exact hzero.symm
  | succ t ih =>
    have hhalf : b / 2 < 2 ^ t := by
      rw [pow_succ] at hb
      omega
    have hrest := bitReverse_lt t (b / 2)
    have hdouble := bitReverse_add_width 1 hrest
    rw [ih hhalf, pow_one] at hdouble
    conv_lhs => rw [bitReverse.eq_def (t + 1) b]
    dsimp only
    -- The last bit of `b` is the leading bit of its reversal.
    rcases Nat.mod_two_eq_zero_or_one b with hbit | hbit
    · rw [hbit, zero_mul, add_zero, hdouble]
      omega
    · have hlead := bitReverse_add_pow 0 hrest
      rw [zero_add, pow_zero] at hlead
      rw [hbit, one_mul, hlead, hdouble]
      omega

/-! ## Swapping in place -/

section Swap

variable {α : Type*}

/-- Swaps an entry with the one that the table says, and notes that the other one is done. -/
def swapStep (s : (ℕ → α) × (ℕ → ℕ)) (c : ℕ) : (ℕ → α) × (ℕ → ℕ) :=
  if s.2 c = c then s
  else
    (Function.update (Function.update s.1 c (s.1 (s.2 c))) (s.2 c) (s.1 c),
      Function.update s.2 (s.2 c) (s.2 c))

/-- A pass over the first entries. -/
def swapAll (x : ℕ → α) (table : ℕ → ℕ) (n : ℕ) : (ℕ → α) × (ℕ → ℕ) :=
  (List.range n).foldl swapStep (x, table)

variable {σ : ℕ → ℕ} {N : ℕ}

/-- Only one entry has a given partner. -/
theorem ne_partner (hinv : ∀ k < N, σ (σ k) = k) {k n : ℕ} (hk : k < N) (hne : k ≠ σ n) :
    σ k ≠ n := by
  rintro rfl
  exact hne (hinv k hk).symm

/-- The entries are in their places as soon as the pass has come to one of a pair, and the table
says so for those that are still to come. -/
theorem swapAll_eq_of_le (hσ : ∀ k < N, σ k < N) (hinv : ∀ k < N, σ (σ k) = k) (x : ℕ → α) {n : ℕ}
    (hn : n ≤ N) :
    (∀ k, (swapAll x σ n).1 k = if k < N ∧ (k < n ∨ σ k < n) then x (σ k) else x k) ∧
      ∀ k, n ≤ k → k < N → (swapAll x σ n).2 k = if σ k < n then k else σ k := by
  induction n with
  | zero =>
    exact ⟨fun k => (if_neg (by omega)).symm, fun k _ _ => (if_neg (Nat.not_lt_zero _)).symm⟩
  | succ n ih =>
    obtain ⟨hentries, htable⟩ := ih (by omega)
    have hnN : n < N := by omega
    have hσn := hσ n hnN
    have hσσn := hinv n hnN
    unfold swapAll at hentries htable ⊢
    rw [List.range_succ, List.foldl_append, List.foldl_cons, List.foldl_nil]
    generalize (List.range n).foldl swapStep (x, σ) = s at hentries htable ⊢
    have hn := htable n le_rfl hnN
    -- Only an entry whose partner is behind it is swapped.
    by_cases hback : σ n ≤ n
    · have hdone : s.2 n = n := by
        rw [hn]
        split <;> omega
      rw [swapStep, if_pos hdone]
      refine ⟨fun k => ?_, fun k hk hkN => ?_⟩
      · -- The entry is a fixed point, or the swap with its partner has brought it here.
        rw [hentries]
        by_cases hkn : σ k = n ∧ k < N
        · have hk := hinv k hkn.2
          rw [hkn.1] at hk
          by_cases hfix : k = n
          · subst hfix
            rw [hkn.1]
            simp
          · rw [if_pos (by omega), if_pos (by omega)]
        · refine if_congr ?_ rfl rfl
          by_cases hfix : k = n
          · subst hfix
            have hlt : σ k < k := by omega
            omega
          · omega
      · rw [htable k (by omega) hkN]
        refine if_congr ?_ rfl rfl
        have hne := ne_partner hinv hkN (show k ≠ σ n by omega)
        omega
    · -- Both entries of the pair are untouched, and the table still has the partner.
      have hopen : s.2 n = σ n := by
        rw [hn, if_neg (by omega)]
      rw [swapStep, if_neg (by omega), hopen]
      have hpartner := hentries (σ n)
      rw [if_neg (by omega)] at hpartner
      have hself := hentries n
      rw [if_neg (by omega)] at hself
      refine ⟨fun k => ?_, fun k hk hkN => ?_⟩
      · dsimp only
        by_cases hkσ : k = σ n
        · subst hkσ
          rw [Function.update_self, hself, if_pos (by omega), hσσn]
        · rw [Function.update_of_ne hkσ]
          by_cases hkn : k = n
          · subst hkn
            rw [Function.update_self, hpartner, if_pos (by omega)]
          · rw [Function.update_of_ne hkn, hentries]
            refine if_congr ?_ rfl rfl
            have hne : k < N → σ k ≠ n := fun hkN => ne_partner hinv hkN hkσ
            omega
      · dsimp only
        by_cases hkσ : k = σ n
        · subst hkσ
          rw [Function.update_self, if_pos (by omega)]
        · rw [Function.update_of_ne hkσ, htable k (by omega) hkN]
          refine if_congr ?_ rfl rfl
          have hne := ne_partner hinv hkN hkσ
          omega

/-- A pass with an involution as its table puts all entries into their places. -/
theorem swapAll_eq (hσ : ∀ k < N, σ k < N) (hinv : ∀ k < N, σ (σ k) = k) (x : ℕ → α) (k : ℕ) :
    (swapAll x σ N).1 k = if k < N then x (σ k) else x k := by
  rw [(swapAll_eq_of_le hσ hinv x le_rfl).1]
  refine if_congr ?_ rfl rfl
  omega

end Swap

/-! ## The butterfly network -/

section Network

variable {R : Type*} [CommRing R]

/-- The discrete Fourier transform for a root of unity. -/
def dft (w : R) (N : ℕ) (z : ℕ → R) (k : ℕ) : R := ∑ n ∈ Finset.range N, z n * w ^ (k * n)

/-- The transform is linear. -/
theorem dft_combination (w : R) (N : ℕ) (a b : R) (x y : ℕ → R) (k : ℕ) :
    dft w N (fun n => a * x n + b * y n) k = a * dft w N x k + b * dft w N y k := by
  unfold dft
  rw [Finset.mul_sum, Finset.mul_sum, ← Finset.sum_add_distrib]
  exact Finset.sum_congr rfl fun n _ => by ring

/-- The transform of a multiple. -/
theorem dft_const_mul (w : R) (N : ℕ) (a : R) (x : ℕ → R) (k : ℕ) :
    dft w N (fun n => a * x n) k = a * dft w N x k := by
  unfold dft
  rw [Finset.mul_sum]
  exact Finset.sum_congr rfl fun n _ => mul_assoc _ _ _

/-- Homomorphisms take transforms to transforms. -/
theorem map_dft (f : R →+* R) (w : R) (N : ℕ) (z : ℕ → R) (k : ℕ) :
    f (dft w N z k) = dft (f w) N (fun n => f (z n)) k := by
  unfold dft
  rw [map_sum]
  exact Finset.sum_congr rfl fun n _ => by rw [map_mul, map_pow]

/-- The entry `s` of block `b` before stage `t`, where the blocks have `m` entries. -/
def blockDft (w : R) (t m : ℕ) (z : ℕ → R) (b s : ℕ) : R :=
  ∑ q ∈ Finset.range (2 ^ t), z (s + m * q) * w ^ (m * bitReverse t b * q)

/-- Before the first stage there is one block, which holds the sequence. -/
theorem blockDft_first (w : R) (m : ℕ) (z : ℕ → R) (b s : ℕ) : blockDft w 0 m z b s = z s := by
  simp [blockDft]

/-- Behind the last stage, each block is an entry of the transform. -/
theorem blockDft_last (w : R) (t : ℕ) (z : ℕ → R) (b : ℕ) :
    blockDft w t 1 z b 0 = dft w (2 ^ t) z (bitReverse t b) := by
  simp [blockDft, dft]

/-- A sum over pairs. -/
theorem sum_range_double (f : ℕ → R) (n : ℕ) :
    ∑ q ∈ Finset.range (2 * n), f q =
      ∑ q ∈ Finset.range n, f (2 * q) + ∑ q ∈ Finset.range n, f (2 * q + 1) := by
  induction n with
  | zero => simp
  | succ n ih =>
    rw [Finset.sum_range_succ _ n, Finset.sum_range_succ _ n, mul_add, mul_one,
      Finset.sum_range_succ, Finset.sum_range_succ, ih]
    ring

/-- One stage: a block is halved, and each of its halves combines entries of both halves. -/
theorem blockDft_double {w : R} {t m : ℕ} (hw : w ^ (2 ^ t * m) = -1) (z : ℕ → R) (b s : ℕ)
    {c : ℕ} (hc : c < 2) :
    blockDft w (t + 1) m z (2 * b + c) s =
      blockDft w t (2 * m) z b s +
        (-1) ^ c * (w ^ (m * bitReverse t b) * blockDft w t (2 * m) z b (s + m)) := by
  have hturn : ∀ q, w ^ (2 ^ t * m * (c * (2 * q))) = 1 := fun q => by
    rw [pow_mul, hw, ← mul_assoc, mul_comm c, mul_assoc, pow_mul, neg_one_sq, one_pow]
  unfold blockDft
  rw [bitReverse_double t b hc, pow_succ', sum_range_double, Finset.mul_sum, Finset.mul_sum]
  congr 1
  · -- The entries with even index: the root has come around.
    refine Finset.sum_congr rfl fun q _ => ?_
    rw [show s + m * (2 * q) = s + 2 * m * q by ring,
      show m * (bitReverse t b + c * 2 ^ t) * (2 * q) =
        2 * m * bitReverse t b * q + 2 ^ t * m * (c * (2 * q)) by ring,
      pow_add, hturn, mul_one]
  · -- Those with odd index: half a turn is left if the block is the second one.
    refine Finset.sum_congr rfl fun q _ => ?_
    rw [show s + m * (2 * q + 1) = s + m + 2 * m * q by ring,
      show m * (bitReverse t b + c * 2 ^ t) * (2 * q + 1) =
        2 * m * bitReverse t b * q + (2 ^ t * m * (c * (2 * q)) +
          (2 ^ t * m * c + m * bitReverse t b)) by ring,
      pow_add, pow_add, pow_add, hturn, pow_mul w (2 ^ t * m) c, hw]
    ring

end Network

/-! ## The inverse -/

section Inverse

variable {R : Type*} [Field R] {w : R} {N : ℕ}

/-- The powers of two roots cancel, unless they are opposite. -/
theorem sum_root_pow (hw : IsPrimitiveRoot w N) {n j : ℕ} (hn : n < N) (hj : j < N) :
    ∑ k ∈ Finset.range N, w ^ (k * n) * w⁻¹ ^ (j * k) = if n = j then (N : R) else 0 := by
  have hw0 : w ≠ 0 := hw.ne_zero (by omega)
  have hterm : ∀ k, w ^ (k * n) * w⁻¹ ^ (j * k) = (w ^ n * w⁻¹ ^ j) ^ k := fun k => by
    rw [mul_pow, ← pow_mul, ← pow_mul, mul_comm k n]
  rw [Finset.sum_congr rfl fun k _ => hterm k]
  split
  · rename_i hnj
    rw [hnj, ← mul_pow, mul_inv_cancel₀ hw0, one_pow]
    simp
  · rename_i hnj
    have hne : w ^ n * w⁻¹ ^ j ≠ 1 := fun hone => by
      rw [inv_pow, mul_inv_eq_one₀ (pow_ne_zero j hw0)] at hone
      exact hnj (hw.pow_inj hn hj hone)
    have hturn : (w ^ n * w⁻¹ ^ j) ^ N = 1 := by
      rw [mul_pow, ← pow_mul, ← pow_mul, mul_comm n N, mul_comm j N, pow_mul, pow_mul,
        inv_pow w N, hw.pow_eq_one, inv_one, one_pow, one_pow, mul_one]
    rw [geom_sum_eq hne, hturn, sub_self, zero_div]

/-- The transform for the inverse root takes a transform back, but for its length. -/
theorem dft_inv_dft (hw : IsPrimitiveRoot w N) (z : ℕ → R) {j : ℕ} (hj : j < N) :
    dft w⁻¹ N (dft w N z) j = N * z j := by
  calc dft w⁻¹ N (dft w N z) j
      = ∑ k ∈ Finset.range N, ∑ n ∈ Finset.range N, z n * (w ^ (k * n) * w⁻¹ ^ (j * k)) := by
        unfold dft
        refine Finset.sum_congr rfl fun k _ => ?_
        rw [Finset.sum_mul]
        exact Finset.sum_congr rfl fun n _ => mul_assoc _ _ _
    _ = ∑ n ∈ Finset.range N, z n * ∑ k ∈ Finset.range N, w ^ (k * n) * w⁻¹ ^ (j * k) := by
        rw [Finset.sum_comm]
        exact Finset.sum_congr rfl fun n _ => (Finset.mul_sum _ _ _).symm
    _ = ∑ n ∈ Finset.range N, z n * if n = j then (N : R) else 0 := by
        refine Finset.sum_congr rfl fun n hn => ?_
        rw [sum_root_pow hw (Finset.mem_range.mp hn) hj]
    _ = N * z j := by
        rw [Finset.sum_eq_single j]
        · rw [if_pos rfl, mul_comm]
        · exact fun n _ hnj => by rw [if_neg hnj, mul_zero]
        · exact fun hnot => absurd (Finset.mem_range.mpr hj) hnot

/-- A transform has the period of its root. -/
theorem dft_mod (hw : w ^ N = 1) (z : ℕ → R) (k : ℕ) : dft w N z (k % N) = dft w N z k := by
  unfold dft
  refine Finset.sum_congr rfl fun n _ => ?_
  rw [pow_mul, pow_mul, ← pow_mod_orderOf w (k % N), ← pow_mod_orderOf w k,
    Nat.mod_mod_of_dvd k (orderOf_dvd_of_pow_eq_one hw)]

/-- The product of a transform with a sum of shifts is taken back to the sum of the shifted entries,
but for the length. -/
theorem dft_inv_shifts (hw : IsPrimitiveRoot w N) (x y : ℕ → R) (shift : ℕ → ℕ) (j : ℕ) :
    dft w⁻¹ N (fun k => (∑ n ∈ Finset.range N, x n * w⁻¹ ^ (shift n * k)) * dft w N y k) j =
      N * ∑ n ∈ Finset.range N, x n * y ((shift n + j) % N) := by
  rcases Nat.eq_zero_or_pos N with rfl | hN
  · simp [dft]
  have hturn : w⁻¹ ^ N = 1 := by rw [inv_pow, hw.pow_eq_one, inv_one]
  calc dft w⁻¹ N (fun k => (∑ n ∈ Finset.range N, x n * w⁻¹ ^ (shift n * k)) * dft w N y k) j
      = ∑ k ∈ Finset.range N, ∑ n ∈ Finset.range N,
          x n * (dft w N y k * w⁻¹ ^ ((shift n + j) * k)) := by
        unfold dft
        refine Finset.sum_congr rfl fun k _ => ?_
        dsimp only
        rw [Finset.sum_mul, Finset.sum_mul]
        refine Finset.sum_congr rfl fun n _ => ?_
        rw [add_mul, pow_add]
        ring
    _ = ∑ n ∈ Finset.range N, x n * dft w⁻¹ N (dft w N y) (shift n + j) := by
        rw [Finset.sum_comm]
        exact Finset.sum_congr rfl fun n _ => (Finset.mul_sum _ _ _).symm
    _ = ∑ n ∈ Finset.range N, N * (x n * y ((shift n + j) % N)) := by
        refine Finset.sum_congr rfl fun n _ => ?_
        rw [← dft_mod hturn, dft_inv_dft hw y (Nat.mod_lt _ hN)]
        ring
    _ = N * ∑ n ∈ Finset.range N, x n * y ((shift n + j) % N) := (Finset.mul_sum _ _ _).symm

/-- The product of two transforms, the first one for the inverse root, is taken back to the circular
correlation, but for the length. -/
theorem dft_inv_correlate (hw : IsPrimitiveRoot w N) (x y : ℕ → R) (j : ℕ) :
    dft w⁻¹ N (fun k => dft w⁻¹ N x k * dft w N y k) j =
      N * ∑ n ∈ Finset.range N, x n * y ((n + j) % N) := by
  rw [← dft_inv_shifts hw]
  refine Finset.sum_congr rfl fun k _ => ?_
  simp only [dft, mul_comm k]

/-- The sum of products of two transforms, the first one for the inverse root, is that of the
sequences, but for the length. -/
theorem sum_dft_mul_dft (hw : IsPrimitiveRoot w N) (x y : ℕ → R) :
    ∑ k ∈ Finset.range N, dft w⁻¹ N x k * dft w N y k =
      N * ∑ n ∈ Finset.range N, x n * y n := by
  have hcorrelation := dft_inv_correlate hw x y 0
  have hindex : ∀ n ∈ Finset.range N, x n * y ((n + 0) % N) = x n * y n := fun n hn => by
    rw [add_zero, Nat.mod_eq_of_lt (Finset.mem_range.mp hn)]
  rw [Finset.sum_congr rfl hindex] at hcorrelation
  rw [← hcorrelation]
  refine Finset.sum_congr rfl fun k _ => ?_
  rw [zero_mul, pow_zero, mul_one]

/-- The product of two transforms is taken back to the circular convolution, but for the length. -/
theorem dft_inv_convolve (hw : IsPrimitiveRoot w N) (x y : ℕ → R) (j : ℕ) :
    dft w⁻¹ N (fun k => dft w N x k * dft w N y k) j =
      N * ∑ n ∈ Finset.range N, x n * y ((N - n + j) % N) := by
  have hshifts : ∀ k, dft w N x k = ∑ n ∈ Finset.range N, x n * w⁻¹ ^ ((N - n) * k) := by
    intro k
    unfold dft
    refine Finset.sum_congr rfl fun n hn => ?_
    -- A turn forwards is the rest of the circle backwards.
    have hn := (Finset.mem_range.mp hn).le
    have hturn : w ^ (k * n) * w ^ ((N - n) * k) = 1 := by
      rw [mul_comm k, ← pow_add, ← add_mul, Nat.add_sub_cancel' hn, pow_mul, hw.pow_eq_one, one_pow]
    rw [inv_pow, eq_inv_of_mul_eq_one_left hturn]
  rw [← dft_inv_shifts hw]
  simp only [hshifts]

end Inverse

/-! ## Convolution -/

section Convolution

open Finset.HasAntidiagonal (antidiagonal)

variable {R : Type*} [CommRing R]

/-- The linear convolution of two sequences. -/
def convolve (x y : ℕ → R) (k : ℕ) : R :=
  ∑ ij ∈ antidiagonal k, x ij.1 * y ij.2

/-- The polynomial with the first entries of a sequence. -/
noncomputable def toPolynomial (n : ℕ) (x : ℕ → R) : Polynomial R :=
  ∑ i ∈ Finset.range n, Polynomial.monomial i (x i)

/-- Its coefficients, if there are no other entries. -/
theorem coeff_toPolynomial {n : ℕ} {x : ℕ → R} (hx : ∀ i, n ≤ i → x i = 0) (i : ℕ) :
    (toPolynomial n x).coeff i = x i := by
  simp only [toPolynomial, Polynomial.finsetSum_coeff, Polynomial.coeff_monomial,
    Finset.sum_ite_eq', Finset.mem_range]
  split
  · rfl
  · rename_i hi
    exact (hx i (not_lt.mp hi)).symm

/-- Its degree. -/
theorem natDegree_toPolynomial_lt {n : ℕ} (hn : 0 < n) {x : ℕ → R} (hx : ∀ i, n ≤ i → x i = 0) :
    (toPolynomial n x).natDegree < n := by
  have hle : (toPolynomial n x).natDegree ≤ n - 1 := by
    rw [Polynomial.natDegree_le_iff_coeff_eq_zero]
    intro i hi
    rw [coeff_toPolynomial hx]
    exact hx i (by omega)
  omega

/-- A transform is the value of the polynomial at a power of the root. -/
theorem dft_eq_eval {n N : ℕ} (hn : 0 < n) (hN : n ≤ N) (w : R) {x : ℕ → R}
    (hx : ∀ i, n ≤ i → x i = 0) (k : ℕ) :
    dft w N x k = (toPolynomial n x).eval (w ^ k) := by
  rw [Polynomial.eval_eq_sum_range' ((natDegree_toPolynomial_lt hn hx).trans_le hN)]
  refine Finset.sum_congr rfl fun i _ => ?_
  rw [coeff_toPolynomial hx, pow_mul]

/-- The transform of a convolution is the product of the transforms, if there is room for it. -/
theorem dft_convolve {n₁ n₂ N : ℕ} (hn₁ : 0 < n₁) (hn₂ : 0 < n₂) (hN : n₁ + n₂ ≤ N + 1) (w : R)
    {x y : ℕ → R} (hx : ∀ i, n₁ ≤ i → x i = 0) (hy : ∀ i, n₂ ≤ i → y i = 0) (k : ℕ) :
    dft w N (convolve x y) k = dft w N x k * dft w N y k := by
  have hdegree : (toPolynomial n₁ x * toPolynomial n₂ y).natDegree < N := by
    have hmul := Polynomial.natDegree_mul_le (p := toPolynomial n₁ x) (q := toPolynomial n₂ y)
    have h₁ := natDegree_toPolynomial_lt hn₁ hx
    have h₂ := natDegree_toPolynomial_lt hn₂ hy
    omega
  rw [dft_eq_eval hn₁ (by omega) w hx, dft_eq_eval hn₂ (by omega) w hy, ← Polynomial.eval_mul,
    Polynomial.eval_eq_sum_range' hdegree]
  refine Finset.sum_congr rfl fun i _ => ?_
  rw [Polynomial.coeff_mul, pow_mul]
  congr 1
  refine Finset.sum_congr rfl fun ij _ => ?_
  rw [coeff_toPolynomial hx, coeff_toPolynomial hy]

end Convolution

end Fourier
