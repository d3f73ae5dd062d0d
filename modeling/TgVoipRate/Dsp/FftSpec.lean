import Mathlib.Analysis.SpecialFunctions.Complex.Circle
import Mathlib.RingTheory.RootsOfUnity.Complex
import TgVoipRate.Dsp.Fft
import TgVoipRate.Lib.Fourier

/-!
# The transforms are Fourier transforms

For every size that is a power of two, whatever was computed before. The tables that are kept are
those for their size (`Valid`), so a call finds the same tables as a first one would; the stages of
butterflies compute the blocks of a network (`stages_dft`), and the swaps put its results into
order.
-/

namespace TgVoipRate.Dsp

open Fourier (bitReverse bitReverse_zero_right bitReverse_add_width bitReverse_add_pow
  bitReverse_bitReverse bitReverse_lt blockDft blockDft_first blockDft_last blockDft_double dft
  swapStep swapAll swapAll_eq dft_inv_dft)
open Loops (Loop)

/-! ## The tables -/

section Tables

variable {𝕜 : Type*}

/-- Moving up the first entries of a table. -/
theorem doubleButter_eq (L K : ℕ) (B : ℕ → ℕ) (k : ℕ) :
    doubleButter L K B k = if L ≤ k ∧ k < 2 * L then B (k - L) + K else B k := by
  have hfold : ∀ n ≤ L, ∀ k, (List.range n).foldl
      (fun B C => Function.update B (C + L) (B C + K)) B k =
        if L ≤ k ∧ k < L + n then B (k - L) + K else B k := by
    intro n
    induction n with
    | zero => exact fun _ k => (if_neg (by omega)).symm
    | succ n ih =>
      intro hn k
      rw [List.range_succ, List.foldl_append, List.foldl_cons, List.foldl_nil,
        Function.update_apply, ih (by omega), ih (by omega)]
      by_cases hk : k = n + L
      · rw [if_pos hk, if_neg (by omega), if_pos (by omega), hk, Nat.add_sub_cancel]
      · rw [if_neg hk]
        refine if_congr ?_ rfl rfl
        omega
  rw [two_mul]
  exact hfold L le_rfl k

/-- The table of exponents holds the reversed bits. -/
theorem fillButter_eq {q j : ℕ} (hj : j ≤ q) {B : ℕ → ℕ} (hB : ∀ C < 2 ^ j, B C = bitReverse q C) :
    ∀ C < 2 ^ q, fillButter (2 ^ j) (2 ^ q / 2 ^ (j + 1)) B C = bitReverse q C := by
  induction hm : q - j generalizing j B with
  | zero =>
    have hjq : j = q := by omega
    subst hjq
    rw [fillButter, Nat.div_eq_of_lt (Nat.pow_lt_pow_right one_lt_two j.lt_succ_self),
      if_neg (by omega)]
    exact hB
  | succ m ih =>
    have hK : 2 ^ q / 2 ^ (j + 1) = 2 ^ m := by
      rw [Nat.pow_div (by omega) two_pos]
      congr 1
      omega
    have hnext : 2 ^ q / 2 ^ (j + 1) / 2 = 2 ^ q / 2 ^ (j + 1 + 1) := by
      rw [Nat.div_div_eq_div_mul, ← pow_succ]
    rw [fillButter, if_pos (by rw [hK]; exact Nat.one_le_two_pow), hnext, ← pow_succ']
    refine ih (by omega) (fun C hC => ?_) (by omega)
    rw [doubleButter_eq, hK]
    split
    · -- A leading bit of the index is a trailing one of the entry.
      rename_i hlarge
      have hrest : C - 2 ^ j < 2 ^ j := by omega
      have hwidth : m + j + 1 = q := by omega
      have hbit := bitReverse_add_pow m hrest
      rw [hwidth, Nat.sub_add_cancel hlarge.1] at hbit
      rw [hB _ hrest, hbit]
    · rename_i hsmall
      rw [pow_succ] at hC
      exact hB C (by omega)

/-- The table of angles. -/
theorem fillPhi_eq (angles : Angles 𝕜) (N : ℕ) (Phi : ℕ → 𝕜) {C : ℕ} (hC : C < N / 2) :
    fillPhi angles N Phi (2 * C) = angles.cos C N ∧
      fillPhi angles N Phi (2 * C + 1) = angles.sin C N := by
  have hfold : ∀ n, ∀ C < n, (List.range n).foldl
      (fun Phi C => Function.update (Function.update Phi (2 * C) (angles.cos C N)) (2 * C + 1)
        (angles.sin C N)) Phi (2 * C) = angles.cos C N ∧
      (List.range n).foldl
      (fun Phi C => Function.update (Function.update Phi (2 * C) (angles.cos C N)) (2 * C + 1)
        (angles.sin C N)) Phi (2 * C + 1) = angles.sin C N := by
    intro n
    induction n with
    | zero => exact fun C hC => absurd hC C.not_lt_zero
    | succ n ih =>
      intro C hC
      rw [List.range_succ, List.foldl_append, List.foldl_cons, List.foldl_nil]
      by_cases hCn : C = n
      · subst hCn
        rw [Function.update_of_ne (by omega), Function.update_self, Function.update_self]
        exact ⟨rfl, rfl⟩
      · rw [Function.update_of_ne (by omega), Function.update_of_ne (by omega),
          Function.update_of_ne (by omega), Function.update_of_ne (by omega)]
        exact ih C (by omega)
  exact hfold _ C hC

/-- The table of swaps. -/
theorem fillBitSwap_eq (NC : ℕ) (B T : ℕ → ℕ) {k : ℕ} (hk : k < 2 * NC) :
    fillBitSwap NC B T k = if k < NC then 2 * B k else 1 + 2 * B (k - NC) := by
  have hfold : ∀ n ≤ NC, ∀ k, (List.range n).foldl
      (fun T C => Function.update (Function.update T C (2 * B C)) (C + NC)
        (1 + Function.update T C (2 * B C) C)) T k =
        if k < n then 2 * B k else if NC ≤ k ∧ k < NC + n then 1 + 2 * B (k - NC) else T k := by
    intro n
    induction n with
    | zero =>
      intro _ k
      rw [if_neg (Nat.not_lt_zero k), if_neg (by omega)]
      rfl
    | succ n ih =>
      intro hn k
      rw [List.range_succ, List.foldl_append, List.foldl_cons, List.foldl_nil,
        Function.update_self, Function.update_apply, Function.update_apply, ih (by omega)]
      by_cases hupper : k = n + NC
      · rw [if_pos hupper, if_neg (by omega), if_pos (by omega), hupper, Nat.add_sub_cancel]
      · rw [if_neg hupper]
        by_cases hlower : k = n
        · rw [if_pos hlower, if_pos (by omega), hlower]
        · rw [if_neg hlower]
          refine if_congr (by omega) rfl (if_congr (by omega) rfl rfl)
  rw [fillBitSwap, hfold NC le_rfl]
  split
  · rfl
  · rw [if_pos (by omega)]

/-- The tables for `2 ^ (q + 1)` complex numbers. -/
structure TablesFor (angles : Angles 𝕜) (q : ℕ) (tables : FFTTables 𝕜) : Prop where
  /-- The exponents. -/
  butter : ∀ C < 2 ^ q, tables.FFTButter C = bitReverse q C
  /-- The cosines. -/
  cos : ∀ C < 2 ^ q, tables.FFTPhi (2 * C) = angles.cos C (2 ^ (q + 1))
  /-- The sines. -/
  sin : ∀ C < 2 ^ q, tables.FFTPhi (2 * C + 1) = angles.sin C (2 ^ (q + 1))

/-- The tables that are kept are those for their size. -/
def Valid (angles : Angles 𝕜) (s : FFTState 𝕜) : Prop :=
  s.FFTSwapInitialised = 0 ∨
    ∃ q, s.FFTSwapInitialised = 2 ^ (q + 1) ∧ TablesFor angles q s.toFFTTables

/-- A power of two can be halved as often as its exponent says. -/
theorem halvings_two_pow (p : ℕ) : halvings (2 ^ p) = p := by
  induction p with
  | zero =>
    rw [halvings]
    exact if_neg (by omega)
  | succ p ih =>
    have hhalf : 2 ^ (p + 1) / 2 = 2 ^ p := by
      rw [pow_succ]
      omega
    rw [halvings, if_pos (Nat.one_lt_two_pow (by omega)), hhalf, ih]

/-- The halves of a power of two. -/
theorem two_pow_succ_div (q : ℕ) :
    2 ^ (q + 1) / 2 = 2 ^ q ∧ 2 ^ (q + 1) / 4 = 2 ^ q / 2 ^ (0 + 1) := by
  rw [zero_add, pow_one, pow_succ]
  omega

variable {angles : Angles 𝕜} {s : FFTState 𝕜}

/-- Freed tables are valid. -/
theorem Valid.free (h : Valid angles s) : Valid angles (FFTFree s) := by
  unfold FFTFree
  split
  · exact Or.inl rfl
  · exact h

/-- Behind `FFTInit` the tables are there, whether they are kept ones or new ones. -/
theorem FFTInit_tables (h : Valid angles s) (memory : FFTTables 𝕜) (q : ℕ) :
    (FFTInit angles memory (2 ^ (q + 1)) s).FFTSwapInitialised = 2 ^ (q + 1) ∧
      TablesFor angles q (FFTInit angles memory (2 ^ (q + 1)) s).toFFTTables := by
  have hpos : 0 < 2 ^ (q + 1) := Nat.two_pow_pos _
  obtain ⟨hhalf, hquarter⟩ := two_pow_succ_div q
  unfold FFTInit
  dsimp only
  -- Tables for another size are freed, and then there are none.
  generalize hfreed : (if s.FFTSwapInitialised ≠ 2 ^ (q + 1) ∧ s.FFTSwapInitialised ≠ 0 then
    FFTFree s else s) = freed
  have hcases : freed.FFTSwapInitialised = 0 ∨ freed = s ∧ s.FFTSwapInitialised = 2 ^ (q + 1) := by
    rw [← hfreed]
    split
    · rename_i hother
      left
      rw [FFTFree, if_pos hother.2]
    · rename_i hsame
      by_cases hnone : s.FFTSwapInitialised = 0
      · exact Or.inl hnone
      · exact Or.inr ⟨rfl, by tauto⟩
  split
  · -- Kept tables are for one exponent only, since powers of two determine it.
    rename_i hkept
    obtain ⟨rfl, -⟩ := hcases.resolve_left (by omega)
    obtain ⟨q', hq', htables⟩ := h.resolve_left (by omega)
    have hqq : q' = q := by
      have hpow := Nat.pow_right_injective le_rfl (hq'.symm.trans hkept)
      omega
    subst hqq
    exact ⟨hkept, htables⟩
  · refine ⟨?_, ?_, ?_, ?_⟩
    · dsimp only
      rw [halvings_two_pow, if_pos rfl]
    · have hzero : ∀ C < 2 ^ 0, Function.update memory.FFTButter 0 0 C = bitReverse q C := by
        intro C hC
        have hC0 : C = 0 := by simpa using hC
        rw [hC0, Function.update_self, bitReverse_zero_right]
      dsimp only
      rw [hquarter]
      exact fillButter_eq q.zero_le hzero
    · exact fun C hC => (fillPhi_eq angles _ _ (hhalf.symm ▸ hC)).1
    · exact fun C hC => (fillPhi_eq angles _ _ (hhalf.symm ▸ hC)).2

/-- A transform leaves valid tables. -/
theorem Valid.transform (h : Valid angles s) (butterfly : Butterfly 𝕜) (memory : FFTTables 𝕜)
    (x : ℕ → 𝕜) (p : ℕ) : Valid angles (transform butterfly angles memory s x (2 ^ p)).1 := by
  unfold Dsp.transform
  split
  · cases p with
    | zero =>
      rename_i hone
      exact absurd hone (by simp)
    | succ q =>
      obtain ⟨hsize, htables⟩ := FFTInit_tables h memory q
      exact Or.inr ⟨q, hsize, htables.butter, htables.cos, htables.sin⟩
  · exact h

/-- The swaps go to the reversed bits. -/
theorem fillBitSwap_bitReverse {q : ℕ} {tables : FFTTables 𝕜} (h : TablesFor angles q tables)
    {k : ℕ} (hk : k < 2 ^ (q + 1)) :
    fillBitSwap (2 ^ (q + 1) / 2) tables.FFTButter tables.FFTBitSwap k = bitReverse (q + 1) k := by
  rw [(two_pow_succ_div q).1, fillBitSwap_eq _ _ _ (by rw [← pow_succ']; exact hk)]
  split
  · rename_i hlower
    rw [h.butter k hlower, bitReverse_add_width 1 hlower, pow_one, mul_comm]
  · -- The leading bit of an upper index is the lowest bit of its entry.
    rename_i hupper
    rw [pow_succ] at hk
    have hrest : k - 2 ^ q < 2 ^ q := by omega
    have hbit := bitReverse_add_pow 0 hrest
    rw [zero_add, pow_zero, Nat.sub_add_cancel (not_lt.mp hupper),
      bitReverse_add_width 1 hrest, pow_one] at hbit
    rw [h.butter _ hrest, hbit]
    omega

end Tables

/-! ## Complex numbers in an array -/

/-- The complex numbers that an array holds. -/
def toComplex (x : ℕ → ℝ) (k : ℕ) : ℂ := ⟨x (2 * k), x (2 * k + 1)⟩

/-- Writing a complex number. -/
theorem toComplex_setPair (x : ℕ → ℝ) (k : ℕ) (z : ℝ × ℝ) :
    toComplex (setPair x (2 * k) z) = Function.update (toComplex x) k ⟨z.1, z.2⟩ := by
  funext i
  unfold toComplex setPair
  by_cases hi : i = k
  · subst hi
    rw [Function.update_self, Function.update_self, Function.update_of_ne (by omega),
      Function.update_self]
  · rw [Function.update_of_ne hi, Function.update_of_ne (by omega),
      Function.update_of_ne (by omega), Function.update_of_ne (by omega),
      Function.update_of_ne (by omega)]

/-- Swapping two complex numbers. -/
theorem toComplex_swap (x : ℕ → ℝ) {c s : ℕ} (hne : s ≠ c) :
    toComplex (swapEntries (swapEntries x (2 * c) (2 * s)) (2 * c + 1) (2 * s + 1)) =
      Function.update (Function.update (toComplex x) c (toComplex x s)) s (toComplex x c) := by
  funext i
  unfold toComplex swapEntries
  by_cases his : i = s
  · subst his
    rw [Function.update_self, Function.update_self]
    congr 1
    · rw [Function.update_of_ne (by omega), Function.update_of_ne (by omega), Function.update_self]
    · rw [Function.update_of_ne (by omega), Function.update_of_ne (by omega)]
  · rw [Function.update_of_ne his]
    by_cases hic : i = c
    · subst hic
      rw [Function.update_self]
      congr 1
      · rw [Function.update_of_ne (by omega), Function.update_of_ne (by omega),
          Function.update_of_ne (by omega), Function.update_self]
      · rw [Function.update_of_ne (by omega), Function.update_self,
          Function.update_of_ne (by omega), Function.update_of_ne (by omega)]
    · rw [Function.update_of_ne hic]
      congr 1
      · rw [Function.update_of_ne (by omega), Function.update_of_ne (by omega),
          Function.update_of_ne (by omega), Function.update_of_ne (by omega)]
      · rw [Function.update_of_ne (by omega), Function.update_of_ne (by omega),
          Function.update_of_ne (by omega), Function.update_of_ne (by omega)]

/-- The pass of swaps is one of complex numbers. -/
theorem toComplex_foldl_swapPairs (x : ℕ → ℝ) (table : ℕ → ℕ) (n : ℕ) :
    toComplex ((List.range n).foldl swapPairs (x, table)).1 =
        (swapAll (toComplex x) table n).1 ∧
      ((List.range n).foldl swapPairs (x, table)).2 = (swapAll (toComplex x) table n).2 := by
  unfold swapAll
  induction n with
  | zero => exact ⟨rfl, rfl⟩
  | succ n ih =>
    obtain ⟨hentries, htable⟩ := ih
    rw [List.range_succ, List.foldl_append, List.foldl_append, List.foldl_cons, List.foldl_nil,
      List.foldl_cons, List.foldl_nil]
    generalize (List.range n).foldl swapPairs (x, table) = s at hentries htable ⊢
    generalize (List.range n).foldl swapStep (toComplex x, table) = z at hentries htable ⊢
    unfold swapPairs swapStep
    dsimp only
    rw [← htable, ← hentries]
    by_cases hfix : s.2 n = n
    · rw [if_neg (not_not.mpr hfix), if_pos hfix]
      exact ⟨hentries, htable⟩
    · rw [if_pos hfix, if_neg hfix]
      exact ⟨toComplex_swap s.1 hfix, rfl⟩

/-! ## The butterflies -/

/-- A butterfly adds and subtracts the second number, turned by a power of a root of unity. -/
def Turns (butterfly : Butterfly ℝ) (angles : Angles ℝ) (N : ℕ) (w : ℂ) : Prop :=
  ∀ (C : ℕ) (z₁ z₂ : ℂ),
    let wings := butterfly (angles.cos C N) (angles.sin C N) z₁.re z₁.im z₂.re z₂.im
    (⟨wings.1.1, wings.1.2⟩ : ℂ) = z₁ + w ^ C * z₂ ∧
      (⟨wings.2.1, wings.2.2⟩ : ℂ) = z₁ - w ^ C * z₂

section Network

variable {butterfly : Butterfly ℝ} {angles : Angles ℝ} {q : ℕ} {w : ℂ} {tables : FFTTables ℝ}

/-- One butterfly. -/
theorem toComplex_combine (hturns : Turns butterfly angles (2 ^ (q + 1)) w) (C : ℕ) {s : Wings ℝ}
    {k₁ k₂ : ℕ} (hK1 : s.K1 = 2 * k₁) (hK2 : s.K2 = 2 * k₂) :
    toComplex (combine butterfly (angles.cos C (2 ^ (q + 1))) (angles.sin C (2 ^ (q + 1))) s).x =
      Function.update
        (Function.update (toComplex s.x) k₁ (toComplex s.x k₁ + w ^ C * toComplex s.x k₂)) k₂
        (toComplex s.x k₁ - w ^ C * toComplex s.x k₂) := by
  obtain ⟨hplus, hminus⟩ := hturns C (toComplex s.x k₁) (toComplex s.x k₂)
  unfold combine
  dsimp only
  rw [hK1, hK2, toComplex_setPair, toComplex_setPair]
  rw [← hplus, ← hminus]
  rfl

/-- Some butterflies of a block: entries of its first half are combined with those of its second
half. -/
theorem toComplex_foldl_combine (hturns : Turns butterfly angles (2 ^ (q + 1)) w) (C : ℕ)
    {s : Wings ℝ} {a m : ℕ} (hK1 : s.K1 = 2 * a) (hK2 : s.K2 = 2 * (a + m)) {n : ℕ} (hn : n ≤ m) :
    let s' := (List.range n).foldl (fun s _ =>
      combine butterfly (angles.cos C (2 ^ (q + 1))) (angles.sin C (2 ^ (q + 1))) s) s
    s'.K1 = 2 * (a + n) ∧ s'.K2 = 2 * (a + m + n) ∧
      ∀ i, toComplex s'.x i =
        if a ≤ i ∧ i < a + n then toComplex s.x i + w ^ C * toComplex s.x (i + m)
        else if a + m ≤ i ∧ i < a + m + n then
          toComplex s.x (i - m) - w ^ C * toComplex s.x i
        else toComplex s.x i := by
  induction n with
  | zero =>
    refine ⟨hK1, hK2, fun i => ?_⟩
    rw [if_neg (by omega), if_neg (by omega)]
    rfl
  | succ n ih =>
    obtain ⟨hK1', hK2', hx⟩ := ih (by omega)
    dsimp only
    rw [List.range_succ, List.foldl_append, List.foldl_cons, List.foldl_nil]
    generalize (List.range n).foldl (fun s _ => combine butterfly (angles.cos C (2 ^ (q + 1)))
      (angles.sin C (2 ^ (q + 1))) s) s = s' at hK1' hK2' hx ⊢
    refine ⟨?_, ?_, fun i => ?_⟩
    · show s'.K1 + 2 = _
      omega
    · show s'.K2 + 2 = _
      omega
    · have hfirst := hx (a + n)
      rw [if_neg (by omega), if_neg (by omega)] at hfirst
      have hsecond := hx (a + m + n)
      rw [if_neg (by omega), if_neg (by omega)] at hsecond
      rw [toComplex_combine hturns C hK1' hK2', hfirst, hsecond]
      by_cases hi₂ : i = a + m + n
      · rw [if_neg (by omega), if_pos (by omega), hi₂, Function.update_self,
          show a + m + n - m = a + n by omega]
      · rw [Function.update_of_ne hi₂]
        by_cases hi₁ : i = a + n
        · rw [if_pos (by omega), hi₁, Function.update_self, show a + n + m = a + m + n by omega]
        · rw [Function.update_of_ne hi₁, hx]
          refine if_congr (by omega) rfl (if_congr (by omega) rfl rfl)

/-- Some blocks of a stage: in each of them the halves are combined, and those behind are as they
were. -/
theorem toComplex_foldl_combineBlock (hturns : Turns butterfly angles (2 ^ (q + 1)) w)
    (htables : TablesFor angles q tables) (x : ℕ → ℝ) (m : ℕ) {n : ℕ} (hn : n ≤ 2 ^ q) :
    let s' := (List.range n).foldl (combineBlock butterfly tables m) { x, K1 := 0, K2 := 2 * m }
    s'.K1 = 2 * (2 * m * n) ∧ s'.K2 = 2 * (2 * m * n + m) ∧
      (∀ i, 2 * m * n ≤ i → toComplex s'.x i = toComplex x i) ∧
      ∀ b < n, ∀ s < m,
        toComplex s'.x (2 * m * b + s) =
            toComplex x (2 * m * b + s) +
              w ^ bitReverse q b * toComplex x (2 * m * b + m + s) ∧
          toComplex s'.x (2 * m * b + m + s) =
            toComplex x (2 * m * b + s) -
              w ^ bitReverse q b * toComplex x (2 * m * b + m + s) := by
  induction n with
  | zero =>
    exact ⟨rfl, by simp, fun _ _ => rfl, fun b hb => absurd hb b.not_lt_zero⟩
  | succ n ih =>
    obtain ⟨hK1, hK2, hbehind, hblocks⟩ := ih (by omega)
    dsimp only
    rw [List.range_succ, List.foldl_append, List.foldl_cons, List.foldl_nil]
    generalize (List.range n).foldl (combineBlock butterfly tables m)
      { x, K1 := 0, K2 := 2 * m } = s' at hK1 hK2 hbehind hblocks ⊢
    obtain ⟨-, hK2', hx⟩ := toComplex_foldl_combine hturns (bitReverse q n) hK1 hK2 le_rfl
    unfold combineBlock
    dsimp only
    rw [htables.butter n (by omega), htables.cos _ (bitReverse_lt q n),
      htables.sin _ (bitReverse_lt q n)]
    generalize (List.range m).foldl (fun s _ => combine butterfly
      (angles.cos (bitReverse q n) (2 ^ (q + 1))) (angles.sin (bitReverse q n) (2 ^ (q + 1))) s)
      s' = s'' at hK2' hx ⊢
    refine ⟨by rw [hK2']; ring, by rw [hK2']; ring, fun i hi => ?_, fun b hb s hs => ?_⟩
    · have hlast : 2 * m * (n + 1) = 2 * m * n + m + m := by ring
      rw [hx, if_neg (by omega), if_neg (by omega)]
      exact hbehind i (by omega)
    · rcases Nat.lt_succ_iff_lt_or_eq.mp hb with hbn | rfl
      · -- An earlier block is not touched any more.
        have hbefore : 2 * m * b + 2 * m ≤ 2 * m * n := by
          calc 2 * m * b + 2 * m = 2 * m * (b + 1) := by ring
            _ ≤ 2 * m * n := Nat.mul_le_mul_left _ hbn
        rw [hx, if_neg (by omega), if_neg (by omega), hx, if_neg (by omega), if_neg (by omega)]
        exact hblocks b hbn s hs
      · -- The entries of this block are still those of the array before the stage.
        rw [hx, if_pos (by omega), hx, if_neg (by omega), if_pos (by omega),
          hbehind _ (by omega), hbehind _ (by omega), hbehind _ (by omega), hbehind _ (by omega)]
        have hother : 2 * m * b + s + m = 2 * m * b + m + s := by omega
        have hself : 2 * m * b + m + s - m = 2 * m * b + s := by omega
        rw [hother, hself]
        exact ⟨rfl, rfl⟩

/-- The array before a stage holds the blocks of the network, and what is behind them is as it
was. -/
structure InNetwork (q : ℕ) (w : ℂ) (x : ℕ → ℝ) (t : ℕ) (s : Stage ℝ) : Prop where
  /-- There is a stage for each bit. -/
  le : t ≤ q + 1
  /-- The number of blocks. -/
  Cycle : s.Cycle = 2 ^ t
  /-- Half of the length of a block. -/
  Step : s.Step = 2 ^ (q + 1 - t) / 2
  /-- The entries of the blocks. -/
  blocks : ∀ b < 2 ^ t, ∀ r < 2 ^ (q + 1 - t),
    toComplex s.x (2 ^ (q + 1 - t) * b + r) = blockDft w t (2 ^ (q + 1 - t)) (toComplex x) b r
  /-- The entries behind them. -/
  behind : ∀ i, 2 ^ (q + 1) ≤ i → toComplex s.x i = toComplex x i

/-- The lengths of the blocks before a stage and behind it, and of all of them. -/
theorem stage_lengths {t : ℕ} (ht : t ≤ q) :
    2 ^ (q + 1 - t) = 2 * 2 ^ (q - t) ∧ 2 ^ (q + 1 - (t + 1)) = 2 ^ (q - t) ∧
      2 ^ t * 2 ^ (q - t) = 2 ^ q := by
  refine ⟨?_, ?_, ?_⟩
  · rw [← pow_succ']
    congr 1
    omega
  · congr 1
    omega
  · rw [← pow_add, Nat.add_sub_cancel' ht]

/-- A stage goes on to the next blocks. -/
theorem InNetwork.round (hturns : Turns butterfly angles (2 ^ (q + 1)) w)
    (htables : TablesFor angles q tables) (hw : w ^ 2 ^ q = -1) {x : ℕ → ℝ} {t : ℕ} {s : Stage ℝ}
    (h : InNetwork q w x t s) (hguard : (stages butterfly tables (2 ^ (q + 1))).guard s) :
    InNetwork q w x (t + 1) ((stages butterfly tables (2 ^ (q + 1))).body s) := by
  have ht : t ≤ q := by
    have hlt : 2 ^ t < 2 ^ (q + 1) := h.Cycle ▸ hguard
    exact Nat.lt_succ_iff.mp ((Nat.pow_lt_pow_iff_right one_lt_two).mp hlt)
  obtain ⟨hlength, hnext, hall⟩ := stage_lengths ht
  generalize hm : 2 ^ (q - t) = m at hlength hnext hall
  have hStep : s.Step = m := by
    rw [h.Step, hlength]
    omega
  obtain ⟨-, -, hbehind, hblocks⟩ := toComplex_foldl_combineBlock hturns htables s.x m
    (show 2 ^ t ≤ 2 ^ q from Nat.pow_le_pow_right two_pos ht)
  have hbody : ((stages butterfly tables (2 ^ (q + 1))).body s).x =
      ((List.range (2 ^ t)).foldl (combineBlock butterfly tables m)
        { x := s.x, K1 := 0, K2 := 2 * m }).x := by
    show combineBlocks butterfly tables s.Cycle s.Step s.x = _
    rw [h.Cycle, hStep]
    rfl
  refine ⟨by omega, ?_, ?_, fun b hb r hr => ?_, fun i hi => ?_⟩
  · show 2 * s.Cycle = _
    rw [h.Cycle, pow_succ']
  · show s.Step / 2 = _
    rw [hStep, hnext]
  · rw [hnext] at hr ⊢
    rw [hbody]
    have hb' : b / 2 < 2 ^ t := by
      rw [pow_succ] at hb
      omega
    have hwidth := bitReverse_add_width (q - t) hb'
    rw [hm, Nat.add_sub_cancel' ht, mul_comm] at hwidth
    have hfirst := h.blocks (b / 2) hb' r (by omega)
    have hsecond := h.blocks (b / 2) hb' (r + m) (by omega)
    rw [hlength] at hfirst hsecond
    obtain ⟨hplus, hminus⟩ := hblocks (b / 2) hb' r hr
    have hdouble := blockDft_double (hall ▸ hw) (toComplex x) (b / 2) r (Nat.mod_lt b two_pos)
    rw [Nat.div_add_mod] at hdouble
    rw [hdouble, ← hwidth, ← hfirst, ← hsecond,
      show 2 * m * (b / 2) + (r + m) = 2 * m * (b / 2) + m + r by ring]
    -- The two halves of a block are two blocks of the next stage.
    rcases Nat.mod_two_eq_zero_or_one b with hbit | hbit
    · have hindex : m * b + r = 2 * m * (b / 2) + r := by
        conv_lhs => rw [← Nat.div_add_mod b 2, hbit]
        ring
      rw [hindex, hplus, hbit, pow_zero, one_mul]
    · have hindex : m * b + r = 2 * m * (b / 2) + m + r := by
        conv_lhs => rw [← Nat.div_add_mod b 2, hbit]
        ring
      rw [hindex, hminus, hbit, pow_one]
      ring
  · rw [hbody, hbehind i ?_]
    · exact h.behind i hi
    · calc 2 * m * 2 ^ t = 2 * (2 ^ t * m) := by ring
        _ = 2 ^ (q + 1) := by rw [hall, pow_succ']
        _ ≤ i := hi

/-- Behind all stages the array holds the transform, in the order of reversed bits. -/
theorem stages_dft (hturns : Turns butterfly angles (2 ^ (q + 1)) w)
    (htables : TablesFor angles q tables) (hw : w ^ 2 ^ q = -1) (x : ℕ → ℝ) :
    let network := (stages butterfly tables (2 ^ (q + 1))).run
      { Cycle := 1, Step := 2 ^ (q + 1) / 2, x, Cycle_pos := Nat.one_pos }
    (∀ b < 2 ^ (q + 1), toComplex network.x b =
        dft w (2 ^ (q + 1)) (toComplex x) (bitReverse (q + 1) b)) ∧
      ∀ i, 2 ^ (q + 1) ≤ i → toComplex network.x i = toComplex x i := by
  intro network
  have hstart : InNetwork q w x 0
      { Cycle := 1, Step := 2 ^ (q + 1) / 2, x, Cycle_pos := Nat.one_pos } := by
    refine ⟨by omega, rfl, rfl, fun b hb r hr => ?_, fun i _ => rfl⟩
    have hb0 : b = 0 := by simpa using hb
    rw [blockDft_first, hb0, mul_zero, zero_add]
  obtain ⟨t, ht⟩ := (stages butterfly tables (2 ^ (q + 1))).run_invariant
    (I := fun s => ∃ t, InNetwork q w x t s)
    (fun s hguard ⟨t, h⟩ => ⟨t + 1, h.round hturns htables hw hguard⟩) ⟨0, hstart⟩
  -- The loop ends with the last stage, since the number of blocks doubles up to the size.
  have hover : ¬network.Cycle < 2 ^ (q + 1) :=
    (stages butterfly tables (2 ^ (q + 1))).not_guard_run _
  have hlast : t = q + 1 := by
    have hle := ht.le
    have hcycle : network.Cycle = 2 ^ t := ht.Cycle
    by_contra hne
    exact hover (hcycle ▸ Nat.pow_lt_pow_right one_lt_two (by omega))
  subst hlast
  refine ⟨fun b hb => ?_, ht.behind⟩
  have hblock := ht.blocks b hb 0 (Nat.two_pow_pos _)
  rw [Nat.sub_self, pow_zero, one_mul, add_zero, blockDft_last] at hblock
  exact hblock

/-- A transform with valid tables. -/
theorem toComplex_transform (hturns : Turns butterfly angles (2 ^ (q + 1)) w)
    (hw : w ^ 2 ^ q = -1) {s : FFTState ℝ} (h : Valid angles s) (memory : FFTTables ℝ)
    (x : ℕ → ℝ) (k : ℕ) :
    toComplex (transform butterfly angles memory s x (2 ^ (q + 1))).2 k =
      if k < 2 ^ (q + 1) then dft w (2 ^ (q + 1)) (toComplex x) k else toComplex x k := by
  obtain ⟨-, htables⟩ := FFTInit_tables h memory q
  obtain ⟨hnetwork, hbehind⟩ := stages_dft hturns htables hw x
  unfold transform
  rw [if_pos (Nat.one_lt_two_pow (by omega))]
  dsimp only
  generalize FFTInit angles memory (2 ^ (q + 1)) s = s' at htables hnetwork hbehind ⊢
  generalize (stages butterfly s'.toFFTTables (2 ^ (q + 1))).run
    { Cycle := 1, Step := 2 ^ (q + 1) / 2, x, Cycle_pos := Nat.one_pos } = network
    at hnetwork hbehind ⊢
  have htable : ∀ k < 2 ^ (q + 1), fillBitSwap (2 ^ (q + 1) / 2) s'.FFTButter s'.FFTBitSwap k =
      bitReverse (q + 1) k := fun k hk => fillBitSwap_bitReverse htables hk
  rw [(toComplex_foldl_swapPairs _ _ _).1, swapAll_eq]
  · split
    · rename_i hk
      rw [htable k hk, hnetwork _ (bitReverse_lt _ _), bitReverse_bitReverse hk]
    · rename_i hk
      exact hbehind k (not_lt.mp hk)
  -- Reversing bits is an involution of the first `2 ^ (q + 1)` numbers.
  · intro k hk
    rw [htable k hk]
    exact bitReverse_lt _ _
  · intro k hk
    rw [htable k hk, htable _ (bitReverse_lt _ _), bitReverse_bitReverse hk]

end Network

end TgVoipRate.Dsp
