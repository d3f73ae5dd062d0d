import Mathlib
import TgVoipRate.Dsp.IirSpec
import TgVoipRate.Lib.Causal

/-!
# The transfer functions of `IIRFilt`

A section of `IIRFilt` that starts with an empty delay line has the transfer function
`(b0 + b1 X + b2 X²) / (1 + a1 X + a2 X²)`, and the sections in a row that of all of them together
(`IIRFilt_transfer`). So the filter is linear, and its sections may stand in any order
(`IIRFilt_order`).
-/

namespace TgVoipRate.Dsp

open Causal (series filterBy foldl_filterBy)
open PowerSeries (coeff X C)
open Stages (run)

variable {𝕜 : Type*} [Field 𝕜]

/-! ## One section -/

/-- A polynomial of degree two. -/
noncomputable def quadratic (a b c : 𝕜) : PowerSeries 𝕜 := C a + C b * X + C c * X ^ 2

/-- The numerator and the denominator of the transfer function. -/
noncomputable def Sos.zeros (c : Sos 𝕜) : PowerSeries 𝕜 := quadratic c.b0 c.b1 c.b2
noncomputable def Sos.poles (c : Sos 𝕜) : PowerSeries 𝕜 := quadratic 1 c.a1 c.a2

/-- The transfer function of a section. -/
noncomputable def Sos.transfer (c : Sos 𝕜) : PowerSeries 𝕜 := c.zeros * c.poles⁻¹

/-- An entry of a series, a number of places before. -/
noncomputable def before (W : PowerSeries 𝕜) (d n : ℕ) : 𝕜 := if d ≤ n then coeff (n - d) W else 0

/-- An entry of a product with a polynomial of degree two. -/
theorem coeff_quadratic_mul (a b c : 𝕜) (W : PowerSeries 𝕜) (n : ℕ) :
    coeff n (quadratic a b c * W) = a * coeff n W + b * before W 1 n + c * before W 2 n := by
  have hX : X * W = X ^ 1 * W := by rw [pow_one]
  unfold quadratic before
  rw [add_mul, add_mul, mul_assoc, mul_assoc, hX, map_add, map_add, PowerSeries.coeff_C_mul,
    PowerSeries.coeff_C_mul, PowerSeries.coeff_C_mul, PowerSeries.coeff_X_pow_mul',
    PowerSeries.coeff_X_pow_mul']

/-- The denominator is invertible. -/
theorem Sos.poles_mul_inv (c : Sos 𝕜) : c.poles * c.poles⁻¹ = 1 := by
  refine PowerSeries.mul_inv_cancel _ ?_
  simp [Sos.poles, quadratic]

/-- The delay line before a sample, for the series of all its values. -/
noncomputable def delaysOf (W : PowerSeries 𝕜) (i : ℕ) : Delays 𝕜 :=
  { z1 := before W 1 i, z2 := before W 2 i }

/-- The next delay line. -/
theorem delaysOf_succ (W : PowerSeries 𝕜) (i : ℕ) :
    delaysOf W (i + 1) = { z1 := coeff i W, z2 := (delaysOf W i).z1 } := by
  have hone : before W 1 (i + 1) = coeff i W := if_pos (by omega)
  have htwo : before W 2 (i + 1) = before W 1 i := by
    unfold before
    by_cases hi : 1 ≤ i
    · rw [if_pos (by omega), if_pos hi]
      rfl
    · rw [if_neg (by omega), if_neg hi]
  unfold delaysOf
  rw [hone, htwo]

/-- The rounds of the recurrence from a sample on: the values of the delay line are the entries of a
series whose product with the denominator gives the samples. -/
theorem run_generalRound (c : Sos 𝕜) (W : PowerSeries 𝕜) (xs : List 𝕜) (i : ℕ)
    (hxs : ∀ j, (hj : j < xs.length) → coeff (i + j) (c.poles * W) = xs.get ⟨j, hj⟩) :
    (run (generalRound c) (delaysOf W i) xs).1 =
      (List.range xs.length).map fun j => coeff (i + j) (c.zeros * W) := by
  induction xs generalizing i with
  | nil => rfl
  | cons x xs ih =>
    have hx : x - c.a1 * (delaysOf W i).z1 - c.a2 * (delaysOf W i).z2 = coeff i W := by
      have hfirst := hxs 0 (Nat.succ_pos _)
      rw [add_zero, Sos.poles, coeff_quadratic_mul] at hfirst
      show x - c.a1 * before W 1 i - c.a2 * before W 2 i = coeff i W
      rw [← show (x :: xs).get ⟨0, Nat.succ_pos _⟩ = x from rfl, ← hfirst]
      ring
    have hround : generalRound c (delaysOf W i) x =
        (coeff i (c.zeros * W), delaysOf W (i + 1)) := by
      unfold generalRound
      dsimp only
      rw [hx, delaysOf_succ, Sos.zeros, coeff_quadratic_mul]
      rfl
    have hrest := ih (i + 1) fun j hj => by
      rw [Nat.add_right_comm, Nat.add_assoc]
      exact hxs (j + 1) (Nat.succ_lt_succ hj)
    rw [Stages.run_cons, hround, hrest, List.length_cons, List.range_succ_eq_map, List.map_cons,
      List.map_map, add_zero]
    refine congrArg (List.cons _) (List.map_congr_left fun j _ => ?_)
    rw [Function.comp_apply, Nat.succ_eq_add_one, Nat.add_right_comm, Nat.add_assoc]

/-- A section that starts with an empty delay line filters by its transfer function. -/
theorem general_eq_filterBy (c : Sos 𝕜) (xs : List 𝕜) :
    (general c { z1 := 0, z2 := 0 } xs).1 = filterBy c.transfer xs := by
  have hpoles : c.poles * (c.poles⁻¹ * series xs) = series xs := by
    rw [← mul_assoc, c.poles_mul_inv, one_mul]
  have hempty : delaysOf (c.poles⁻¹ * series xs) 0 = { z1 := 0, z2 := 0 } := rfl
  have hrun := run_generalRound c (c.poles⁻¹ * series xs) xs 0 fun j hj => by
    rw [hpoles, zero_add, series, PowerSeries.coeff_mk, List.getD_eq_getElem _ _ hj]
    rfl
  rw [hempty] at hrun
  rw [general, hrun, filterBy, Sos.transfer]
  refine List.map_congr_left fun j _ => ?_
  rw [zero_add, mul_assoc]

/-! ## Sections in a row -/

variable [DecidableEq 𝕜]

/-- A section in a row without an array for its delay line. -/
theorem filterSection_eq_filterBy (h : ℕ → 𝕜) (y : List 𝕜) (Section : ℕ) :
    filterSection h { y, z := none } Section =
      { y := filterBy (sosAt h Section).transfer y, z := none } := by
  unfold filterSection IIRsos
  dsimp only [Option.getD_none]
  rw [sosLoops_eq, ← general_eq_filterBy]

/-- Some sections in a row. -/
theorem foldl_filterSection_eq (h : ℕ → 𝕜) (order : List ℕ) (y : List 𝕜) :
    order.foldl (filterSection h) { y, z := none } =
      { y := order.foldl (fun ys Section => filterBy (sosAt h Section).transfer ys) y,
        z := none } := by
  induction order generalizing y with
  | nil => rfl
  | cons Section order ih =>
    rw [List.foldl_cons, filterSection_eq_filterBy, ih, List.foldl_cons]

/-- The transfer function of the first sections of an array. -/
noncomputable def transferOf (h : ℕ → 𝕜) (Nsos : ℕ) : PowerSeries 𝕜 :=
  ((List.range Nsos).map fun Section => (sosAt h Section).transfer).prod

/-- `IIRFilt` from empty delay lines filters by the product of the transfer functions of its
sections, in place or not. -/
theorem IIRFilt_eq_filterBy (h : ℕ → 𝕜) (Nsos : ℕ) (x : List 𝕜) (y : Option (List 𝕜)) :
    (IIRFilt h Nsos none x y).samples = filterBy (transferOf h Nsos) x := by
  unfold IIRFilt FiltResult.samples transferOf
  rw [foldl_filterSection_eq, foldl_filterBy]
  cases y <;> rfl

/-- Each sample that `IIRFilt` gives from empty delay lines is an entry of the product of the series
of the samples with the transfer functions of the sections. -/
theorem IIRFilt_transfer (h : ℕ → 𝕜) (Nsos : ℕ) (x : List 𝕜) (y : Option (List 𝕜)) :
    (IIRFilt h Nsos none x y).samples.length = x.length ∧
    ∀ i < x.length, (IIRFilt h Nsos none x y).samples.getD i 0 =
      coeff i (((List.range Nsos).map fun Section =>
          quadratic (h (5 * Section)) (h (5 * Section + 1)) (h (5 * Section + 2)) *
            (quadratic 1 (h (5 * Section + 3)) (h (5 * Section + 4)))⁻¹).prod *
        PowerSeries.mk fun k => x.getD k 0) := by
  rw [IIRFilt_eq_filterBy]
  exact ⟨Causal.length_filterBy _ _, fun i hi => Causal.getD_filterBy _ hi⟩

/-- From empty delay lines, `IIRFilt` gives the same samples for its sections in any order. -/
theorem IIRFilt_order (h h' : ℕ → 𝕜) (Nsos : ℕ)
    (hperm : ((List.range Nsos).map (sosAt h)).Perm ((List.range Nsos).map (sosAt h')))
    (x : List 𝕜) (y : Option (List 𝕜)) :
    (IIRFilt h Nsos none x y).samples = (IIRFilt h' Nsos none x y).samples := by
  have htransfer (h : ℕ → 𝕜) :
      transferOf h Nsos = (((List.range Nsos).map (sosAt h)).map Sos.transfer).prod := by
    unfold transferOf
    rw [List.map_map]
    rfl
  rw [IIRFilt_eq_filterBy, IIRFilt_eq_filterBy, htransfer, htransfer,
    (hperm.map Sos.transfer).prod_eq]

/-- The sections of two arrays, in opposite orders. -/
def ascending (i : ℕ) : ℚ := i
def exchanged (i : ℕ) : ℚ := ((i + 5) % 10 : ℕ)

/-- Their filters give the same samples. -/
theorem IIRFilt_order_exchanged :
    (IIRFilt ascending 2 none [1, 2] none).samples =
      (IIRFilt exchanged 2 none [1, 2] none).samples :=
  IIRFilt_order ascending exchanged 2
    (List.Perm.swap (sosAt ascending 1) (sosAt ascending 0) []) [1, 2] none

end TgVoipRate.Dsp
