import Mathlib

/-!
# Causal filters

A linear filter that starts empty multiplies the series of its samples by a series of its own, its
transfer function. It is causal: an entry of a product depends on the entries up to it alone
(`coeff_mul_congr`), so a filter may be given finitely many samples, and its first outputs do not
depend on what comes later. Filters in a row are one filter, whose transfer function is the product
of theirs (`foldl_filterBy`).
-/

namespace Causal

open PowerSeries (coeff mk)

variable {ι R : Type*} [CommRing R]

/-- The series of some samples, with zeros behind them. -/
noncomputable def series (xs : List R) : PowerSeries R := mk fun i => xs.getD i 0

/-- What a filter makes of some samples. -/
noncomputable def filterBy (transfer : PowerSeries R) (xs : List R) : List R :=
  (List.range xs.length).map fun i => coeff i (transfer * series xs)

/-- A filter gives as many samples as it is given. -/
@[simp] theorem length_filterBy (transfer : PowerSeries R) (xs : List R) :
    (filterBy transfer xs).length = xs.length := by
  rw [filterBy, List.length_map, List.length_range]

/-- A sample that a filter gives. -/
theorem getD_filterBy (transfer : PowerSeries R) {xs : List R} {i : ℕ} (hi : i < xs.length) :
    (filterBy transfer xs).getD i 0 = coeff i (transfer * series xs) := by
  have hlength : i < (filterBy transfer xs).length := by rwa [length_filterBy]
  rw [List.getD_eq_getElem _ _ hlength]
  simp only [filterBy, List.getElem_map, List.getElem_range]

/-- An entry of a product depends on the entries up to it. -/
theorem coeff_mul_congr (S : PowerSeries R) {T T' : PowerSeries R} {n : ℕ}
    (h : ∀ i ≤ n, coeff i T = coeff i T') : coeff n (S * T) = coeff n (S * T') := by
  rw [PowerSeries.coeff_mul, PowerSeries.coeff_mul]
  refine Finset.sum_congr rfl fun ij hij => ?_
  have hle : ij.2 ≤ n := by
    have hsum := Finset.HasAntidiagonal.mem_antidiagonal.mp hij
    omega
  rw [h ij.2 hle]

/-- The series of what a filter gives is a product, as far as there are samples. -/
theorem coeff_series_filterBy (transfer : PowerSeries R) {xs : List R} {i : ℕ}
    (hi : i < xs.length) :
    coeff i (series (filterBy transfer xs)) = coeff i (transfer * series xs) := by
  rw [series, PowerSeries.coeff_mk, getD_filterBy transfer hi]

/-- A filter behind another one. -/
theorem filterBy_filterBy (S T : PowerSeries R) (xs : List R) :
    filterBy S (filterBy T xs) = filterBy (S * T) xs := by
  unfold filterBy
  rw [List.length_map, List.length_range]
  refine List.map_congr_left fun i hi => ?_
  have hlt := List.mem_range.mp hi
  rw [mul_assoc]
  exact coeff_mul_congr S fun j hj => coeff_series_filterBy T (by omega)

/-- The filter that changes nothing. -/
theorem filterBy_one (xs : List R) : filterBy 1 xs = xs := by
  refine List.ext_getElem (length_filterBy 1 xs) fun i hi _ => ?_
  have hlt : i < xs.length := by rwa [length_filterBy] at hi
  have hvalue := getD_filterBy 1 hlt
  rw [one_mul, series, PowerSeries.coeff_mk, List.getD_eq_getElem _ _ hi,
    List.getD_eq_getElem _ _ hlt] at hvalue
  exact hvalue

/-- A multiple of the samples is filtered to the same multiple. -/
theorem filterBy_map_mul (transfer : PowerSeries R) (c : R) (xs : List R) :
    filterBy transfer (xs.map (c * ·)) = (filterBy transfer xs).map (c * ·) := by
  have hseries : series (xs.map (c * ·)) = PowerSeries.C c * series xs := by
    ext i
    rw [PowerSeries.coeff_C_mul, series, series, PowerSeries.coeff_mk, PowerSeries.coeff_mk]
    have hmap := List.getD_map (l := xs) (d := 0) (n := i) (c * ·)
    rwa [mul_zero] at hmap
  unfold filterBy
  rw [List.length_map, List.map_map]
  refine List.map_congr_left fun i _ => ?_
  rw [hseries, mul_left_comm, PowerSeries.coeff_C_mul]
  rfl

/-- Filters in a row are one filter. -/
theorem foldl_filterBy (transfer : ι → PowerSeries R) (order : List ι) (xs : List R) :
    order.foldl (fun ys i => filterBy (transfer i) ys) xs =
      filterBy (order.map transfer).prod xs := by
  induction order generalizing xs with
  | nil => exact (filterBy_one xs).symm
  | cons i order ih =>
    rw [List.foldl_cons, ih, filterBy_filterBy, List.map_cons, List.prod_cons, mul_comm]

end Causal
