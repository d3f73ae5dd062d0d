import Mathlib
import TgVoipRate.Pesq.Measure
import TgVoipRate.Pesq.CrudeLag
import TgVoipRate.Pesq.GainSpec
import TgVoipRate.Pesq.SplitAlignSpec
import TgVoipRate.Pesq.TransformsSpec

/-!
# The votes of `time_align` and of `split_align`

`split_align` spreads each vote of a frame over the neighbours of its delay at once, and keeps the
sum of the votes. `time_align` collects the votes and spreads them in the end, by transforms. Both
give the same histogram in exact arithmetic, and so the same delay and confidence for the same
frames (`time_align_eq_firstParts`), as long as the frames are seen through the same window. The
estimates of `split_align` leave its window as it was if no part is longer than 1539 windows of the
activity, about six seconds (`splitWindow_of_short`).
-/

namespace TgVoipRate.Pesq.Acoustic

open Dsp (toComplex root ofReals toComplex_setPairs mulPair mulPair_eq isPrimitiveRoot_root)
open Fourier (dft)
open Loops (Loop)

/-! ## Spreading by transforms -/

section Smooth

variable {num : Numerics ℝ} (hnum : Exact num)

include hnum

/-- The histogram that is transformed back is the circular convolution with the triangle. -/
theorem smoothVotes_eq (q : ℕ) (H : ℕ → ℝ) {i : ℕ} (hi : i < 2 ^ (q + 1)) :
    smoothVotes num (2 ^ (q + 1)) H i = ∑ j ∈ Finset.range (2 ^ (q + 1)),
      H j * triangle (2 ^ (q + 1)) ((2 ^ (q + 1) - j + i) % 2 ^ (q + 1)) := by
  have hN : 2 ^ (q + 1) ≠ 0 := (Nat.two_pow_pos _).ne'
  have hsize : 2 ^ (q + 1) / 2 = 2 ^ q := (Dsp.two_pow_succ_div q).1
  have hcast : ((2 ^ (q + 1) : ℕ) : ℂ) ≠ 0 := Nat.cast_ne_zero.mpr hN
  have hspectrum : ∀ k < 2 ^ (q + 1), wholeSpectrum q
      (Dsp.setPairs (List.range (2 ^ (q + 1) / 2 + 1))
        (mulPair (num.RealFFT H (2 ^ (q + 1)))
          (num.RealFFT (triangle (2 ^ (q + 1))) (2 ^ (q + 1))))
        (num.RealFFT H (2 ^ (q + 1)))) k =
      dft (root (2 ^ (q + 1))) (2 ^ (q + 1)) (ofReals H) k *
        dft (root (2 ^ (q + 1))) (2 ^ (q + 1)) (ofReals (triangle (2 ^ (q + 1)))) k := by
    intro k hk
    refine wholeSpectrum_eq (Z := fun k => dft (root (2 ^ (q + 1))) (2 ^ (q + 1)) (ofReals H) k *
      dft (root (2 ^ (q + 1))) (2 ^ (q + 1)) (ofReals (triangle (2 ^ (q + 1)))) k)
      (fun k hhalf => ?_) (fun k hle => ?_) hk
    · rw [toComplex_setPairs, if_pos (List.mem_range.mpr (by omega)), mulPair_eq,
        hnum.toComplex_RealFFT H q (fun _ _ => rfl) hhalf,
        hnum.toComplex_RealFFT _ q (fun _ _ => rfl) hhalf]
    · rw [Dsp.dft_mirror hN H hle, Dsp.dft_mirror hN (triangle (2 ^ (q + 1))) hle, map_mul]
  unfold smoothVotes
  rw [hnum.RealIFFT_re _ q hi, Dsp.dft_congr hspectrum i,
    Fourier.dft_inv_convolve (isPrimitiveRoot_root hN), mul_div_cancel_left₀ _ hcast]
  unfold ofReals
  rw [show (∑ n ∈ Finset.range (2 ^ (q + 1)), (H n : ℂ) *
      (triangle (2 ^ (q + 1)) ((2 ^ (q + 1) - n + i) % 2 ^ (q + 1)) : ℝ)) =
        ((∑ n ∈ Finset.range (2 ^ (q + 1)), H n *
          triangle (2 ^ (q + 1)) ((2 ^ (q + 1) - n + i) % 2 ^ (q + 1)) : ℝ) : ℂ) by
      push_cast
      rfl, Complex.ofReal_re]

end Smooth

/-! ## Spreading at once -/

/-- The votes, spread by the triangle around each delay. -/
noncomputable def spread (H : ℕ → ℝ) (i : ℕ) : ℝ :=
  ∑ j ∈ Finset.range 1024, H j * triangle 1024 ((1024 - j + i) % 1024)

/-- Adding to some entries, one after the other. -/
theorem foldl_update_add (place : ℕ → ℕ) (value : ℕ → ℝ) (H : ℕ → ℝ) (n i : ℕ) :
    (List.range n).foldl
        (fun H j => Function.update H (place j) (H (place j) + value j)) H i =
      H i + ∑ j ∈ Finset.range n, if place j = i then value j else 0 := by
  induction n with
  | zero => exact (add_zero _).symm
  | succ n ih =>
    rw [List.range_succ, List.foldl_append, List.foldl_cons, List.foldl_nil,
      Finset.sum_range_succ, ← add_assoc]
    by_cases hplace : place n = i
    · rw [hplace, Function.update_self, if_pos rfl, ih]
    · rw [Function.update_of_ne (Ne.symm hplace), if_neg hplace, add_zero, ih]

/-- The triangle, on both sides of zero. -/
theorem triangle_eq {d : ℕ} (hd : d < 1024) :
    16 * (triangle 1024 d : ℝ) =
      if d < 16 then 16 - (d : ℝ) else if 1008 < d then 16 - (1024 - (d : ℝ)) else 0 := by
  have hkernel : 1024 / 64 = 16 := rfl
  unfold triangle
  dsimp only
  rw [hkernel]
  by_cases hzero : d = 0
  · rw [if_pos hzero, if_pos (by omega), hzero]
    norm_num
  rw [if_neg hzero]
  by_cases hright : d < 16
  · rw [if_pos hright, if_pos hright]
    push_cast
    ring
  rw [if_neg hright, if_neg hright]
  by_cases hleft : 1008 < d
  · rw [if_pos (by omega), if_pos hleft, Nat.cast_sub hd.le]
    push_cast
    ring
  · rw [if_neg (by omega), if_neg hleft, mul_zero]

/-- The neighbours of a delay that are spread over. -/
theorem sum_neighbours {count i : ℕ} (hcount : count < 1024) (hi : i < 1024) (n_max : ℝ) :
    (∑ j ∈ Finset.range 31,
      if (((count : ℤ) + (1 - 16 + j) + 1024) % 1024).toNat = i then
        n_max * ((16 - |(1 - 16 + j : ℤ)| : ℤ) : ℝ) else 0) =
      n_max * 16 * triangle 1024 ((1024 - count + i) % 1024) := by
  have hplace : ∀ j : ℕ, j < 31 → ((((count : ℤ) + (1 - 16 + j) + 1024) % 1024).toNat = i ↔
      (1024 - count + i) % 1024 = if j < 15 then 1009 + j else j - 15) := by
    intro j hj
    split <;> omega
  have hd : (1024 - count + i) % 1024 < 1024 := Nat.mod_lt _ (by norm_num)
  rw [mul_assoc, triangle_eq hd,
    Finset.sum_congr rfl fun j hj => if_congr (hplace j (Finset.mem_range.mp hj)) rfl rfl]
  generalize (1024 - count + i) % 1024 = d at hd
  by_cases hright : d < 16
  · have habs : 16 - |(1 - 16 + (d + 15 : ℕ) : ℤ)| = 16 - d := by
      rw [abs_of_nonneg (by omega)]
      omega
    rw [if_pos hright, Finset.sum_eq_single (d + 15)]
    · rw [if_pos (by rw [if_neg (by omega)]; omega), habs]
      push_cast
      rfl
    · intro j _ hj
      exact if_neg (by split <;> omega)
    · exact fun hnot => absurd (Finset.mem_range.mpr (by omega)) hnot
  rw [if_neg hright]
  by_cases hleft : 1008 < d
  · have habs : 16 - |(1 - 16 + (d - 1009 : ℕ) : ℤ)| = 16 - (1024 - d) := by
      rw [abs_of_nonpos (by omega)]
      omega
    rw [if_pos hleft, Finset.sum_eq_single (d - 1009)]
    · rw [if_pos (by rw [if_pos (by omega)]; omega), habs]
      push_cast
      rfl
    · intro j hmem hj
      have hmem := Finset.mem_range.mp hmem
      exact if_neg (by split <;> omega)
    · exact fun hnot => absurd (Finset.mem_range.mpr (by omega)) hnot
  · rw [if_neg hleft, mul_zero]
    refine Finset.sum_eq_zero fun j hj => if_neg ?_
    have hj := Finset.mem_range.mp hj
    split <;> omega

/-- A peak is one vote that is spread. -/
theorem addPeak_eq (n_max : ℝ) (hist : Histogram ℝ) {count i : ℕ} (hcount : count < 1024)
    (hi : i < 1024) :
    (addPeak 1024 16 n_max hist count).H i =
      hist.H i + n_max * 16 * triangle 1024 ((1024 - count + i) % 1024) := by
  have hnumber : (2 * 16 - 1 : ℤ).toNat = 31 := rfl
  unfold addPeak
  dsimp only
  rw [hnumber, bind_pure_comp, List.map_eq_map, List.foldl_map, foldl_update_add,
    sum_neighbours hcount hi]

/-! ## One frame -/

/-- The votes of a frame: its weight, for each delay where the correlation is close to the maximum.
-/
noncomputable def votesOf (root8 : ℝ → ℝ) (X1 : ℕ → ℝ) (count : ℕ) : ℝ :=
  let v_max := (List.range 1024).foldl
    (fun v_max count => if |X1 count| > v_max then |X1 count| else v_max) 0
  let v_max := v_max * (99 / 100)
  if |X1 count| > v_max then root8 v_max else 0

/-- The frame votes. -/
theorem addVotes_eq (root8 : ℝ → ℝ) (X1 : ℕ → ℝ) (hist : Histogram ℝ) {count : ℕ}
    (hcount : count < 1024) :
    (addVotes 1024 root8 X1 hist).H count = hist.H count + votesOf root8 X1 count := by
  have hsize : (1024 : ℤ).toNat = 1024 := rfl
  unfold addVotes votesOf
  dsimp only
  rw [hsize]
  generalize (List.range 1024).foldl
    (fun v_max count => if |X1 count| > v_max then |X1 count| else v_max) 0 * (99 / 100) = v_max
  by_cases hpeak : |X1 count| > v_max
  · rw [if_pos ⟨hcount, hpeak⟩, if_pos hpeak]
  · rw [if_neg fun h => hpeak h.2, if_neg hpeak, add_zero]

/-- The peaks of a frame, up to a delay. -/
theorem foldl_addPeak (X1 : ℕ → ℝ) (v_max n_max : ℝ) (hist : Histogram ℝ) {n : ℕ} (hn : n ≤ 1024) :
    let after := (List.range n).foldl
      (fun hist count => if |X1 count| > v_max then addPeak 1024 16 n_max hist count else hist) hist
    (∀ i < 1024, after.H i = hist.H i + ∑ j ∈ Finset.range n,
      (if |X1 j| > v_max then n_max * 16 else 0) * triangle 1024 ((1024 - j + i) % 1024)) ∧
    after.Hsum = hist.Hsum + ∑ j ∈ Finset.range n, if |X1 j| > v_max then n_max * 16 else 0 := by
  induction n with
  | zero => exact ⟨fun i _ => (add_zero _).symm, (add_zero _).symm⟩
  | succ n ih =>
    obtain ⟨ihH, ihsum⟩ := ih (by omega)
    intro after
    simp only [after, List.range_succ, List.foldl_append, List.foldl_cons, List.foldl_nil,
      Finset.sum_range_succ]
    split
    · refine ⟨fun i hi => ?_, ?_⟩
      · rw [addPeak_eq n_max _ hn hi, ihH i hi]
        ring
      · show _ + n_max * ((16 : ℤ) : ℝ) = _
        rw [ihsum]
        push_cast
        ring
    · refine ⟨fun i hi => ?_, ?_⟩
      · rw [ihH i hi]
        ring
      · rw [ihsum]
        ring

/-- The frame votes, and the votes are spread. -/
theorem addPeaks_eq (root8 : ℝ → ℝ) (X1 : ℕ → ℝ) (hist : Histogram ℝ) :
    (∀ i < 1024, (addPeaks 1024 root8 X1 hist).H i =
      hist.H i + spread (votesOf root8 X1) i) ∧
    (addPeaks 1024 root8 X1 hist).Hsum =
      hist.Hsum + ∑ j ∈ Finset.range 1024, votesOf root8 X1 j := by
  have hsize : (1024 : ℤ).toNat = 1024 := rfl
  have hkernel : (1024 : ℤ).tdiv 64 = 16 := rfl
  have hweight : ∀ v : ℝ, root8 v / ((16 : ℤ) : ℝ) * 16 = root8 v := fun v => by
    push_cast
    ring
  unfold addPeaks spread votesOf
  dsimp only
  rw [hsize, hkernel]
  generalize (List.range 1024).foldl
    (fun v_max count => if |X1 count| > v_max then |X1 count| else v_max) 0 * (99 / 100) = v_max
  have hpeaks := foldl_addPeak X1 v_max (root8 v_max / ((16 : ℤ) : ℝ)) hist le_rfl
  dsimp only at hpeaks
  rw [hweight] at hpeaks
  refine ⟨fun i hi => ?_, ?_⟩
  · rw [hpeaks.1 i hi]
  · rw [hpeaks.2]

/-- The weight of a frame is not negative. -/
theorem votesOf_nonneg {root8 : ℝ → ℝ} (hroot : ∀ v, 0 ≤ v → 0 ≤ root8 v) (X1 : ℕ → ℝ)
    (count : ℕ) : 0 ≤ votesOf root8 X1 count := by
  have hmax : ∀ (counts : List ℕ) (m : ℝ), 0 ≤ m →
      0 ≤ counts.foldl (fun v_max count => if |X1 count| > v_max then |X1 count| else v_max) m := by
    intro counts
    induction counts with
    | nil => exact fun _ h => h
    | cons count counts ih =>
      intro m hm
      apply ih
      dsimp only
      split
      · exact abs_nonneg _
      · exact hm
  unfold votesOf
  dsimp only
  split
  · exact hroot _ (mul_nonneg (hmax _ _ le_rfl) (by norm_num))
  · exact le_rfl

/-! ## All frames -/

/-- The votes are the same, but those of the second histogram are spread. -/
structure SpreadOf (single s : FrameScan ℝ) : Prop where
  startr : s.startr = single.startr
  startd : s.startd = single.startd
  H : ∀ i < 1024, s.hist.H i = spread single.hist.H i
  Hsum : s.hist.Hsum = ∑ j ∈ Finset.range 1024, single.hist.H j
  nonneg : ∀ j < 1024, 0 ≤ single.hist.H j

/-- A histogram without votes. -/
theorem spread_zero (i : ℕ) : spread (fun _ => 0) i = 0 :=
  Finset.sum_eq_zero fun _ _ => zero_mul _

/-- The cleared histogram is the same with spread votes. -/
theorem SpreadOf.clear {s : FrameScan ℝ} (h : s.hist = Histogram.clear) : SpreadOf s s where
  startr := rfl
  startd := rfl
  H i _ := by
    rw [h]
    exact (spread_zero i).symm
  Hsum := by
    rw [h]
    exact Finset.sum_const_zero.symm
  nonneg j _ := by
    rw [h]
    exact le_rfl

/-- Adding some votes adds them spread. -/
theorem spread_add {H H' v : ℕ → ℝ} (h : ∀ j < 1024, H' j = H j + v j) (i : ℕ) :
    spread H' i = spread H i + spread v i := by
  unfold spread
  rw [← Finset.sum_add_distrib]
  refine Finset.sum_congr rfl fun j hj => ?_
  rw [h j (Finset.mem_range.mp hj), add_mul]

section Frames

variable (num : Numerics ℝ) (Window : ℕ → ℝ) (ref deg : Signal ℝ)

/-- The signals with votes that are not spread, as those of `time_align`. -/
noncomputable def singleVotes : AlignSignals ℝ :=
  { windowSignals num Window ref deg with
    vote := fun startr startd => addVotes rate_16k.Align_Nfft (voteWeight num)
      (frameCorrelation num Window rate_16k.Align_Nfft.toNat ref.data deg.data startr startd) }

variable {num} (hnum : Exact num)

include hnum

/-- The weight of a vote is not negative. -/
theorem voteWeight_nonneg {v_max : ℝ} (h : 0 ≤ v_max) : 0 ≤ voteWeight num v_max := by
  unfold voteWeight
  rw [hnum.pow_eq]
  exact Real.rpow_nonneg h _

/-- A frame votes in both histograms. -/
theorem SpreadOf.step {single s : FrameScan ℝ} (h : SpreadOf single s) (hop : ℤ) :
    SpreadOf (addFrame (singleVotes num Window ref deg) hop single)
      (addFrame (windowSignals num Window ref deg) hop s) := by
  have hNfft : rate_16k.Align_Nfft = 1024 := rfl
  set X1 := frameCorrelation num Window rate_16k.Align_Nfft.toNat ref.data deg.data s.startr
    s.startd with hX1
  have hvotes : ∀ j < 1024, (addVotes 1024 (voteWeight num) X1 single.hist).H j =
      single.hist.H j + votesOf (voteWeight num) X1 j :=
    fun j hj => addVotes_eq _ X1 single.hist hj
  have hsingle : (addFrame (singleVotes num Window ref deg) hop single).hist =
      addVotes 1024 (voteWeight num) X1 single.hist := by
    rw [hX1, h.startr, h.startd, ← hNfft]
    rfl
  have hspread : (addFrame (windowSignals num Window ref deg) hop s).hist =
      addPeaks 1024 (voteWeight num) X1 s.hist := by
    rw [hX1, ← hNfft]
    unfold addFrame windowSignals AlignSignals.at_16k
    dsimp only
  obtain ⟨hH, hHsum⟩ := addPeaks_eq (voteWeight num) X1 s.hist
  refine ⟨congrArg (· + hop) h.startr, congrArg (· + hop) h.startd, ?_, ?_, ?_⟩
  · intro i hi
    rw [hspread, hsingle, hH i hi, h.H i hi, spread_add hvotes]
  · rw [hspread, hsingle, hHsum, h.Hsum, ← Finset.sum_add_distrib]
    exact Finset.sum_congr rfl fun j hj => (hvotes j (Finset.mem_range.mp hj)).symm
  · intro j hj
    rw [hsingle, hvotes j hj]
    exact add_nonneg (h.nonneg j hj)
      (votesOf_nonneg (fun _ hv => voteWeight_nonneg hnum hv) _ _)

/-- The frames that are taken forwards vote in both histograms. -/
theorem spreadOf_forwardFrames (Utt_BP Utt_Start estdelay : ℤ) :
    SpreadOf
      ((forwardFrames (singleVotes num Window ref deg) Utt_BP).run
        (forwardStart (singleVotes num Window ref deg) Utt_Start estdelay))
      ((forwardFrames (windowSignals num Window ref deg) Utt_BP).run
        (forwardStart (windowSignals num Window ref deg) Utt_Start estdelay)) := by
  have hstart : forwardStart (singleVotes num Window ref deg) Utt_Start estdelay =
      forwardStart (windowSignals num Window ref deg) Utt_Start estdelay := by
    unfold forwardStart
    rfl
  refine Loop.run_related (R := SpreadOf) (fun s t h => ?_) (fun s t h _ => ?_) _ ?_
  · show (_ ∧ _) ↔ (_ ∧ _)
    rw [h.startr, h.startd]
    rfl
  · have hquarter : (singleVotes num Window ref deg).quarter =
        (windowSignals num Window ref deg).quarter := by
      unfold AlignSignals.quarter singleVotes
      rfl
    show SpreadOf (addFrame _ (singleVotes num Window ref deg).quarter s)
      (addFrame _ (windowSignals num Window ref deg).quarter t)
    rw [hquarter]
    exact h.step Window ref deg hnum _
  · rw [hstart]
    exact SpreadOf.clear (forwardStart_hist _ _ _)

end Frames

/-! ## The peak -/

section Peak

variable {H H' : ℕ → ℝ} {N : ℕ}

/-- Only the entries for the delays matter. -/
theorem histogramPeak_congr (h : ∀ i < N, H i = H' i) : histogramPeak N H = histogramPeak N H' := by
  unfold histogramPeak
  refine List.foldl_ext _ _ _ fun m count hcount => ?_
  rw [h count (List.mem_range.mp hcount)]

/-- The peak of a histogram that is divided by a number. -/
theorem histogramPeak_div {c : ℝ} (hc : 0 < c) :
    histogramPeak N (fun i => H i / c) =
      ((histogramPeak N H).1 / c, (histogramPeak N H).2) := by
  have hscaled : (List.range N).foldl
      (fun m (count : ℕ) => if H count / c > m.1 then (H count / c, (count : ℤ)) else m)
      (0 / c, 0) = ((histogramPeak N H).1 / c, (histogramPeak N H).2) := by
    unfold histogramPeak
    refine @List.foldl_hom _ _ _ (fun m : ℝ × ℤ => (m.1 / c, m.2)) _ _ _ (0, 0) fun m count => ?_
    have hlarger : H count / c > m.1 / c ↔ H count > m.1 := div_lt_div_iff_of_pos_right hc
    by_cases h : H count > m.1
    · rw [if_pos h, if_pos (hlarger.mpr h)]
    · rw [if_neg h, if_neg (mt hlarger.mp h)]
  rwa [zero_div] at hscaled

/-- A histogram without votes has no peak. -/
theorem histogramPeak_of_zero (h : ∀ i < N, H i = 0) : histogramPeak N H = (0, 0) := by
  rcases largest_spec H 0 N with ⟨heq, -⟩ | ⟨i, hi, -, hpos, -⟩
  · exact heq
  · exact absurd (h i hi) hpos.ne'

/-- The peak is at one of the delays, and is not higher than what bounds all of them. -/
theorem histogramPeak_le {bound : ℝ} (hN : 0 < N) (hbound : 0 ≤ bound) (h : ∀ i < N, H i ≤ bound) :
    (histogramPeak N H).1 ≤ bound ∧ (histogramPeak N H).2 ∈ Set.Ico 0 (N : ℤ) := by
  show (largest H 0 N).1 ≤ bound ∧ (largest H 0 N).2 ∈ Set.Ico 0 (N : ℤ)
  rcases largest_spec H 0 N with ⟨heq, -⟩ | ⟨i, hi, heq, -, -⟩
  · rw [heq]
    exact ⟨hbound, le_rfl, by omega⟩
  · rw [heq]
    exact ⟨h i hi, Int.natCast_nonneg i, by omega⟩

end Peak

/-- The triangle is between 0 and 1. -/
theorem triangle_mem (d : ℕ) : (triangle 1024 d : ℝ) ∈ Set.Icc 0 1 := by
  have hkernel : 1024 / 64 = 16 := rfl
  have hstep : ∀ k : ℕ, k < 16 → 1 - (k : ℝ) / (16 : ℕ) ∈ Set.Icc (0 : ℝ) 1 := by
    intro k hk
    have hle : (k : ℝ) ≤ 16 := by exact_mod_cast hk.le
    have hnonneg : (0 : ℝ) ≤ k := Nat.cast_nonneg k
    constructor <;> push_cast <;> linarith
  unfold triangle
  dsimp only
  rw [hkernel]
  split
  · exact ⟨zero_le_one, le_rfl⟩
  split
  · exact hstep _ ‹_›
  split
  · rename_i hleft
    exact hstep _ hleft.2
  · exact ⟨le_rfl, zero_le_one⟩

/-- Spread votes are not negative, and not more than all of them. -/
theorem spread_mem {H : ℕ → ℝ} (h : ∀ j < 1024, 0 ≤ H j) (i : ℕ) :
    spread H i ∈ Set.Icc 0 (∑ j ∈ Finset.range 1024, H j) := by
  constructor
  · exact Finset.sum_nonneg fun j hj =>
      mul_nonneg (h j (Finset.mem_range.mp hj)) (triangle_mem _).1
  · exact Finset.sum_le_sum fun j hj =>
      mul_le_of_le_one_right (h j (Finset.mem_range.mp hj)) (triangle_mem _).2

section Evaluate

variable {num : Numerics ℝ} (ref deg : Signal ℝ) {single s : FrameScan ℝ}

/-- The sum of the votes is not negative, and without it there are none. -/
theorem SpreadOf.Hsum_cases (h : SpreadOf single s) :
    0 < s.hist.Hsum ∨ s.hist.Hsum = 0 ∧ ∀ j < 1024, single.hist.H j = 0 := by
  have hnonneg : ∀ j ∈ Finset.range 1024, 0 ≤ single.hist.H j :=
    fun j hj => h.nonneg j (Finset.mem_range.mp hj)
  rw [h.Hsum]
  rcases (Finset.sum_nonneg hnonneg).lt_or_eq with hpos | hzero
  · exact Or.inl hpos
  · exact Or.inr ⟨hzero.symm, fun j hj =>
      (Finset.sum_eq_zero_iff_of_nonneg hnonneg).mp hzero.symm j (Finset.mem_range.mpr hj)⟩

/-- The peak of the smoothed histogram, divided by the sum, is that of the spread votes. -/
theorem SpreadOf.peak_eq (h : SpreadOf single s) (hnum : Exact num) :
    let Hsum := (List.range 1024).foldl (fun Hsum count => Hsum + single.hist.H count) 0
    histogramPeak 1024
        (fun count => if Hsum > 0 then |smoothVotes num 1024 single.hist.H count| / Hsum else 0) =
      (if s.hist.Hsum > 0 then (histogramPeak 1024 s.hist.H).1 / s.hist.Hsum else 0,
        (histogramPeak 1024 s.hist.H).2) := by
  have hsum : ∀ n : ℕ, (List.range n).foldl (fun Hsum count => Hsum + single.hist.H count) 0 =
      ∑ j ∈ Finset.range n, single.hist.H j := by
    intro n
    induction n with
    | zero => rfl
    | succ n ih =>
      rw [List.range_succ, List.foldl_append, ih, Finset.sum_range_succ, List.foldl_cons,
        List.foldl_nil]
  have hsmooth : ∀ i < 1024, |smoothVotes num 1024 single.hist.H i| = s.hist.H i := by
    intro i hi
    rw [h.H i hi, ← abs_of_nonneg (spread_mem h.nonneg i).1]
    exact congrArg _ (smoothVotes_eq hnum 9 single.hist.H hi)
  dsimp only
  rw [hsum, ← h.Hsum]
  rcases h.Hsum_cases with hpos | ⟨hzero, hnone⟩
  · simp only [if_pos hpos]
    rw [← histogramPeak_div hpos]
    exact histogramPeak_congr fun i hi => by rw [hsmooth i hi]
  · have hflat : ∀ i < 1024, s.hist.H i = 0 := by
      intro i hi
      rw [h.H i hi]
      exact Finset.sum_eq_zero fun j hj => by rw [hnone j (Finset.mem_range.mp hj), zero_mul]
    have hnot : ¬s.hist.Hsum > 0 := hzero.symm ▸ lt_irrefl _
    simp only [if_neg hnot]
    rw [histogramPeak_of_zero fun _ _ => rfl, histogramPeak_of_zero hflat]

end Evaluate

/-! ## The two functions -/

section Agree

variable (num : Numerics ℝ) (hnum : Exact num) (ref deg : Signal ℝ) (err : ErrorInfo ℝ) (Utt_id : ℤ)

include hnum

omit hnum in
/-- `time_align` finds what some votes say if its histogram has the peak of theirs. -/
theorem time_align_of_peak {tr : Transforms ℝ} {sig : AlignSignals ℝ} {s : FrameScan ℝ} {H : ℕ → ℝ}
    (hH : ((forwardFrames { sig with vote := tr.vote } (err.UttSearch_End Utt_id)).run
      (forwardStart { sig with vote := tr.vote } (err.UttSearch_Start Utt_id)
        (err.Utt_DelayEst Utt_id))).hist.H = H)
    (hpeak : let Nfft := sig.rate.Align_Nfft
      let Hsum := (List.range Nfft.toNat).foldl (fun Hsum count => Hsum + H count) 0
      histogramPeak Nfft.toNat
          (fun count => if Hsum > 0 then |tr.smooth H count| / Hsum else 0) =
        (if s.hist.Hsum > 0 then (histogramPeak Nfft.toNat s.hist.H).1 / s.hist.Hsum else 0,
          (histogramPeak Nfft.toNat s.hist.H).2)) :
    time_align tr sig err Utt_id =
      ((evaluate sig (err.Utt_DelayEst Utt_id) s).D,
        (evaluate sig (err.Utt_DelayEst Utt_id) s).DC) := by
  unfold time_align evaluate
  dsimp only at hpeak ⊢
  rw [hH, hpeak]

/-- `time_align` finds what the spread votes of its frames say. -/
theorem time_align_eq :
    let sig := alignSignals num ref deg
    let part := evaluate sig (err.Utt_DelayEst Utt_id)
      ((forwardFrames sig (err.UttSearch_End Utt_id)).run
        (forwardStart sig (err.UttSearch_Start Utt_id) (err.Utt_DelayEst Utt_id)))
    time_align (transforms num ref deg) sig err Utt_id = (part.D, part.DC) := by
  have hNfft : rate_16k.Align_Nfft.toNat = 1024 := rfl
  have hpeak := (spreadOf_forwardFrames (alignWindow num) ref deg hnum (err.UttSearch_End Utt_id)
    (err.UttSearch_Start Utt_id) (err.Utt_DelayEst Utt_id)).peak_eq hnum
  rw [← hNfft] at hpeak
  exact time_align_of_peak err Utt_id rfl hpeak

omit hnum in
/-- A correlation that is not longer than what is in front of the window leaves the window. -/
theorem overwrite_of_short (tr : Transforms ℝ) {r : CrudeRange} (hlength : r.nr + r.nd ≤ 3079)
    (Window : ℕ → ℝ) : overwrite tr r Window = Window := by
  have hNfft : rate_16k.Align_Nfft.toNat = 1024 := rfl
  funext count
  unfold overwrite
  dsimp only
  rw [hNfft, if_neg]
  rintro ⟨-, hin⟩
  unfold CrudeRange.length at hin
  omega

omit hnum in
/-- The windows that an estimate of `split_align` correlates. -/
theorem crudeRange_testTables (sig : Signals ℝ) (Utt_DelayEst Start End : ℤ) :
    crudeRange sig (testTables err Utt_DelayEst Start End) MAXNUTTERANCES =
      shiftedRange sig.rate.Downsample sig.deg_Nsamples Start End Utt_DelayEst := by
  have hslot : MAXNUTTERANCES - 1 = Utt_Test := rfl
  unfold crudeRange testTables
  rw [if_neg (by decide), if_pos rfl, hslot]
  simp only [Function.update_self]

omit hnum in
/-- There are not more of them than the part has. -/
theorem shiftedRange_le (deg_Nsamples Start End DelayEst : ℤ) :
    (shiftedRange 64 deg_Nsamples Start End DelayEst).nr ≤ End - Start ∧
      (shiftedRange 64 deg_Nsamples Start End DelayEst).nd ≤
        (shiftedRange 64 deg_Nsamples Start End DelayEst).nr := by
  unfold shiftedRange
  dsimp only
  rw [Int.neg_tdiv]
  split_ifs <;> omega

/-- No part of an utterance is longer than 1539 windows. -/
def ShortParts (a : SplitArgs ℝ) : Prop :=
  ∀ Utt_BP ∈ breakpoints rate_16k a, Utt_BP - a.Utt_Start ≤ 1539 ∧ a.Utt_End - Utt_BP ≤ 1539

omit hnum in
/-- For short parts the estimates leave the window as it was filled. -/
theorem splitWindow_of_short {a : SplitArgs ℝ} (hshort : ShortParts a) (tr : Transforms ℝ)
    {sig : Signals ℝ} (hrate : sig.rate = rate_16k) (Window : ℕ → ℝ) :
    splitWindow tr sig err a Window = Window := by
  have hDownsample : rate_16k.Downsample = 64 := rfl
  have hkeep (Start End : ℤ) (h : End - Start ≤ 1539) : ∀ Window : ℕ → ℝ,
      overwrite tr (crudeRange sig (testTables err a.Utt_DelayEst Start End) MAXNUTTERANCES)
        Window = Window := by
    rw [crudeRange_testTables, hrate, hDownsample]
    obtain ⟨hnr, hnd⟩ := shiftedRange_le sig.deg_Nsamples Start End a.Utt_DelayEst
    exact overwrite_of_short tr (by omega)
  unfold splitWindow
  dsimp only
  refine (List.foldl_ext _ (fun Window _ => Window) Window fun Window Utt_BP hUtt_BP => ?_).trans
    (List.foldl_fixed _)
  rw [hrate] at hUtt_BP
  obtain ⟨hfirst, hsecond⟩ := hshort Utt_BP hUtt_BP
  rw [hkeep _ _ hfirst, hkeep _ _ hsecond]

/-- For an utterance `time_align` finds what the first pass of `split_align` finds for a part with
the same ends and the same estimated delay, if the parts are short: the votes that are spread at
once, in a histogram that may be shared with other parts, say the same as the votes that are
smoothed by transforms. -/
theorem time_align_eq_firstParts {a : SplitArgs ℝ} (hlong : 2 ≤ a.Utt_Len) (hshort : ShortParts a)
    (tables : ErrorInfo ℝ) (unset : Unset) {Utt_ED1 Utt_ED2 : ℕ → ℤ} {bp : ℕ}
    (hbp : bp < (breakpoints rate_16k a).length)
    (hstart : err.UttSearch_Start Utt_id = a.Utt_Start)
    (hend : err.UttSearch_End Utt_id = breakpointAt rate_16k a bp)
    (hED1 : err.Utt_DelayEst Utt_id = Utt_ED1 bp) :
    let sig := splitSignals num ref deg tables a
    let part := (alignPoints sig unset a Utt_ED1 Utt_ED2).first bp
    time_align (transforms num ref deg) (alignSignals num ref deg) err Utt_id =
      (part.D, part.DC) := by
  have hwhole : splitSignals num ref deg tables a = alignSignals num ref deg := by
    unfold splitSignals
    dsimp only
    rw [splitWindow_of_short tables hshort _ rfl]
    rfl
  have halone := alignPoints_first (alignSignals num ref deg) unset hlong Utt_ED1 Utt_ED2 hbp
  have hrate : (alignSignals num ref deg).rate = rate_16k := rfl
  rw [hrate] at halone
  dsimp only
  rw [hwhole, halone, time_align_eq num hnum, hstart, hend, hED1]

end Agree

/-- An utterance of a second, all of it speech. -/
def oneSecond : SplitArgs ℝ where
  Utt_Start := 75
  Utt_SpeechStart := 75
  Utt_SpeechEnd := 325
  Utt_End := 325
  Utt_DelayEst := 0
  Utt_DelayConf := 0

/-- The part before its first point, and an utterance that ends there. -/
theorem time_align_eq_firstParts_short :
    let err := { ErrorInfo.zero (𝕜 := ℝ) with
      UttSearch_Start := fun _ => 75
      UttSearch_End := fun _ => 150 }
    let sig := splitSignals realNumerics click click err oneSecond
    let unset : Unset := ⟨fun _ => 0, fun _ => 0, fun _ => 0, fun _ => 0⟩
    let part := (alignPoints sig unset oneSecond (fun _ => 0) (fun _ => 0)).first 0
    time_align (transforms realNumerics click click) (alignSignals realNumerics click click) err 0 =
      (part.D, part.DC) := by
  have hshort : ShortParts oneSecond := by
    unfold ShortParts
    decide
  exact time_align_eq_firstParts realNumerics exact_realNumerics click click
    { ErrorInfo.zero with
      UttSearch_Start := fun _ => 75
      UttSearch_End := fun _ => 150 } 0 (by decide) hshort _ _ (by decide) rfl (by decide) rfl

end TgVoipRate.Pesq.Acoustic
