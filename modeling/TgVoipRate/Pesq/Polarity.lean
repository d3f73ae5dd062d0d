import Mathlib
import TgVoipRate.Dsp.Transfer
import TgVoipRate.Pesq.LevelSpec
import TgVoipRate.Pesq.Measure

/-!
# Signs of the signals in the alignment

Filters are linear, so they keep the sign of a signal (`listen_amplify`, `input_filter_amplify`).
The activity of a signal is computed from squares, and the votes of two frames from the absolute
values of their correlation. So for signals with other signs the same utterances are found
(`findUtterances_amplify`).
-/

namespace TgVoipRate.Pesq.Acoustic

open Dsp (toComplex toComplex_setPairs)

/-! ## Filters -/

/-- A factor for one sample. -/
theorem scaleAt_amplify (c : ℝ) (data : ℤ → ℝ) (i : ℤ) (factor : ℝ) :
    scaleAt (amplify c data) i factor = amplify c (scaleAt data i factor) := by
  funext j
  unfold scaleAt amplify
  rw [Function.update_apply, Function.update_apply]
  split
  · exact mul_assoc _ _ _
  · rfl

/-- A recursive filter. -/
theorem filterSamples_amplify (iir : Sections ℝ) (start : ℤ) (n : ℕ) (c : ℝ) (data : ℤ → ℝ) :
    filterSamples iir start n (amplify c data) = amplify c (filterSamples iir start n data) := by
  funext i
  have hsamples (x : List ℝ) : (Dsp.IIRFilt iir.Hsos iir.Nsos none x none).x =
      Causal.filterBy (Dsp.transferOf iir.Hsos iir.Nsos) x :=
    Dsp.IIRFilt_eq_filterBy iir.Hsos iir.Nsos x none
  have hinput : (List.range n).map (fun k : ℕ => amplify c data (start + k)) =
      ((List.range n).map fun k : ℕ => data (start + k)).map (c * ·) := by
    rw [List.map_map]
    rfl
  unfold filterSamples
  dsimp only
  rw [hinput, hsamples, hsamples, Causal.filterBy_map_mul]
  generalize Causal.filterBy (Dsp.transferOf iir.Hsos iir.Nsos) _ = y
  have hentry : (y.map (c * ·)).getD (i - start).toNat 0 = c * y.getD (i - start).toNat 0 := by
    have hmap := List.getD_map (l := y) (d := 0) (n := (i - start).toNat) (c * ·)
    rwa [mul_zero] at hmap
  unfold amplify
  by_cases hin : start ≤ i ∧ i < start + n
  · simp only [if_pos hin, hentry]
  · simp only [if_neg hin]

variable {num : Numerics ℝ}

/-- The filter of the listener. -/
theorem listen_amplify (hnum : Exact num) {rate : Rate} {n : ℤ} (hlong : 2 ≤ filteredLength rate n)
    (input_filter : ℤ) (c : ℝ) (data : ℤ → ℝ) :
    listen num rate input_filter n (amplify c data) =
      amplify c (listen num rate input_filter n data) := by
  have hfade : ∀ data i, fadeEnd rate n (amplify c data) i = amplify c (fadeEnd rate n data i) := by
    intro data i
    unfold fadeEnd
    dsimp only
    rw [scaleAt_amplify, scaleAt_amplify]
  unfold listen
  split
  · exact apply_filter_amplify hnum hlong _ c data
  · rw [List.foldl_hom (amplify c) hfade, filterSamples_amplify]

/-- The mean. -/
theorem meanOf_amplify (rate : Rate) (c : ℝ) (data : ℤ → ℝ) (Nsamples : ℤ) :
    meanOf rate (amplify c data) Nsamples = c * meanOf rate data Nsamples := by
  unfold meanOf amplify
  rw [← Finset.mul_sum, mul_div_assoc]

/-- Taking out the mean and fading. -/
theorem DC_block_amplify (rate : Rate) (c : ℝ) (data : ℤ → ℝ) (Nsamples : ℤ) :
    DC_block rate (amplify c data) Nsamples = amplify c (DC_block rate data Nsamples) := by
  have hmean : (fun i => if rate.buffer ≤ i ∧ i < Nsamples - rate.buffer then
        amplify c data i - meanOf rate (amplify c data) Nsamples else amplify c data i) =
      amplify c fun i => if rate.buffer ≤ i ∧ i < Nsamples - rate.buffer then
        data i - meanOf rate data Nsamples else data i := by
    funext i
    rw [meanOf_amplify]
    unfold amplify
    by_cases hin : rate.buffer ≤ i ∧ i < Nsamples - rate.buffer
    · simp only [if_pos hin]
      ring
    · simp only [if_neg hin]
  unfold DC_block
  dsimp only
  rw [hmean, List.foldl_hom (amplify c) fun data i => scaleAt_amplify c data _ _,
    List.foldl_hom (amplify c) fun data i => scaleAt_amplify c data _ _]

/-- The filter before the alignment. -/
theorem input_filter_amplify (rate : Rate) (c : ℝ) (data : ℤ → ℝ) (Nsamples : ℤ) :
    input_filter rate (amplify c data) Nsamples =
      amplify c (input_filter rate data Nsamples) := by
  unfold input_filter apply_filters
  rw [DC_block_amplify, filterSamples_amplify]

/-! ## Alignment -/

/-- A signal with a gain. -/
def Signal.amplify (c : ℝ) (sig : Signal ℝ) : Signal ℝ :=
  { sig with data := Acoustic.amplify c sig.data }

/-- A sign does not change a square. -/
theorem sign_mul_sq {s : ℝ} (hs : s * s = 1) (x : ℝ) : (s * x) ^ 2 = x ^ 2 := by
  rw [mul_pow, pow_two s, hs, one_mul]

/-- A sign does not change an absolute value. -/
theorem abs_sign_mul {s : ℝ} (hs : s * s = 1) (x : ℝ) : |s * x| = |x| :=
  (sq_eq_sq_iff_abs_eq_abs _ _).mp (sign_mul_sq hs x)

/-- The activity does not depend on the sign. -/
theorem calc_VAD_amplify (num : Numerics ℝ) {s : ℝ} (hs : s * s = 1) (sig : Signal ℝ) :
    calc_VAD num (sig.amplify s) = calc_VAD num sig := by
  have henergy : windowEnergy rate_16k.Downsample.toNat
        (fun i : ℕ => (sig.amplify s).data i) =
      windowEnergy rate_16k.Downsample.toNat fun i : ℕ => sig.data i := by
    funext count
    refine congrArg (· / _) (Finset.sum_congr rfl fun k _ => ?_)
    exact sign_mul_sq hs _
  unfold calc_VAD apply_VAD
  rw [henergy]
  rfl

/-- A frame of a signal with a gain. -/
theorem frameWindow_amplify (Window : ℕ → ℝ) (N : ℕ) (c : ℝ) (data : ℤ → ℝ) (start : ℤ)
    (count : ℕ) : frameWindow Window N (amplify c data) start count =
      c * frameWindow Window N data start count := by
  unfold frameWindow amplify
  split
  · exact mul_assoc _ _ _
  · exact (mul_zero c).symm

/-- The product with a conjugate, of numbers in arrays. -/
theorem mulConjPair_eq (x y : ℕ → ℝ) (k : ℕ) :
    (⟨(mulConjPair x y k).1, (mulConjPair x y k).2⟩ : ℂ) =
      starRingEnd ℂ (toComplex x k) * toComplex y k := by
  apply Complex.ext
  · rw [Complex.mul_re]
    rfl
  · rw [Complex.mul_im]
    rfl

/-- The correlation of two frames is linear in both. -/
theorem frameCorrelation_amplify (hnum : Exact num) (Window : ℕ → ℝ) (q : ℕ) (c d : ℝ)
    (ref_data deg_data : ℤ → ℝ) (startr startd : ℤ) {i : ℕ} (hi : i < 2 ^ (q + 1)) :
    frameCorrelation num Window (2 ^ (q + 1)) (amplify c ref_data) (amplify d deg_data) startr
        startd i =
      c * d * frameCorrelation num Window (2 ^ (q + 1)) ref_data deg_data startr startd i := by
  have hsize : 2 ^ (q + 1) / 2 = 2 ^ q := (Dsp.two_pow_succ_div q).1
  unfold frameCorrelation
  refine hnum.RealIFFT_scaled q (fun k hk => ?_) hi
  have hmem : k ∈ List.range (2 ^ (q + 1) / 2 + 1) := List.mem_range.mpr (by omega)
  rw [toComplex_setPairs, toComplex_setPairs, if_pos hmem, if_pos hmem]
  have hX1 := hnum.RealFFT_scaled q
    (fun i _ => frameWindow_amplify Window (2 ^ (q + 1)) c ref_data startr i) hk
  have hX2 := hnum.RealFFT_scaled q
    (fun i _ => frameWindow_amplify Window (2 ^ (q + 1)) d deg_data startd i) hk
  rw [mulConjPair_eq, mulConjPair_eq, hX1, hX2, map_mul, Complex.conj_ofReal, Complex.ofReal_mul]
  ring

/-- The largest absolute value. -/
theorem largest_congr {n : ℕ} {X1 X1' : ℕ → ℝ} (h : ∀ count < n, |X1' count| = |X1 count|)
    (m : ℝ) :
    (List.range n).foldl
        (fun v_max count => if |X1' count| > v_max then |X1' count| else v_max) m =
      (List.range n).foldl
        (fun v_max count => if |X1 count| > v_max then |X1 count| else v_max) m :=
  List.foldl_ext _ _ _ fun v count hcount => by rw [h count (List.mem_range.mp hcount)]

/-- The votes of `split_align` depend on absolute values. -/
theorem addPeaks_congr (Nfft : ℤ) (root8 : ℝ → ℝ) {X1 X1' : ℕ → ℝ}
    (h : ∀ count < Nfft.toNat, |X1' count| = |X1 count|) (hist : Histogram ℝ) :
    addPeaks Nfft root8 X1' hist = addPeaks Nfft root8 X1 hist := by
  unfold addPeaks
  dsimp only
  rw [largest_congr h]
  exact List.foldl_ext _ _ _ fun hist count hcount => by rw [h count (List.mem_range.mp hcount)]

/-- So do those of `time_align`. -/
theorem addVotes_congr (Nfft : ℤ) (root8 : ℝ → ℝ) {X1 X1' : ℕ → ℝ}
    (h : ∀ count < Nfft.toNat, |X1' count| = |X1 count|) (hist : Histogram ℝ) :
    addVotes Nfft root8 X1' hist = addVotes Nfft root8 X1 hist := by
  unfold addVotes
  dsimp only
  rw [largest_congr h]
  refine congrArg (fun H => { hist with H }) (funext fun count => ?_)
  by_cases hcount : count < Nfft.toNat
  · rw [h count hcount]
  · rw [if_neg fun hin => hcount hin.1, if_neg fun hin => hcount hin.1]

/-- What `split_align` reads, for a correlation with the same absolute values. -/
theorem at_16k_congr_abs (VAD : ℕ → ℝ) (ref_Nsamples : ℕ) (deg_Nsamples : ℤ) (root8 : ℝ → ℝ)
    {correlation correlation' : ℤ → ℤ → ℕ → ℝ}
    (h : ∀ startr startd, ∀ count < rate_16k.Align_Nfft.toNat,
      |correlation' startr startd count| = |correlation startr startd count|) :
    AlignSignals.at_16k VAD ref_Nsamples deg_Nsamples correlation' root8 =
      AlignSignals.at_16k VAD ref_Nsamples deg_Nsamples correlation root8 := by
  have hvote : (fun startr startd =>
        addPeaks rate_16k.Align_Nfft root8 (correlation' startr startd)) =
      fun startr startd => addPeaks rate_16k.Align_Nfft root8 (correlation startr startd) := by
    funext startr startd hist
    exact addPeaks_congr _ _ (h startr startd) hist
  unfold AlignSignals.at_16k
  rw [hvote]

/-- What is computed by transforms, for a correlation with the same absolute values. -/
theorem transforms_congr_abs (crude : CrudeRange → ℕ → ℝ) (root8 : ℝ → ℝ)
    (smooth : (ℕ → ℝ) → ℕ → ℝ) {correlation correlation' : ℤ → ℤ → ℕ → ℝ}
    (h : ∀ startr startd, ∀ count < rate_16k.Align_Nfft.toNat,
      |correlation' startr startd count| = |correlation startr startd count|) :
    Transforms.at_16k crude correlation' root8 smooth =
      Transforms.at_16k crude correlation root8 smooth := by
  have hvote : (fun startr startd =>
        addVotes rate_16k.Align_Nfft root8 (correlation' startr startd)) =
      fun startr startd => addVotes rate_16k.Align_Nfft root8 (correlation startr startd) := by
    funext startr startd hist
    exact addVotes_congr _ _ (h startr startd) hist
  unfold Transforms.at_16k
  rw [hvote]

section Align

variable (hnum : Exact num) {s t : ℝ} (hs : s * s = 1) (ht : t * t = 1) (ref deg : Signal ℝ)

include hnum hs ht

/-- The absolute values of a correlation do not depend on the signs. -/
theorem abs_frameCorrelation (Window : ℕ → ℝ) (startr startd : ℤ) :
    ∀ count < rate_16k.Align_Nfft.toNat,
      |frameCorrelation num Window rate_16k.Align_Nfft.toNat (ref.amplify s).data
          (deg.amplify t).data startr startd count| =
        |frameCorrelation num Window rate_16k.Align_Nfft.toNat ref.data deg.data startr startd
          count| := by
  intro count hcount
  have hsize : rate_16k.Align_Nfft.toNat = 2 ^ (9 + 1) := rfl
  rw [hsize] at hcount ⊢
  have hcorrelation :=
    frameCorrelation_amplify hnum Window 9 s t ref.data deg.data startr startd hcount
  have hsign : s * t * (s * t) = 1 := by
    calc s * t * (s * t) = s * s * (t * t) := by ring
      _ = 1 := by rw [hs, ht, one_mul]
  unfold Signal.amplify
  rw [hcorrelation, abs_sign_mul hsign]

/-- What `split_align` reads does not depend on the signs. -/
theorem windowSignals_amplify (Window : ℕ → ℝ) :
    windowSignals num Window (ref.amplify s) (deg.amplify t) =
      windowSignals num Window ref deg := by
  unfold windowSignals
  rw [calc_VAD_amplify num hs]
  exact at_16k_congr_abs _ _ _ _ (abs_frameCorrelation hnum hs ht ref deg Window)

/-- What is computed by transforms does not depend on the signs, as far as it is used. -/
theorem transforms_amplify :
    transforms num (ref.amplify s) (deg.amplify t) = transforms num ref deg := by
  unfold transforms
  rw [calc_VAD_amplify num hs, calc_VAD_amplify num ht]
  exact transforms_congr_abs _ _ _ (abs_frameCorrelation hnum hs ht ref deg _)

/-- The same utterances are found, whatever the signs of the signals are. -/
theorem findUtterances_amplify (around : Surroundings ℝ) :
    findUtterances num around (ref.amplify s) (deg.amplify t) =
      findUtterances num around ref deg := by
  unfold findUtterances split_align_on splitSignals alignSignals
  simp only [windowSignals_amplify hnum hs ht, transforms_amplify hnum hs ht]

end Align

end TgVoipRate.Pesq.Acoustic
