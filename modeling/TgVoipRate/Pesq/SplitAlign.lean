import Mathlib.Algebra.Order.Field.Basic
import TgVoipRate.Lib.Loop
import TgVoipRate.Pesq.Split

/-!
# Where to split an utterance

`split_align` of `pesqdsp.c`. It tries a list of points in the speech of an utterance. For each
point `crude_align` gives an estimated delay for the part before it and one for the part behind it;
the frames of a part, shifted by the estimated delay, then vote for the delay of the part in a
histogram. The frames before a point are taken forwards from the start of the utterance
(`forward_pass`), those behind it backwards from the end (`backward_pass`). Points with the same
estimated delay share one histogram: the frames that one point has taken are kept for the next one.

The correlation of two frames is computed by transforms, and `pow` weighs it; both are given by
functions here. Arithmetic is exact.
-/

namespace TgVoipRate.Pesq

open Loops (Loop Shared)

variable {𝕜 : Type*} [Field 𝕜] [LinearOrder 𝕜]

/-! ## The votes -/

/-- The votes for each delay, and their sum. -/
structure Histogram (𝕜 : Type*) where
  H : ℕ → 𝕜
  Hsum : 𝕜

/-- The cleared histogram. -/
def Histogram.clear : Histogram 𝕜 := { H := fun _ => 0, Hsum := 0 }

/-- The votes for a delay and its neighbours, which get less the farther they are. -/
def addPeak (Nfft kernel : ℤ) (n_max : 𝕜) (hist : Histogram 𝕜) (count : ℕ) : Histogram 𝕜 where
  H :=
    (List.range (2 * kernel - 1).toNat).foldl
      (fun H j =>
        let k : ℤ := 1 - kernel + j
        -- The histogram is circular.
        let i := ((count + k + Nfft) % Nfft).toNat
        Function.update H i (H i + n_max * ((kernel - |k| : ℤ) : 𝕜)))
      hist.H
  Hsum := hist.Hsum + n_max * (kernel : 𝕜)

/-- A frame votes for the delays where its correlation is close to the maximum. -/
def addPeaks (Nfft : ℤ) (root8 : 𝕜 → 𝕜) (X1 : ℕ → 𝕜) (hist : Histogram 𝕜) : Histogram 𝕜 :=
  let kernel := Nfft.tdiv 64
  let v_max := (List.range Nfft.toNat).foldl
    (fun v_max count => if |X1 count| > v_max then |X1 count| else v_max) 0
  let v_max := v_max * (99 / 100)
  let n_max := root8 v_max / (kernel : 𝕜)
  (List.range Nfft.toNat).foldl
    (fun hist count => if |X1 count| > v_max then addPeak Nfft kernel n_max hist count else hist)
      hist

/-- The delay with the most votes. -/
def histogramPeak (Nfft : ℕ) (H : ℕ → 𝕜) : 𝕜 × ℤ :=
  (List.range Nfft).foldl
    (fun m count => if H count > m.1 then (H count, (count : ℤ)) else m) (0, 0)

/-! ## The frames -/

/-- The two signals, as far as `split_align` reads them. -/
structure AlignSignals (𝕜 : Type*) extends Signals 𝕜 where
  /-- Adds the votes of the frames at two positions of the reference and of the degraded signal. -/
  vote : ℤ → ℤ → Histogram 𝕜 → Histogram 𝕜
  /-- A window has samples. -/
  Downsample_pos : 0 < rate.Downsample
  /-- A quarter of a frame has windows. -/
  Delta_pos : 0 < rate.Align_Nfft.tdiv (4 * rate.Downsample)

/-- The signals at 16 kHz, with the correlation of the frames at two positions and the eighth root.
-/
def AlignSignals.at_16k (VAD : ℕ → 𝕜) (ref_Nsamples : ℕ) (deg_Nsamples : ℤ)
    (correlation : ℤ → ℤ → ℕ → 𝕜) (root8 : 𝕜 → 𝕜) : AlignSignals 𝕜 where
  rate := rate_16k
  VAD
  ref_Nsamples
  deg_Nsamples
  vote startr startd := addPeaks rate_16k.Align_Nfft root8 (correlation startr startd)
  Downsample_pos := by decide
  Delta_pos := by decide

/-- The position of the next frames, and the votes of those before. -/
structure FrameScan (𝕜 : Type*) where
  startr : ℤ
  startd : ℤ
  hist : Histogram 𝕜

/-- The frames vote, and the positions move. -/
def addFrame (sig : AlignSignals 𝕜) (hop : ℤ) (s : FrameScan 𝕜) : FrameScan 𝕜 where
  startr := s.startr + hop
  startd := s.startd + hop
  hist := sig.vote s.startr s.startd s.hist

/-- A number of samples that has windows is not negative. -/
theorem nonneg_of_tdiv_pos {Nsamples Downsample : ℤ} (hDownsample : 0 ≤ Downsample)
    (h : 0 < Nsamples.tdiv Downsample) : 0 ≤ Nsamples := by
  by_contra hneg
  have hopposite : 0 ≤ (-Nsamples).tdiv Downsample := Int.tdiv_nonneg (by omega) hDownsample
  rw [Int.neg_tdiv] at hopposite
  omega

/-- The distance of two frames. -/
def AlignSignals.quarter (sig : AlignSignals 𝕜) : ℤ := sig.rate.Align_Nfft.tdiv 4

omit [Field 𝕜] [LinearOrder 𝕜] in
/-- The frames move on, by a quarter of their length at most. -/
theorem AlignSignals.quarter_le (sig : AlignSignals 𝕜) :
    0 < sig.quarter ∧ 4 * sig.quarter ≤ sig.rate.Align_Nfft := by
  have hDownsample := sig.Downsample_pos
  have hDelta := sig.Delta_pos
  have hnonneg : 0 ≤ sig.rate.Align_Nfft := nonneg_of_tdiv_pos (by omega) hDelta
  have hlong : 4 * sig.rate.Downsample ≤ sig.rate.Align_Nfft := by
    rw [Int.tdiv_eq_ediv_of_nonneg hnonneg] at hDelta
    have hmul := (Int.le_ediv_iff_mul_le (show 0 < 4 * sig.rate.Downsample by omega)).mp
      (show 1 ≤ _ from hDelta)
    omega
  unfold AlignSignals.quarter
  rw [Int.tdiv_eq_ediv_of_nonneg hnonneg]
  omega

/-- The frames before a point, forwards. -/
def forwardFrames (sig : AlignSignals 𝕜) (Utt_BP : ℤ) : Loop (FrameScan 𝕜) where
  guard s := s.startd + sig.rate.Align_Nfft ≤ sig.deg_Nsamples ∧
    s.startr + sig.rate.Align_Nfft ≤ Utt_BP * sig.rate.Downsample
  body := addFrame sig sig.quarter
  variant s := (sig.deg_Nsamples - s.startd).toNat
  decreases s hguard := by
    have hquarter := sig.quarter_le
    have hend := hguard.1
    show (sig.deg_Nsamples - (s.startd + sig.quarter)).toNat < _
    omega

/-- The frames behind a point, backwards. -/
def backwardFrames (sig : AlignSignals 𝕜) (Utt_BP : ℤ) : Loop (FrameScan 𝕜) where
  guard s := s.startd ≥ 0 ∧ s.startr ≥ Utt_BP * sig.rate.Downsample
  body := addFrame sig (-sig.quarter)
  variant s := (s.startd + 1).toNat
  decreases s hguard := by
    have hquarter := sig.quarter_le
    have hstart := hguard.1
    show (s.startd + -sig.quarter + 1).toNat < _
    omega

/-- Where the frames start that are taken forwards. -/
def forwardStart (sig : AlignSignals 𝕜) (Utt_Start estdelay : ℤ) : FrameScan 𝕜 :=
  let startr := Utt_Start * sig.rate.Downsample
  let startd := startr + estdelay
  -- A start in front of the degraded signal is put back to its first sample.
  if startd < 0 then { startr := -estdelay, startd := 0, hist := Histogram.clear }
  else { startr, startd, hist := Histogram.clear }

/-- Where the frames start that are taken backwards. -/
def backwardStart (sig : AlignSignals 𝕜) (Utt_End estdelay : ℤ) : FrameScan 𝕜 :=
  let startr := Utt_End * sig.rate.Downsample - sig.rate.Align_Nfft
  let startd := startr + estdelay
  if startd + sig.rate.Align_Nfft > sig.deg_Nsamples then
    let startd := sig.deg_Nsamples - sig.rate.Align_Nfft
    { startr := startd - estdelay, startd, hist := Histogram.clear }
  else { startr, startd, hist := Histogram.clear }

/-! ## The two passes -/

/-- The delay of a part, and the confidence in it. -/
structure Aligned (𝕜 : Type*) where
  D : ℤ
  DC : 𝕜

/-- What the votes say about a part. -/
def evaluate (sig : AlignSignals 𝕜) (estdelay : ℤ) (s : FrameScan 𝕜) : Aligned 𝕜 :=
  let (v_max, I_max) := histogramPeak sig.rate.Align_Nfft.toNat s.hist.H
  -- The upper half of the histogram is that of the negative delays.
  let I_max := if I_max ≥ sig.rate.Align_Nfft.tdiv 2 then I_max - sig.rate.Align_Nfft else I_max
  { D := estdelay + I_max
    DC := if s.hist.Hsum > 0 then v_max / s.hist.Hsum else 0 }

variable [IsStrictOrderedRing 𝕜]

omit [IsStrictOrderedRing 𝕜] in
/-- The number of votes for the best delay only grows from zero. -/
theorem histogramPeak_nonneg (Nfft : ℕ) (H : ℕ → 𝕜) : 0 ≤ (histogramPeak Nfft H).1 := by
  unfold histogramPeak
  have hkeep : ∀ (counts : List ℕ) (m : 𝕜 × ℤ), 0 ≤ m.1 →
      0 ≤ (counts.foldl (fun m count => if H count > m.1 then (H count, (count : ℤ)) else m)
          m).1 := by
    intro counts
    induction counts with
    | nil => exact fun _ h => h
    | cons count counts ih =>
      intro m hm
      apply ih
      dsimp only
      split
      · rename_i hlarger
        exact (lt_of_le_of_lt hm hlarger).le
      · exact hm
  exact hkeep _ _ le_rfl

/-- A confidence is not negative. -/
theorem evaluate_DC_nonneg (sig : AlignSignals 𝕜) (estdelay : ℤ) (s : FrameScan 𝕜) :
    0 ≤ (evaluate sig estdelay s).DC := by
  show 0 ≤ if s.hist.Hsum > 0 then (histogramPeak _ s.hist.H).1 / s.hist.Hsum else 0
  split
  · rename_i hpos
    exact div_nonneg (histogramPeak_nonneg _ _) (le_of_lt hpos)
  · exact le_rfl

/-- The parts that have no result yet have the confidence -2. -/
theorem evaluate_closed (sig : AlignSignals 𝕜) (estdelay : ℤ) (s : FrameScan 𝕜) :
    ¬(evaluate sig estdelay s).DC ≤ -2 := by
  have hnonneg := evaluate_DC_nonneg sig estdelay s
  have hneg : (-2 : 𝕜) < 0 := neg_lt_zero.mpr two_pos
  exact not_le.mpr (hneg.trans_le hnonneg)

/-- The parts before the points. -/
def forward_pass (sig : AlignSignals 𝕜) (Utt_Start : ℤ) (N_BPs : ℕ) (Utt_BPs Utt_ED1 : ℕ → ℤ) :
    Shared ℕ ℤ (FrameScan 𝕜) (Aligned 𝕜) where
  order := List.range N_BPs
  key := Utt_ED1
  start := forwardStart sig Utt_Start
  loop bp := forwardFrames sig (Utt_BPs bp)
  result := evaluate sig
  isOpen r := r.DC ≤ -2
  closed := evaluate_closed sig

/-- The parts behind the points. -/
def backward_pass (sig : AlignSignals 𝕜) (Utt_End : ℤ) (N_BPs : ℕ) (Utt_BPs Utt_ED2 : ℕ → ℤ) :
    Shared ℕ ℤ (FrameScan 𝕜) (Aligned 𝕜) where
  order := (List.range N_BPs).reverse
  key := Utt_ED2
  start := backwardStart sig Utt_End
  loop bp := backwardFrames sig (Utt_BPs bp)
  result := evaluate sig
  isOpen r := r.DC ≤ -2
  closed := evaluate_closed sig

/-- Before the first pass nothing is known, and `Utt_D1` is not set. -/
def forwardInit (Utt_D1 : ℕ → ℤ) (bp : ℕ) : Aligned 𝕜 := { D := Utt_D1 bp, DC := -2 }

/-- The second pass is for the points whose first part is aligned with more confidence than the
whole utterance; `Utt_D2` is not set. -/
def backwardInit (Utt_DelayConf : 𝕜) (first : ℕ → Aligned 𝕜) (Utt_D2 : ℕ → ℤ) (bp : ℕ) :
    Aligned 𝕜 :=
  { D := Utt_D2 bp, DC := if (first bp).DC > Utt_DelayConf then -2 else 0 }

/-- `Utt_D1` and `Utt_DC1` after the first pass. -/
def firstParts (sig : AlignSignals 𝕜) (Utt_Start : ℤ) (N_BPs : ℕ) (Utt_BPs Utt_ED1 Utt_D1 : ℕ → ℤ) :
    ℕ → Aligned 𝕜 :=
  (forward_pass sig Utt_Start N_BPs Utt_BPs Utt_ED1).fill.run (forwardInit Utt_D1)

/-- `Utt_D2` and `Utt_DC2` after the second pass. -/
def secondParts (sig : AlignSignals 𝕜) (Utt_End : ℤ) (Utt_DelayConf : 𝕜) (first : ℕ → Aligned 𝕜)
    (N_BPs : ℕ) (Utt_BPs Utt_ED2 Utt_D2 : ℕ → ℤ) : ℕ → Aligned 𝕜 :=
  (backward_pass sig Utt_End N_BPs Utt_BPs Utt_ED2).fill.run
    (backwardInit Utt_DelayConf first Utt_D2)

/-! ## The points -/

/-- The points from one on: a next one is taken as long as it is not too close to the end of the
speech, and there is room. -/
def breakpointsFrom (Step last : ℤ) : ℕ → ℤ → List ℤ
  | 0, _ => []
  | room + 1, Utt_BP =>
    Utt_BP :: if Utt_BP + Step ≤ last then breakpointsFrom Step last room (Utt_BP + Step) else []

/-- The distance of two points. -/
def breakpointStep (rate : Rate) (Utt_Len : ℤ) : ℤ :=
  let Delta := rate.Align_Nfft.tdiv (4 * rate.Downsample)
  -- 0.801 of the length, in parts of 40 * Delta, rounded up
  (801 * Utt_Len + 1000 * (40 * Delta - 1)).tdiv (1000 * (40 * Delta)) * Delta

/-- The distance of the points from the ends of the speech. -/
def breakpointPad (Utt_Len : ℤ) : ℤ := if Utt_Len.tdiv 10 < 75 then 75 else Utt_Len.tdiv 10

/-- The points to try: at most 40, and at least one. -/
def breakpoints (rate : Rate) (a : SplitArgs 𝕜) : List ℤ :=
  breakpointsFrom (breakpointStep rate a.Utt_Len) (a.Utt_SpeechEnd - breakpointPad a.Utt_Len) 40
    (a.Utt_SpeechStart + breakpointPad a.Utt_Len)

/-- `Utt_BPs` -/
def breakpointAt (rate : Rate) (a : SplitArgs 𝕜) (bp : ℕ) : ℤ := (breakpoints rate a).getD bp 0

/-- The slot of the tables that `split_align` uses for itself. -/
def Utt_Test : ℤ := MAXNUTTERANCES - 1

/-- The tables when the estimate for a part is made. -/
def testTables (err : ErrorInfo 𝕜) (Utt_DelayEst Start End : ℤ) : ErrorInfo 𝕜 :=
  { err with
    Utt_DelayEst := Function.update err.Utt_DelayEst Utt_Test Utt_DelayEst
    UttSearch_Start := Function.update err.UttSearch_Start Utt_Test Start
    UttSearch_End := Function.update err.UttSearch_End Utt_Test End }

/-- Estimates the delay of a part, in the last slot of the tables. -/
def testAlign (al : Aligner 𝕜) (Utt_DelayEst Start End : ℤ) (err : ErrorInfo 𝕜) : ErrorInfo 𝕜 :=
  let err := testTables err Utt_DelayEst Start End
  { err with
    Utt_Delay := Function.update err.Utt_Delay Utt_Test (al.crude_align err MAXNUTTERANCES) }

/-- The tables, and the estimates so far. -/
structure Estimates (𝕜 : Type*) where
  err : ErrorInfo 𝕜
  Utt_ED1 : ℕ → ℤ
  Utt_ED2 : ℕ → ℤ

/-- Estimates the delays of the two parts at a point. -/
def estimate (al : Aligner 𝕜) (a : SplitArgs 𝕜) (Utt_BPs : ℕ → ℤ) (e : Estimates 𝕜) (bp : ℕ) :
    Estimates 𝕜 :=
  -- The second estimate starts from the tables that the first one leaves.
  let err₁ := testAlign al a.Utt_DelayEst a.Utt_Start (Utt_BPs bp) e.err
  let err₂ := testAlign al a.Utt_DelayEst (Utt_BPs bp) a.Utt_End err₁
  { err := err₂
    Utt_ED1 := Function.update e.Utt_ED1 bp (err₁.Utt_Delay Utt_Test)
    Utt_ED2 := Function.update e.Utt_ED2 bp (err₂.Utt_Delay Utt_Test) }

/-! ## The choice -/

/-- The variables of `utterance_split` that `split_align` sets only if it finds a point. -/
structure SplitLocals where
  Best_ED1 : ℤ
  Best_D1 : ℤ
  Best_ED2 : ℤ
  Best_D2 : ℤ
  Best_BP : ℤ

/-- The arrays of `split_align` before they are set. -/
structure Unset where
  Utt_ED1 : ℕ → ℤ
  Utt_ED2 : ℕ → ℤ
  Utt_D1 : ℕ → ℤ
  Utt_D2 : ℕ → ℤ

/-- The best point so far. -/
structure Best (𝕜 : Type*) extends SplitLocals where
  Best_DC1 : 𝕜
  Best_DC2 : 𝕜

/-- What is known about the points. -/
structure Points (𝕜 : Type*) where
  Utt_BPs : ℕ → ℤ
  Utt_ED1 : ℕ → ℤ
  Utt_ED2 : ℕ → ℤ
  /-- `Utt_D1` and `Utt_DC1` -/
  first : ℕ → Aligned 𝕜
  /-- `Utt_D2` and `Utt_DC2` -/
  second : ℕ → Aligned 𝕜

/-- `abs` takes an `int`: the difference of two delays loses its upper bits. -/
def intAbs (x : ℤ) : ℤ := |x.bmod (2^32)|

/-- A point is better than the best one so far. -/
def Points.isBetter (rate : Rate) (Utt_DelayConf : 𝕜) (pts : Points 𝕜) (best : Best 𝕜) (bp : ℕ) :
    Prop :=
  intAbs ((pts.second bp).D - (pts.first bp).D) ≥ rate.Downsample ∧
    (pts.first bp).DC + (pts.second bp).DC > best.Best_DC1 + best.Best_DC2 ∧
    (pts.first bp).DC > Utt_DelayConf ∧ (pts.second bp).DC > Utt_DelayConf

instance (rate : Rate) (Utt_DelayConf : 𝕜) (pts : Points 𝕜) (best : Best 𝕜) (bp : ℕ) :
    Decidable (pts.isBetter rate Utt_DelayConf best bp) := inferInstanceAs (Decidable (_ ∧ _))

/-- Takes a point if it is better. -/
def choose (rate : Rate) (Utt_DelayConf : 𝕜) (pts : Points 𝕜) (best : Best 𝕜) (bp : ℕ) : Best 𝕜 :=
  if pts.isBetter rate Utt_DelayConf best bp then
    { Best_ED1 := pts.Utt_ED1 bp
      Best_D1 := (pts.first bp).D
      Best_DC1 := (pts.first bp).DC
      Best_ED2 := pts.Utt_ED2 bp
      Best_D2 := (pts.second bp).D
      Best_DC2 := (pts.second bp).DC
      Best_BP := pts.Utt_BPs bp }
  else best

/-- The estimates for all points. -/
def estimates (al : Aligner 𝕜) (sig : AlignSignals 𝕜) (unset : Unset) (err : ErrorInfo 𝕜)
    (a : SplitArgs 𝕜) : Estimates 𝕜 :=
  (List.range (breakpoints sig.rate a).length).foldl (estimate al a (breakpointAt sig.rate a))
    { err, Utt_ED1 := unset.Utt_ED1, Utt_ED2 := unset.Utt_ED2 }

/-- The points after the two passes. -/
def alignPoints (sig : AlignSignals 𝕜) (unset : Unset) (a : SplitArgs 𝕜) (Utt_ED1 Utt_ED2 : ℕ → ℤ) :
    Points 𝕜 :=
  let N_BPs := (breakpoints sig.rate a).length
  let Utt_BPs := breakpointAt sig.rate a
  let first := firstParts sig a.Utt_Start N_BPs Utt_BPs Utt_ED1 unset.Utt_D1
  let second := secondParts sig a.Utt_End a.Utt_DelayConf first N_BPs Utt_BPs Utt_ED2 unset.Utt_D2
  { Utt_BPs, Utt_ED1, Utt_ED2, first, second }

/-- `split_align` -/
def split_align (al : Aligner 𝕜) (sig : AlignSignals 𝕜) (locals : SplitLocals) (unset : Unset)
    (err : ErrorInfo 𝕜) (a : SplitArgs 𝕜) : SplitResult 𝕜 :=
  let e := estimates al sig unset err a
  let pts := alignPoints sig unset a e.Utt_ED1 e.Utt_ED2
  let best := (List.range (breakpoints sig.rate a).length).foldl
    (choose sig.rate a.Utt_DelayConf pts) { locals with Best_DC1 := 0, Best_DC2 := 0 }
  { Best_ED1 := best.Best_ED1
    Best_D1 := best.Best_D1
    Best_DC1 := best.Best_DC1
    Best_ED2 := best.Best_ED2
    Best_D2 := best.Best_D2
    Best_DC2 := best.Best_DC2
    Best_BP := best.Best_BP
    test_DelayEst := e.err.Utt_DelayEst Utt_Test
    test_Delay := e.err.Utt_Delay Utt_Test
    test_Start := e.err.UttSearch_Start Utt_Test
    test_End := e.err.UttSearch_End Utt_Test }

/-! ## The calls -/

/-- How the frames vote in a call, by its arguments. The calls of a run may differ: `crude_align`
writes over the end of the window, as far as the parts are long. -/
abbrev CallVotes (𝕜 : Type*) :=
  ErrorInfo 𝕜 → SplitArgs 𝕜 → ℤ → ℤ → Histogram 𝕜 → Histogram 𝕜

/-- The signals in a call. -/
def AlignSignals.inCall (sig : AlignSignals 𝕜) (votes : CallVotes 𝕜) (err : ErrorInfo 𝕜)
    (a : SplitArgs 𝕜) : AlignSignals 𝕜 :=
  { sig with vote := votes err a }

/-- `split_align` in a run, with the votes of each call. -/
def split_align_calls (al : Aligner 𝕜) (sig : AlignSignals 𝕜) (votes : CallVotes 𝕜)
    (locals : SplitLocals) (unset : Unset) : SplitAlign 𝕜 :=
  fun err a => split_align al (sig.inCall votes err a) locals unset err a

end TgVoipRate.Pesq
