import TgVoipRate.Pesq.SplitAlign

/-!
# The delays of the signals and of their utterances

`crude_align` and `time_align` of `pesqdsp.c`. `crude_align` correlates the voice activities of a
part of the reference and of the part of the degraded signal that the best delay so far puts there,
and corrects the delay by the lag of the highest correlation. It has three modes: for the signals as
a whole, for the last slot of the tables, which `split_align` uses, and for an utterance.
`time_align` takes the delay of an utterance on to the sample, by the votes of frames as in
`split_align`.

The correlations are computed by transforms, and are given by functions here (`Transforms`). The
confidence `Crude_DelayConf`, which `crude_align` sets to zero, is never read.
-/

namespace TgVoipRate.Pesq

open Loops (Loop)

variable {𝕜 : Type*} [Field 𝕜] [LinearOrder 𝕜]

/-- The mode of `crude_align` for the signals as a whole. -/
def WHOLE_SIGNAL : ℤ := -1

/-! ## The activities that are correlated -/

/-- The windows of the two signals that `crude_align` correlates. -/
@[ext]
structure CrudeRange where
  /-- The number of windows of the reference. -/
  nr : ℤ
  /-- The number of windows of the degraded signal. -/
  nd : ℤ
  /-- The first window of the reference. -/
  startr : ℤ
  /-- The first window of the degraded signal. -/
  startd : ℤ

/-- The windows of a part of the reference, and of the degraded signal behind a delay. -/
def shiftedRange (Downsample deg_Nsamples UttSearch_Start UttSearch_End DelayEst : ℤ) :
    CrudeRange :=
  -- A start in front of the degraded signal is put back, and both signals start later.
  let behindStart := UttSearch_Start + DelayEst.tdiv Downsample
  let startr := if behindStart < 0 then (-DelayEst).tdiv Downsample else UttSearch_Start
  let startd := if behindStart < 0 then 0 else behindStart
  let nr := UttSearch_End - startr
  let nd :=
    if startd + nr > deg_Nsamples.tdiv Downsample then deg_Nsamples.tdiv Downsample - startd
    else nr
  { nr, nd, startr, startd }

/-- The windows that are correlated in the three modes. -/
def crudeRange (sig : Signals 𝕜) (err : ErrorInfo 𝕜) (Utt_id : ℤ) : CrudeRange :=
  if Utt_id = WHOLE_SIGNAL then
    { nr := (sig.ref_Nsamples : ℤ).tdiv sig.rate.Downsample
      nd := sig.deg_Nsamples.tdiv sig.rate.Downsample
      startr := 0
      startd := 0 }
  else if Utt_id = MAXNUTTERANCES then
    shiftedRange sig.rate.Downsample sig.deg_Nsamples (err.UttSearch_Start (MAXNUTTERANCES - 1))
      (err.UttSearch_End (MAXNUTTERANCES - 1)) (err.Utt_DelayEst (MAXNUTTERANCES - 1))
  else
    shiftedRange sig.rate.Downsample sig.deg_Nsamples (err.UttSearch_Start Utt_id)
      (err.UttSearch_End Utt_id) err.Crude_DelayEst

/-- There is something to correlate. -/
def CrudeRange.Correlates (r : CrudeRange) : Prop := r.nr > 1 ∧ r.nd > 1

instance (r : CrudeRange) : Decidable r.Correlates := inferInstanceAs (Decidable (_ ∧ _))

/-- The length of the correlation. -/
def CrudeRange.length (r : CrudeRange) : ℕ := (r.nr + r.nd - 1).toNat

/-! ## The lag -/

/-- The largest one of the first entries and its index, if it is positive. -/
def largest (Y : ℕ → 𝕜) (I_max : ℤ) (n : ℕ) : 𝕜 × ℤ :=
  (List.range n).foldl
    (fun m count => if Y count > m.1 then (Y count, (count : ℤ)) else m) (0, I_max)

/-- The lag of the highest correlation, in windows. -/
def CrudeRange.lag (r : CrudeRange) (Y : ℕ → 𝕜) : ℤ :=
  -- The entry `nr - 1` is the one of no lag.
  let I_max := if r.Correlates then (largest Y (r.nr - 1) r.length).2 else r.nr - 1
  I_max - r.nr + 1

/-- What is computed by transforms. -/
structure Transforms (𝕜 : Type*) where
  /-- The correlation of the activities in two ranges of windows. -/
  correlation : CrudeRange → ℕ → 𝕜
  /-- Adds the votes of the frames at two positions of the reference and of the degraded signal. -/
  vote : ℤ → ℤ → Histogram 𝕜 → Histogram 𝕜
  /-- The histogram, smoothed by a triangle. -/
  smooth : (ℕ → 𝕜) → ℕ → 𝕜

/-- The delay that `crude_align` stores. -/
def crudeDelay (tr : Transforms 𝕜) (sig : Signals 𝕜) (err : ErrorInfo 𝕜) (Utt_id : ℤ) : ℤ :=
  let r := crudeRange sig err Utt_id
  let shift := r.lag (tr.correlation r) * sig.rate.Downsample
  if Utt_id = WHOLE_SIGNAL then shift
  else if Utt_id = MAXNUTTERANCES then shift + err.Utt_DelayEst (MAXNUTTERANCES - 1)
  else shift + err.Crude_DelayEst

/-- `crude_align` -/
def crude_align (tr : Transforms 𝕜) (sig : Signals 𝕜) (err : ErrorInfo 𝕜) (Utt_id : ℤ) :
    ErrorInfo 𝕜 :=
  if Utt_id = WHOLE_SIGNAL then { err with Crude_DelayEst := crudeDelay tr sig err Utt_id }
  else if Utt_id = MAXNUTTERANCES then
    { err with
      Utt_Delay :=
        Function.update err.Utt_Delay (MAXNUTTERANCES - 1) (crudeDelay tr sig err Utt_id) }
  else
    { err with
      Utt_DelayEst := Function.update err.Utt_DelayEst Utt_id (crudeDelay tr sig err Utt_id) }

/-! ## The delay of an utterance -/

/-- A frame votes once for each delay where its correlation is close to the maximum. -/
def addVotes (Nfft : ℤ) (root8 : 𝕜 → 𝕜) (X1 : ℕ → 𝕜) (hist : Histogram 𝕜) : Histogram 𝕜 :=
  let v_max := (List.range Nfft.toNat).foldl
    (fun v_max count => if |X1 count| > v_max then |X1 count| else v_max) 0
  let v_max := v_max * (99 / 100)
  { hist with
    H := fun count =>
      if count < Nfft.toNat ∧ |X1 count| > v_max then hist.H count + root8 v_max
      else hist.H count }

/-- The frames at 16 kHz vote for the peaks of their correlation. -/
def Transforms.at_16k (correlation : CrudeRange → ℕ → 𝕜) (frameCorrelation : ℤ → ℤ → ℕ → 𝕜)
    (root8 : 𝕜 → 𝕜) (smooth : (ℕ → 𝕜) → ℕ → 𝕜) : Transforms 𝕜 where
  correlation
  vote startr startd := addVotes rate_16k.Align_Nfft root8 (frameCorrelation startr startd)
  smooth

/-- `time_align`: the delay and the confidence that it stores. The frames are those that
`split_align` takes forwards, and the utterance is searched up to the end of its window. -/
def time_align (tr : Transforms 𝕜) (sig : AlignSignals 𝕜) (err : ErrorInfo 𝕜) (Utt_id : ℤ) :
    ℤ × 𝕜 :=
  -- The votes are those of single delays, where `split_align` spreads them.
  let sig := { sig with vote := tr.vote }
  let Nfft := sig.rate.Align_Nfft
  let estdelay := err.Utt_DelayEst Utt_id
  let H := ((forwardFrames sig (err.UttSearch_End Utt_id)).run
    (forwardStart sig (err.UttSearch_Start Utt_id) estdelay)).hist.H
  let Hsum := (List.range Nfft.toNat).foldl (fun Hsum count => Hsum + H count) 0
  let (v_max, I_max) := histogramPeak Nfft.toNat fun count =>
    if Hsum > 0 then |tr.smooth H count| / Hsum else 0
  (estdelay + if I_max ≥ Nfft.tdiv 2 then I_max - Nfft else I_max, v_max)

/-- What the two functions find. -/
def aligner (tr : Transforms 𝕜) (sig : AlignSignals 𝕜) : Aligner 𝕜 where
  crude_align := crudeDelay tr sig.toSignals
  time_align := time_align tr sig

/-- Finding the delay of an utterance is `crude_align`, followed by `time_align`. -/
theorem align_eq (tr : Transforms 𝕜) (sig : AlignSignals 𝕜) (err : ErrorInfo 𝕜) {Utt_id : ℤ}
    (hwhole : Utt_id ≠ WHOLE_SIGNAL) (hmax : Utt_id ≠ MAXNUTTERANCES) :
    align (aligner tr sig) err Utt_id =
      let crude := crude_align tr sig.toSignals err Utt_id
      { crude with
        Utt_Delay := Function.update crude.Utt_Delay Utt_id (time_align tr sig crude Utt_id).1
        Utt_DelayConf :=
          Function.update crude.Utt_DelayConf Utt_id (time_align tr sig crude Utt_id).2 } := by
  unfold crude_align
  rw [if_neg hwhole, if_neg hmax]
  rfl

/-- In the last slot, the estimate is `crude_align` on a window to search. -/
theorem testAlign_eq (tr : Transforms 𝕜) (sig : AlignSignals 𝕜) (Utt_DelayEst Start End : ℤ)
    (err : ErrorInfo 𝕜) :
    testAlign (aligner tr sig) Utt_DelayEst Start End err =
      crude_align tr sig.toSignals (testTables err Utt_DelayEst Start End) MAXNUTTERANCES := by
  unfold crude_align
  rw [if_neg (by decide), if_pos rfl]
  rfl

end TgVoipRate.Pesq
