import Mathlib
import TgVoipRate.Pesq.Acoustic
import TgVoipRate.Pesq.CrudeAlign
import TgVoipRate.Pesq.Filters
import TgVoipRate.Pesq.LoadSrc

/-!
# The measurement

`pesq_measure` of `pesqmain.c` on two signals at 16 kHz that it has loaded: levels, filters,
alignment and acoustic model. The signals are aligned after one more filter, and the acoustic model
gets them as they were before it. The score is mapped to the scale of listeners, and `main` of
`pesqmain_adapter.cc` stretches it before it is printed. Here the parameters of the alignment are
filled in: the correlation of two frames, by transforms (`frameCorrelation`), and the triangle that
the votes are smoothed by.

`split_align` has its window in the work area that `crude_align` writes correlations to, and makes
its estimates after the window is filled. So its frames are seen through what the correlations leave
of the window (`splitWindow`): for long parts that is less than the whole.

Arithmetic is exact. A signal without any power gets an infinite level in the source; what comes of
that is left out.
-/

namespace TgVoipRate.Pesq.Acoustic

open Dsp (setPairs mulPair)

variable {𝕜 : Type*} [Field 𝕜] [LinearOrder 𝕜]

/-! ## Signals -/

/-- A signal that is loaded. -/
structure Signal (𝕜 : Type*) where
  Nsamples : ℤ
  /-- The samples between zeros. -/
  data : ℤ → 𝕜
  input_filter : ℤ

/-- What `load_src` has left in a record. -/
def Signal.ofInfo (info : SignalInfo) (input_filter : ℤ) : Signal 𝕜 where
  Nsamples := info.Nsamples
  data i := if 0 ≤ i then (((info.data.map Buffer.values).getD []).getD i.toNat 0 : ℤ) else 0
  input_filter

/-- The mode of a measurement: narrowband or wideband. -/
inductive Mode
  | NB_MODE
  | WB_MODE

/-- What is found in memory that is not set, and the conversion to `int`. -/
structure Surroundings (𝕜 : Type*) where
  toInt : ℤ → ℤ
  locals : SplitLocals
  unset : Unset
  frame_disturbance : ℤ → 𝕜
  frame_disturbance_asym_add : ℤ → 𝕜

/-! ## Frames -/

/-- The samples of a frame under a window, and zeros. -/
def frameWindow (Window : ℕ → 𝕜) (N : ℕ) (data : ℤ → 𝕜) (start : ℤ) (count : ℕ) : 𝕜 :=
  if count < N then data (count + start) * Window count else 0

/-- The product of the conjugate of a complex number with another one, in arrays. -/
def mulConjPair (X1 X2 : ℕ → 𝕜) (count : ℕ) : 𝕜 × 𝕜 :=
  let r1 := X1 (2 * count)
  let i1 := -X1 (2 * count + 1)
  (r1 * X2 (2 * count) - i1 * X2 (2 * count + 1), r1 * X2 (2 * count + 1) + i1 * X2 (2 * count))

/-- The correlation of two frames under a window, which is circular. -/
def frameCorrelation (num : Numerics 𝕜) (Window : ℕ → 𝕜) (N : ℕ) (ref_data deg_data : ℤ → 𝕜)
    (startr startd : ℤ) : ℕ → 𝕜 :=
  let X1 := num.RealFFT (frameWindow Window N ref_data startr) N
  let X2 := num.RealFFT (frameWindow Window N deg_data startd) N
  num.RealIFFT (setPairs (List.range (N / 2 + 1)) (mulConjPair X1 X2) X1) N

/-- The triangle around zero that smooths a histogram. -/
def triangle (N count : ℕ) : 𝕜 :=
  let kernel := N / 64
  if count = 0 then 1
  else if count < kernel then 1 - (count : 𝕜) / kernel
  else if count < N ∧ N - count < kernel then 1 - ((N - count : ℕ) : 𝕜) / kernel
  else 0

/-- The histogram, smoothed by the triangle. -/
def smoothVotes (num : Numerics 𝕜) (N : ℕ) (H : ℕ → 𝕜) : ℕ → 𝕜 :=
  let X1 := num.RealFFT H N
  let X2 := num.RealFFT (triangle N) N
  num.RealIFFT (setPairs (List.range (N / 2 + 1)) (mulPair X1 X2) X1) N

/-- The weight of a vote. -/
def voteWeight (num : Numerics 𝕜) (v_max : 𝕜) : 𝕜 := num.pow v_max (0.125 : ℚ)

/-! ## Alignment -/

/-- `calc_VAD` -/
def calc_VAD (num : Numerics 𝕜) (sig : Signal 𝕜) : Activity 𝕜 :=
  apply_VAD num.toMath rate_16k.Downsample.toNat sig.Nsamples.toNat fun i => sig.data i

/-- The signals as `split_align` reads them under a window. -/
def windowSignals (num : Numerics 𝕜) (Window : ℕ → 𝕜) (ref deg : Signal 𝕜) : AlignSignals 𝕜 :=
  AlignSignals.at_16k (calc_VAD num ref).VAD ref.Nsamples.toNat deg.Nsamples
    (frameCorrelation num Window rate_16k.Align_Nfft.toNat ref.data deg.data) (voteWeight num)

/-- Under another window the frames have other votes, and nothing else changes. -/
theorem windowSignals_eq (num : Numerics 𝕜) (Window Window' : ℕ → 𝕜) (ref deg : Signal 𝕜) :
    windowSignals num Window ref deg =
      { windowSignals num Window' ref deg with
        vote := (windowSignals num Window ref deg).vote } := by
  unfold windowSignals AlignSignals.at_16k
  dsimp only

/-- The window of `time_align` and `split_align`, as it is filled. -/
def alignWindow (num : Numerics 𝕜) : ℕ → 𝕜 := Whanning num rate_16k.Align_Nfft.toNat

/-- The signals under the window as it is filled. -/
def alignSignals (num : Numerics 𝕜) (ref deg : Signal 𝕜) : AlignSignals 𝕜 :=
  windowSignals num (alignWindow num) ref deg

/-- What the alignment computes by transforms. -/
def transforms (num : Numerics 𝕜) (ref deg : Signal 𝕜) : Transforms 𝕜 :=
  Transforms.at_16k
    (fun r => num.FFTNXCorr (fun i => (calc_VAD num ref).logVAD (r.startr.toNat + i)) r.nr.toNat
      (fun i => (calc_VAD num deg).logVAD (r.startd.toNat + i)) r.nd.toNat)
    (frameCorrelation num (alignWindow num) rate_16k.Align_Nfft.toNat ref.data deg.data)
    (voteWeight num) (smoothVotes num rate_16k.Align_Nfft.toNat)

/-- What a call of `crude_align` leaves of the window of `split_align`: the correlation starts where
the work area does, and the window behind `6 + 3 * Align_Nfft` entries. -/
def overwrite (tr : Transforms 𝕜) (r : CrudeRange) (Window : ℕ → 𝕜) (count : ℕ) : 𝕜 :=
  let i := 6 + 3 * rate_16k.Align_Nfft.toNat + count
  if r.Correlates ∧ i < r.length then tr.correlation r i else Window count

/-- What the estimates for the points leave of the window of `split_align`. -/
def splitWindow (tr : Transforms 𝕜) (sig : Signals 𝕜) (err : ErrorInfo 𝕜) (a : SplitArgs 𝕜)
    (Window : ℕ → 𝕜) : ℕ → 𝕜 :=
  let range Start End :=
    crudeRange sig (testTables err a.Utt_DelayEst Start End) MAXNUTTERANCES
  (breakpoints sig.rate a).foldl (fun Window Utt_BP =>
    overwrite tr (range Utt_BP a.Utt_End) (overwrite tr (range a.Utt_Start Utt_BP) Window)) Window

/-- The signals as the frames of `split_align` see them. -/
def splitSignals (num : Numerics 𝕜) (ref deg : Signal 𝕜) (err : ErrorInfo 𝕜) (a : SplitArgs 𝕜) :
    AlignSignals 𝕜 :=
  let Window := splitWindow (transforms num ref deg) (alignSignals num ref deg).toSignals err a
    (alignWindow num)
  windowSignals num Window ref deg

variable [IsStrictOrderedRing 𝕜] (num : Numerics 𝕜) (around : Surroundings 𝕜)

/-- `split_align` on two signals. -/
def split_align_on (ref deg : Signal 𝕜) (locals : SplitLocals) (unset : Unset) : SplitAlign 𝕜 :=
  fun err a =>
    split_align (aligner (transforms num ref deg) (alignSignals num ref deg))
      (splitSignals num ref deg err a) locals unset err a

/-- It is `split_align` in a run in which each call has the votes of what is left of the window. -/
theorem split_align_on_eq (ref deg : Signal 𝕜) (locals : SplitLocals) (unset : Unset) :
    split_align_on num ref deg locals unset =
      split_align_calls (aligner (transforms num ref deg) (alignSignals num ref deg))
        (alignSignals num ref deg) (fun err a => (splitSignals num ref deg err a).vote) locals
        unset := by
  funext err a
  have hcall : splitSignals num ref deg err a = (alignSignals num ref deg).inCall
      (fun err a => (splitSignals num ref deg err a).vote) err a := by
    unfold AlignSignals.inCall splitSignals alignSignals
    dsimp only
    exact windowSignals_eq num _ _ ref deg
  unfold split_align_on split_align_calls
  rw [← hcall]

/-- The tables of utterances for two signals. -/
def findUtterances (ref deg : Signal 𝕜) : ErrorInfo 𝕜 :=
  let sig := alignSignals num ref deg
  let tr := transforms num ref deg
  let err_info := crude_align tr sig.toSignals ErrorInfo.zero WHOLE_SIGNAL
  utterance_locate (aligner tr sig) (split_align_on num ref deg around.locals around.unset)
    sig.toSignals err_info

/-! ## The measurement -/

/-- The signal after its level is fixed and it is heard. -/
def prepare (sig : Signal 𝕜) (maxNsamples : ℤ) : Option (Signal 𝕜) :=
  (fix_power_level num rate_16k sig.data sig.Nsamples maxNsamples).map fun data =>
    { sig with data := listen num rate_16k sig.input_filter sig.Nsamples data }

/-- A signal as it is aligned. -/
def filtered (sig : Signal 𝕜) : Signal 𝕜 :=
  { sig with data := input_filter rate_16k sig.data sig.Nsamples }

/-- The shorter signal is followed by zeros. -/
def extend (sig : Signal 𝕜) (maxNsamples : ℤ) (i : ℤ) : 𝕜 :=
  if sig.Nsamples < maxNsamples ∧ sig.Nsamples + rate_16k.padding ≤ i then 0 else sig.data i

/-- What the acoustic model is given. -/
def acousticInput (ref deg : Signal 𝕜) : AcousticInput 𝕜 where
  rate := rate_16k
  ref_Nsamples := ref.Nsamples
  deg_Nsamples := deg.Nsamples
  ref_data := extend ref (max ref.Nsamples deg.Nsamples)
  deg_data := extend deg (max ref.Nsamples deg.Nsamples)
  err_info := findUtterances num around (filtered ref) (filtered deg)
  toInt := around.toInt

/-- `mapped_mos`: the score on the scale of listeners. -/
def mapped_mos (mode : Mode) (pesq_mos : 𝕜) : 𝕜 :=
  match mode with
  | .NB_MODE =>
    (0.999 : ℚ) + (4 : ℚ) / (1 + num.exp (-(1.4945 : ℚ) * pesq_mos + (4.6607 : ℚ)))
  | .WB_MODE =>
    (0.999 : ℚ) + (4 : ℚ) / (1 + num.exp (-(1.3669 : ℚ) * pesq_mos + (3.8224 : ℚ)))

/-- The scores in the record. -/
structure Scores (𝕜 : Type*) where
  pesq_mos : 𝕜
  mapped_mos : 𝕜

/-- The scores in the record. In wideband mode there is no score on the first scale. -/
def scoresOf (mode : Mode) (pesq_mos : 𝕜) : Scores 𝕜 where
  pesq_mos :=
    match mode with
    | .NB_MODE => pesq_mos
    | .WB_MODE => -1
  mapped_mos := mapped_mos num mode pesq_mos

/-- How a measurement ends. -/
inductive Outcome (𝕜 : Type*)
  /-- The process exits. -/
  | exits
  /-- Something is computed that is not a number, and what comes of it is left out. -/
  | notNumbers
  /-- The scores. -/
  | score (scores : Scores 𝕜)

/-- `pesq_measure`, for signals at 16 kHz that are loaded and long enough. -/
def pesq_measure (mode : Mode) (ref deg : Signal 𝕜) : Outcome 𝕜 :=
  let maxNsamples := max ref.Nsamples deg.Nsamples
  match prepare num ref maxNsamples, prepare num deg maxNsamples with
  | some ref, some deg =>
    match pesq_psychoacoustic_model num around.frame_disturbance around.frame_disturbance_asym_add
        (acousticInput num around ref deg) with
    | none => .exits
    | some none => .notNumbers
    | some (some pesq_mos) => .score (scoresOf num mode pesq_mos)
  | _, _ => .notNumbers

/-! ## What is printed -/

/-- `scaled_value` of `main`, for the score on the scale of listeners. -/
def scaled_value (mapped_mos : 𝕜) : 𝕜 :=
  let scaled_value := (1.10414616 : ℚ) * mapped_mos + (-0.10414616 : ℚ)
  let scaled_value := if 1 > scaled_value then 1 else scaled_value
  if ((5 : ℚ) : 𝕜) < scaled_value then ((5 : ℚ) : 𝕜) else scaled_value

end TgVoipRate.Pesq.Acoustic
