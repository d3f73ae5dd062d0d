import TgVoipRate.Lib.Access
import TgVoipRate.Pesq.LongAlign

/-!
# The array accesses of the alignment

`crude_align`, `time_align` and `split_align` of `pesqdsp.c`, each with the entries that it reads
and writes of the activities, of the signals and of the work area `ftmp`, those included that
`FFTNXCorr`, `RealFFT` and `RealIFFT` of `dsp.c` access through their arguments.

What is computed in floating point enters as an input: the votes, the delays that were estimated for
the points of `split_align`, and which entries of a correlation are peaks. The sums with a delay are
made in a `long` (`LongAlign.lean`).
-/

namespace TgVoipRate.Pesq

open Accesses (Trace when forRange loopTrace fillTrace)

/-- The arrays. -/
inductive AlignArray
  | ref_logVAD
  | deg_logVAD
  | ref_data
  | deg_data
  | ftmp

variable {𝕜 : Type*} [Field 𝕜] [LinearOrder 𝕜]

/-- The number of entries of an array. -/
def Signals.alignLength (sig : Signals 𝕜) : AlignArray → ℤ
  | .ref_logVAD => (sig.ref_Nsamples : ℤ).tdiv sig.rate.Downsample
  | .deg_logVAD => sig.deg_Nsamples.tdiv sig.rate.Downsample
  | .ref_data => sig.ref_Nsamples + sig.rate.padding
  | .deg_data => sig.deg_Nsamples + sig.rate.padding
  | .ftmp =>
    max (max (sig.ref_Nsamples + sig.rate.padding) (sig.deg_Nsamples + sig.rate.padding))
      (12 * sig.rate.Align_Nfft)

/-! ## Transforms in the work area -/

/-- `RealFFT` reads the samples, and writes half of the spectrum. -/
def RealFFT_accesses (x N : ℤ) : Trace AlignArray :=
  forRange 0 N (fun i => [(.ftmp, x + i)]) ++
    forRange 0 (N.tdiv 2 + 1) fun i => [(.ftmp, x + 2 * i), (.ftmp, x + (2 * i + 1))]

/-- `RealIFFT` reads half of the spectrum, the inner part twice, and writes the samples. -/
def RealIFFT_accesses (x N : ℤ) : Trace AlignArray :=
  forRange 0 (N.tdiv 2 + 1) (fun i => [(.ftmp, x + 2 * i), (.ftmp, x + (2 * i + 1))]) ++
    forRange (N.tdiv 2 + 1) N (fun i =>
      [(.ftmp, x + 2 * (N - i)), (.ftmp, x + (2 * (N - i) + 1))]) ++
    forRange 0 N fun i => [(.ftmp, x + i)]

/-- The product of two spectra. -/
def product_accesses (X1 X2 N : ℤ) : Trace AlignArray :=
  forRange 0 (N.tdiv 2 + 1) fun count =>
    [(.ftmp, X1 + count * 2), (.ftmp, X1 + (1 + count * 2)), (.ftmp, X2 + count * 2),
      (.ftmp, X2 + (1 + count * 2))]

/-- A range of the work area. -/
def area_accesses (x N : ℤ) : Trace AlignArray := forRange 0 N fun count => [(.ftmp, x + count)]

/-! ## `crude_align` -/

/-- `FFTNXCorr` reads its two arguments, and writes the correlation to the work area. -/
def FFTNXCorr_accesses (r : CrudeRange) : Trace AlignArray :=
  forRange 0 r.nr (fun C => [(.ref_logVAD, r.startr + C)]) ++
    forRange 0 r.nd (fun C => [(.deg_logVAD, r.startd + C)]) ++
    area_accesses 0 (r.nr + r.nd - 1)

/-- `crude_align` -/
def crude_align_accesses (sig : LongSignals 𝕜) (err : ErrorInfo 𝕜) (Utt_id : ℤ) :
    Trace AlignArray :=
  let r := sig.crudeRange err Utt_id
  when r.Correlates (FFTNXCorr_accesses r) ++
    when r.Correlates (area_accesses 0 (r.nr + r.nd - 1))

/-! ## Frames -/

/-- Where the parts of the work area start. -/
structure WorkArea where
  X1 : ℤ
  X2 : ℤ
  H : ℤ
  Window : ℤ

/-- The work area of `time_align`. -/
def timeArea (Align_Nfft : ℤ) : WorkArea where
  X1 := 0
  X2 := Align_Nfft + 2
  H := 4 + 2 * Align_Nfft
  Window := 5 * Align_Nfft

/-- The work area of `split_align`. -/
def splitArea (Align_Nfft : ℤ) : WorkArea where
  X1 := 0
  X2 := 2 + Align_Nfft
  H := 4 + 2 * Align_Nfft
  Window := 6 + 3 * Align_Nfft

/-- The correlation of two frames, and the votes for its peaks. -/
def frame_accesses (area : WorkArea) (N : ℤ) (peak : ℤ → ℤ → ℤ → Bool) (vote : ℤ → Trace AlignArray)
    (s : FrameScan 𝕜) : Trace AlignArray :=
  forRange 0 N (fun count =>
      [(.ref_data, toLong (count + s.startr)), (.ftmp, area.Window + count),
        (.ftmp, area.X1 + count), (.deg_data, toLong (count + s.startd)),
        (.ftmp, area.X2 + count)]) ++
    RealFFT_accesses area.X1 N ++ RealFFT_accesses area.X2 N ++
    product_accesses area.X1 area.X2 N ++ RealIFFT_accesses area.X1 N ++
    area_accesses area.X1 N ++
    forRange 0 N fun count =>
      [(.ftmp, area.X1 + count)] ++ when (peak s.startr s.startd count = true) (vote count)

/-! ## `time_align` -/

/-- The histogram is smoothed by a triangle, and searched for the maximum. -/
def smooth_accesses (area : WorkArea) (N : ℤ) : Trace AlignArray :=
  forRange 0 N (fun count =>
      [(.ftmp, area.H + count), (.ftmp, area.X1 + count), (.ftmp, area.X2 + count)]) ++
    [(.ftmp, area.X2 + 0)] ++
    forRange 1 (N.tdiv 64) (fun count =>
      [(.ftmp, area.X2 + count), (.ftmp, area.X2 + (N - count))]) ++
    RealFFT_accesses area.X1 N ++ RealFFT_accesses area.X2 N ++
    product_accesses area.X1 area.X2 N ++ RealIFFT_accesses area.X1 N ++
    forRange 0 N (fun count => [(.ftmp, area.X1 + count), (.ftmp, area.H + count)]) ++
    area_accesses area.H N

/-- `time_align` -/
def time_align_accesses (sig : LongSignals 𝕜) (peak : ℤ → ℤ → ℤ → Bool) (err : ErrorInfo 𝕜)
    (Utt_id : ℤ) : Trace AlignArray :=
  let N := sig.rate.Align_Nfft
  let area := timeArea N
  area_accesses area.H N ++ area_accesses area.Window N ++
    loopTrace (sig.forwardFrames (err.UttSearch_End Utt_id))
      (frame_accesses area N peak fun count => [(.ftmp, area.H + count)])
      (sig.forwardStart (err.UttSearch_Start Utt_id) (err.Utt_DelayEst Utt_id)) ++
    smooth_accesses area N

/-! ## `split_align` -/

/-- A peak votes for the delays around it. -/
def peak_accesses (area : WorkArea) (N count : ℤ) : Trace AlignArray :=
  forRange (1 - N.tdiv 64) (N.tdiv 64) fun k => [(.ftmp, area.H + (count + k + N).tmod N)]

/-- The frames of `split_align`. -/
def splitFrame_accesses (N : ℤ) (peak : ℤ → ℤ → ℤ → Bool) (s : FrameScan 𝕜) : Trace AlignArray :=
  frame_accesses (splitArea N) N peak (peak_accesses (splitArea N) N) s

variable [IsStrictOrderedRing 𝕜]

/-- `split_align`, for any delays that were estimated for the parts at the points. -/
def split_align_accesses (sig : LongSignals 𝕜) (peak : ℤ → ℤ → ℤ → Bool) (unset : Unset)
    (err : ErrorInfo 𝕜) (a : SplitArgs 𝕜) (Utt_ED1 Utt_ED2 : ℕ → ℤ) : Trace AlignArray :=
  let N := sig.rate.Align_Nfft
  let area := splitArea N
  let N_BPs := (breakpoints sig.rate a).length
  let Utt_BPs := breakpointAt sig.rate a
  let first := sig.firstParts a.Utt_Start N_BPs Utt_BPs Utt_ED1 unset.Utt_D1
  area_accesses area.Window N ++
    (List.range N_BPs).flatMap (fun bp =>
      crude_align_accesses sig (testTables err a.Utt_DelayEst a.Utt_Start (Utt_BPs bp))
          MAXNUTTERANCES ++
        crude_align_accesses sig (testTables err a.Utt_DelayEst (Utt_BPs bp) a.Utt_End)
          MAXNUTTERANCES) ++
    -- Each histogram is cleared before its frames, and searched for the maximum behind them.
    fillTrace (sig.forward_pass a.Utt_Start N_BPs Utt_BPs Utt_ED1) (area_accesses area.H N)
      (splitFrame_accesses N peak) (area_accesses area.H N) (forwardInit unset.Utt_D1) ++
    fillTrace (sig.backward_pass a.Utt_End N_BPs Utt_BPs Utt_ED2) (area_accesses area.H N)
      (splitFrame_accesses N peak) (area_accesses area.H N)
      (backwardInit a.Utt_DelayConf first unset.Utt_D2)

end TgVoipRate.Pesq
