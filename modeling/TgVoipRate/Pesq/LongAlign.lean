import TgVoipRate.Pesq.CrudeAlign
import TgVoipRate.Pesq.FrameRange

/-!
# The alignment in longs

Where `crude_align`, `time_align` and `split_align` read the signals, with the sums of positions and
delays as the source makes them, in a `long` of 64 bits, which wraps. For delays that are close to
the ends of a `long` the sums wrap indeed, and the guards of the loops are fooled by them.

As long as no sum leaves the range of a `long`, these are the ranges and the frames of
`CrudeAlign.lean` and `SplitAlign.lean`, which have integers for positions (`longRange_eq`,
`LongSignals.forwardStart_eq`, `LongSignals.backwardStart_eq`).
-/

namespace TgVoipRate.Pesq

open Loops (Loop Shared)

/-! ## A `long` -/

/-- The largest `long`. -/
def LONG_MAX : ℤ := 2^63 - 1

/-- What a `long` keeps of a number. -/
def toLong (x : ℤ) : ℤ := x.bmod (2^64)

/-- A number in the range of a `long` is kept. -/
theorem toLong_eq {x : ℤ} (hlow : -LONG_MAX - 1 ≤ x) (hhigh : x ≤ LONG_MAX) : toLong x = x := by
  unfold LONG_MAX at hlow hhigh
  exact Int.bmod_eq_of_le (by omega) (by omega)

/-- What is kept is in the range. -/
theorem neg_le_toLong (x : ℤ) : -LONG_MAX - 1 ≤ toLong x := by
  have hle : -((2^64 : ℕ) / 2 : ℤ) ≤ x.bmod (2^64) := Int.le_bmod (by decide)
  unfold LONG_MAX toLong
  omega

/-- A number that is not below the range does not grow. -/
theorem toLong_le {x : ℤ} (h : -LONG_MAX - 1 ≤ x) : toLong x ≤ x := by
  unfold LONG_MAX at h
  unfold toLong
  rw [Int.bmod_eq_emod]
  split <;> omega

/-- An operand may be wrapped before a sum is. -/
theorem toLong_add (x y : ℤ) : toLong (toLong x + y) = toLong (x + y) := Int.bmod_add_bmod

variable {𝕜 : Type*}

/-! ## The signals -/

/-- The signals at 16 kHz that `pesq_measure` lets pass. They are in memory: a `long` counts their
samples and those of the padding. -/
structure LongSignals (𝕜 : Type*) extends AlignSignals 𝕜 where
  /-- The rate is the one of the program. -/
  rate_eq : rate = rate_16k
  /-- The signals are long enough. -/
  admits : rate.Admits ref_Nsamples deg_Nsamples
  /-- The reference is in memory. -/
  ref_long : ref_Nsamples + rate.padding ≤ LONG_MAX
  /-- The degraded signal is in memory. -/
  deg_long : deg_Nsamples + rate.padding ≤ LONG_MAX

/-- A delay whose sums with the positions of frames are in the range of a `long`. -/
def LongSignals.Adds (sig : LongSignals 𝕜) (delay : ℤ) : Prop :=
  |delay| + sig.rate.Align_Nfft + max (sig.ref_Nsamples : ℤ) sig.deg_Nsamples ≤ LONG_MAX

/-! ## `crude_align` -/

/-- The windows of a part of the reference, and of the degraded signal behind a delay. -/
def longRange (Downsample deg_Nsamples UttSearch_Start UttSearch_End DelayEst : ℤ) : CrudeRange :=
  let behindStart := toLong (UttSearch_Start + DelayEst.tdiv Downsample)
  let startr :=
    if behindStart < 0 then (toLong (-DelayEst)).tdiv Downsample else UttSearch_Start
  let startd := if behindStart < 0 then 0 else behindStart
  let nr := toLong (UttSearch_End - startr)
  let nd :=
    if toLong (startd + nr) > deg_Nsamples.tdiv Downsample then
      toLong (deg_Nsamples.tdiv Downsample - startd)
    else nr
  { nr, nd, startr, startd }

/-- The windows that `crude_align` correlates in its three modes. -/
def LongSignals.crudeRange (sig : LongSignals 𝕜) (err : ErrorInfo 𝕜) (Utt_id : ℤ) : CrudeRange :=
  if Utt_id = WHOLE_SIGNAL then
    { nr := (sig.ref_Nsamples : ℤ).tdiv sig.rate.Downsample
      nd := sig.deg_Nsamples.tdiv sig.rate.Downsample
      startr := 0
      startd := 0 }
  else if Utt_id = MAXNUTTERANCES then
    longRange sig.rate.Downsample sig.deg_Nsamples (err.UttSearch_Start (MAXNUTTERANCES - 1))
      (err.UttSearch_End (MAXNUTTERANCES - 1)) (err.Utt_DelayEst (MAXNUTTERANCES - 1))
  else
    longRange sig.rate.Downsample sig.deg_Nsamples (err.UttSearch_Start Utt_id)
      (err.UttSearch_End Utt_id) err.Crude_DelayEst

/-- A quotient by the samples in a window is small. -/
theorem abs_tdiv_le {x : ℤ} (h : |x| ≤ LONG_MAX) : |x.tdiv 64| ≤ 2^57 := by
  unfold LONG_MAX at h
  rcases le_total 0 x with hx | hx
  · rw [abs_of_nonneg hx] at h
    rw [Int.tdiv_eq_ediv_of_nonneg hx, abs_of_nonneg (by omega)]
    omega
  · rw [abs_of_nonpos hx] at h
    rw [← neg_neg x, Int.neg_tdiv, abs_neg, Int.tdiv_eq_ediv_of_nonneg (by omega),
      abs_of_nonneg (by omega)]
    omega

/-- For a delay other than the least `long` nothing wraps. -/
theorem longRange_eq {deg_Nsamples Start End DelayEst : ℤ} (hdeg : |deg_Nsamples| ≤ LONG_MAX)
    (hStart : |Start| ≤ 2^60) (hEnd : |End| ≤ 2^60) (hDelay : |DelayEst| ≤ LONG_MAX) :
    longRange 64 deg_Nsamples Start End DelayEst =
      shiftedRange 64 deg_Nsamples Start End DelayEst := by
  have hdegWindows := abs_le.mp (abs_tdiv_le hdeg)
  have hwindows := abs_le.mp (abs_tdiv_le hDelay)
  have hopposite : toLong (-DelayEst) = -DelayEst := by
    obtain ⟨hlow, hhigh⟩ := abs_le.mp hDelay
    exact toLong_eq (by omega) (by omega)
  have hkeep {x : ℤ} (hlow : -2^62 ≤ x) (hhigh : x ≤ 2^62) : toLong x = x :=
    toLong_eq (by unfold LONG_MAX; omega) (by unfold LONG_MAX; omega)
  obtain ⟨hStart, hStart'⟩ := abs_le.mp hStart
  obtain ⟨hEnd, hEnd'⟩ := abs_le.mp hEnd
  unfold longRange shiftedRange
  dsimp only
  rw [hopposite, Int.neg_tdiv]
  generalize deg_Nsamples.tdiv 64 = degWindows at *
  generalize DelayEst.tdiv 64 = windows at *
  rw [hkeep (x := Start + windows) (by omega) (by omega)]
  by_cases hfront : Start + windows < 0
  · simp (disch := omega) only [if_pos hfront, hkeep]
  · simp (disch := omega) only [if_neg hfront, hkeep]

/-! ## The frames -/

section Frames

variable (sig : LongSignals 𝕜)

/-- The frames behind the last ones are still counted by a `long`. -/
theorem LongSignals.add_quarter_le : sig.deg_Nsamples + sig.quarter ≤ LONG_MAX := by
  have hlong := sig.deg_long
  have hquarter : (1024 : ℤ).tdiv 4 = 256 := rfl
  unfold AlignSignals.quarter
  rw [sig.rate_eq] at hlong ⊢
  simp only [Rate.padding, DATAPADDING_MSECS, rate_16k] at hlong ⊢
  omega

/-- The frames vote, and the positions move. -/
def LongSignals.addFrame (hop : ℤ) (s : FrameScan 𝕜) : FrameScan 𝕜 where
  startr := toLong (s.startr + hop)
  startd := toLong (s.startd + hop)
  hist := sig.vote s.startr s.startd s.hist

/-- The frames before a point, forwards. -/
def LongSignals.forwardFrames (Utt_BP : ℤ) : Loop (FrameScan 𝕜) where
  guard s := toLong (s.startd + sig.rate.Align_Nfft) ≤ sig.deg_Nsamples ∧
    toLong (s.startr + sig.rate.Align_Nfft) ≤ toLong (Utt_BP * sig.rate.Downsample)
  body := sig.addFrame sig.quarter
  variant s := (sig.deg_Nsamples + 1 - toLong (s.startd + sig.rate.Align_Nfft)).toNat
  decreases s hguard := by
    have hquarter := sig.toAlignSignals.quarter_le
    have hlong := sig.add_quarter_le
    have hend := hguard.1
    have hlow := neg_le_toLong (s.startd + sig.rate.Align_Nfft)
    have hnext : toLong (toLong (s.startd + sig.quarter) + sig.rate.Align_Nfft) =
        toLong (s.startd + sig.rate.Align_Nfft) + sig.quarter := by
      rw [toLong_add, add_right_comm, ← toLong_add, toLong_eq (by omega) (by omega)]
    show (sig.deg_Nsamples + 1 -
      toLong (toLong (s.startd + sig.quarter) + sig.rate.Align_Nfft)).toNat < _
    omega

/-- The frames behind a point, backwards. -/
def LongSignals.backwardFrames (Utt_BP : ℤ) : Loop (FrameScan 𝕜) where
  guard s := s.startd ≥ 0 ∧ s.startr ≥ toLong (Utt_BP * sig.rate.Downsample)
  body := sig.addFrame (-sig.quarter)
  variant s := (s.startd + 1).toNat
  decreases s hguard := by
    have hquarter := sig.toAlignSignals.quarter_le
    have hlong := sig.add_quarter_le
    have hdeg := sig.admits
    have hstart := hguard.1
    have hnext : toLong (s.startd + -sig.quarter) ≤ s.startd + -sig.quarter :=
      toLong_le (by
        rw [sig.rate_eq] at hdeg
        obtain ⟨-, hdeg⟩ := hdeg.le
        omega)
    show (toLong (s.startd + -sig.quarter) + 1).toNat < _
    omega

variable [Field 𝕜]

/-- Where the frames start that are taken forwards. -/
def LongSignals.forwardStart (Utt_Start estdelay : ℤ) : FrameScan 𝕜 :=
  let startr := toLong (Utt_Start * sig.rate.Downsample)
  let startd := toLong (startr + estdelay)
  if startd < 0 then { startr := toLong (-estdelay), startd := 0, hist := Histogram.clear }
  else { startr, startd, hist := Histogram.clear }

/-- Where the frames start that are taken backwards. -/
def LongSignals.backwardStart (Utt_End estdelay : ℤ) : FrameScan 𝕜 :=
  let startr := toLong (Utt_End * sig.rate.Downsample - sig.rate.Align_Nfft)
  let startd := toLong (startr + estdelay)
  if toLong (startd + sig.rate.Align_Nfft) > sig.deg_Nsamples then
    let startd := toLong (sig.deg_Nsamples - sig.rate.Align_Nfft)
    { startr := toLong (startd - estdelay), startd, hist := Histogram.clear }
  else { startr, startd, hist := Histogram.clear }

end Frames

/-! ## The two passes -/

section Passes

variable [Field 𝕜] [LinearOrder 𝕜] [IsStrictOrderedRing 𝕜] (sig : LongSignals 𝕜)

/-- The parts before the points. -/
def LongSignals.forward_pass (Utt_Start : ℤ) (N_BPs : ℕ) (Utt_BPs Utt_ED1 : ℕ → ℤ) :
    Shared ℕ ℤ (FrameScan 𝕜) (Aligned 𝕜) where
  order := List.range N_BPs
  key := Utt_ED1
  start := sig.forwardStart Utt_Start
  loop bp := sig.forwardFrames (Utt_BPs bp)
  result := evaluate sig.toAlignSignals
  isOpen r := r.DC ≤ -2
  closed := evaluate_closed sig.toAlignSignals

/-- The parts behind the points. -/
def LongSignals.backward_pass (Utt_End : ℤ) (N_BPs : ℕ) (Utt_BPs Utt_ED2 : ℕ → ℤ) :
    Shared ℕ ℤ (FrameScan 𝕜) (Aligned 𝕜) where
  order := (List.range N_BPs).reverse
  key := Utt_ED2
  start := sig.backwardStart Utt_End
  loop bp := sig.backwardFrames (Utt_BPs bp)
  result := evaluate sig.toAlignSignals
  isOpen r := r.DC ≤ -2
  closed := evaluate_closed sig.toAlignSignals

/-- `Utt_D1` and `Utt_DC1` after the first pass. -/
def LongSignals.firstParts (Utt_Start : ℤ) (N_BPs : ℕ) (Utt_BPs Utt_ED1 Utt_D1 : ℕ → ℤ) :
    ℕ → Aligned 𝕜 :=
  (sig.forward_pass Utt_Start N_BPs Utt_BPs Utt_ED1).fill.run (forwardInit Utt_D1)

end Passes

/-! ## Without overflow -/

section Exact

variable {sig : LongSignals 𝕜}

/-- The samples in a window. -/
theorem LongSignals.Downsample_eq (sig : LongSignals 𝕜) : sig.rate.Downsample = 64 :=
  congrArg Rate.Downsample sig.rate_eq

/-- The samples in a frame. -/
theorem LongSignals.Align_Nfft_eq (sig : LongSignals 𝕜) : sig.rate.Align_Nfft = 1024 :=
  congrArg Rate.Align_Nfft sig.rate_eq

/-- The samples behind a signal. -/
theorem LongSignals.padding_eq (sig : LongSignals 𝕜) : sig.rate.padding = 5120 :=
  congrArg Rate.padding sig.rate_eq

/-- A frame moves by 256 samples. -/
theorem LongSignals.quarter_eq (sig : LongSignals 𝕜) : sig.quarter = 256 := by
  unfold AlignSignals.quarter
  rw [sig.Align_Nfft_eq]
  rfl

/-- The number of windows of the reference. -/
theorem LongSignals.VAD_length_eq (sig : LongSignals 𝕜) :
    sig.VAD_length = sig.ref_Nsamples / 64 := by
  unfold Signals.VAD_length
  rw [sig.Downsample_eq]
  rfl

/-- The numbers of samples, between what is admitted and what is in memory. -/
theorem LongSignals.lengths (sig : LongSignals 𝕜) :
    (13600 ≤ (sig.ref_Nsamples : ℤ) ∧ sig.ref_Nsamples + 5120 ≤ LONG_MAX) ∧
      13600 ≤ sig.deg_Nsamples ∧ sig.deg_Nsamples + 5120 ≤ LONG_MAX := by
  have hadmits := sig.admits
  rw [sig.rate_eq] at hadmits
  obtain ⟨href, hdeg⟩ := hadmits.le
  have hreference := sig.ref_long
  have hdegraded := sig.deg_long
  rw [sig.padding_eq] at hreference hdegraded
  exact ⟨⟨href, hreference⟩, hdeg, hdegraded⟩

/-- What the sums with a delay need. -/
theorem LongSignals.Adds.bounds {delay : ℤ} (h : sig.Adds delay) :
    (delay + sig.ref_Nsamples + 1024 ≤ LONG_MAX ∧ -delay + sig.ref_Nsamples + 1024 ≤ LONG_MAX) ∧
      delay + sig.deg_Nsamples + 1024 ≤ LONG_MAX ∧
      -delay + sig.deg_Nsamples + 1024 ≤ LONG_MAX := by
  unfold LongSignals.Adds at h
  rw [sig.Align_Nfft_eq] at h
  have habs := le_abs_self delay
  have hneg := neg_le_abs delay
  omega

variable [Field 𝕜]

/-- The frames forwards start where they do without a bound on the sums. -/
theorem LongSignals.forwardStart_eq {Utt_Start delay : ℤ} (hstart : 0 ≤ Utt_Start)
    (hend : Utt_Start ≤ sig.VAD_length) (h : sig.Adds delay) :
    sig.forwardStart Utt_Start delay = Pesq.forwardStart sig.toAlignSignals Utt_Start delay := by
  obtain ⟨⟨hupper, hlower⟩, -⟩ := h.bounds
  obtain ⟨⟨href, hmemory⟩, -⟩ := sig.lengths
  have hVAD := sig.VAD_length_eq
  have hkeep {x : ℤ} (hlow : -LONG_MAX ≤ x) (hhigh : x ≤ LONG_MAX) : toLong x = x :=
    toLong_eq (by omega) hhigh
  unfold LongSignals.forwardStart Pesq.forwardStart
  dsimp only
  rw [sig.Downsample_eq]
  simp (disch := omega) only [hkeep]

/-- So do the frames backwards. -/
theorem LongSignals.backwardStart_eq {Utt_End delay : ℤ} (hstart : 0 ≤ Utt_End)
    (hend : Utt_End ≤ sig.VAD_length) (h : sig.Adds delay) :
    sig.backwardStart Utt_End delay = Pesq.backwardStart sig.toAlignSignals Utt_End delay := by
  obtain ⟨⟨hupper, hlower⟩, hupper', hlower'⟩ := h.bounds
  obtain ⟨⟨href, hmemory⟩, hdeg, hmemory'⟩ := sig.lengths
  have hVAD := sig.VAD_length_eq
  have hkeep {x : ℤ} (hlow : -LONG_MAX ≤ x) (hhigh : x ≤ LONG_MAX) : toLong x = x :=
    toLong_eq (by omega) hhigh
  unfold LongSignals.backwardStart Pesq.backwardStart
  dsimp only
  rw [sig.Downsample_eq, sig.Align_Nfft_eq]
  simp (disch := omega) only [hkeep]

end Exact

end TgVoipRate.Pesq
