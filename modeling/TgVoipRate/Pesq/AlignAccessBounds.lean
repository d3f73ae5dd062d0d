import TgVoipRate.Pesq.AlignAccess
import TgVoipRate.Pesq.SplitAlignSpec

/-!
# The accesses of the alignment are in bounds

At 16 kHz, for utterances that lie in the reference. A delay may move the start of a part in front
of a signal or behind it, by any distance: the start is put back, and then the number of windows, or
of frames, may be anything, but those that are accessed lie in both signals.

The delays must leave room for the sums in a `long`. For the least `long`, whose opposite is no
`long`, and for delays that wrap around when the start of an utterance is added, the accesses lie
far outside of the arrays (`alignment_outOfBounds`).
-/

namespace TgVoipRate.Pesq

open Accesses (InBounds Trace when forRange loopTrace inBounds_nil inBounds_cons inBounds_append
  inBounds_when inBounds_forRange inBounds_loopTrace inBounds_fillTrace)

variable {𝕜 : Type*} [Field 𝕜] [LinearOrder 𝕜]

/-! ## The work area -/

section WorkArea

variable {length : AlignArray → ℤ}

/-- A range of the work area. -/
theorem area_inBounds {x N : ℤ} (hx : 0 ≤ x) (hN : x + N ≤ length .ftmp) :
    InBounds length (area_accesses x N) := by
  simp only [area_accesses, inBounds_forRange, inBounds_cons, inBounds_nil, and_true]
  omega

/-- A spectrum has room for two entries more than the samples. -/
theorem RealFFT_inBounds {x : ℤ} (hx : 0 ≤ x) (hlength : x + 1026 ≤ length .ftmp) :
    InBounds length (RealFFT_accesses x 1024) := by
  simp only [RealFFT_accesses, inBounds_append, inBounds_forRange, inBounds_cons, inBounds_nil,
    and_true, show (1024 : ℤ).tdiv 2 = 512 from rfl]
  refine ⟨?_, ?_⟩ <;> omega

/-- The way back. -/
theorem RealIFFT_inBounds {x : ℤ} (hx : 0 ≤ x) (hlength : x + 1026 ≤ length .ftmp) :
    InBounds length (RealIFFT_accesses x 1024) := by
  simp only [RealIFFT_accesses, inBounds_append, inBounds_forRange, inBounds_cons, inBounds_nil,
    and_true, show (1024 : ℤ).tdiv 2 = 512 from rfl]
  refine ⟨⟨?_, ?_⟩, ?_⟩ <;> omega

/-- The product of two spectra. -/
theorem product_inBounds {X1 X2 : ℤ} (hX1 : 0 ≤ X1) (hX2 : 0 ≤ X2)
    (hlength₁ : X1 + 1026 ≤ length .ftmp) (hlength₂ : X2 + 1026 ≤ length .ftmp) :
    InBounds length (product_accesses X1 X2 1024) := by
  simp only [product_accesses, inBounds_forRange, inBounds_cons, inBounds_nil, and_true,
    show (1024 : ℤ).tdiv 2 = 512 from rfl]
  omega

/-- The parts of a work area have room for the frames at 16 kHz. -/
structure WorkArea.Fits (area : WorkArea) (length : AlignArray → ℤ) : Prop where
  /-- The first spectrum. -/
  X1 : 0 ≤ area.X1 ∧ area.X1 + 1026 ≤ length .ftmp
  /-- The second one. -/
  X2 : 0 ≤ area.X2 ∧ area.X2 + 1026 ≤ length .ftmp
  /-- The histogram. -/
  H : 0 ≤ area.H ∧ area.H + 1024 ≤ length .ftmp
  /-- The window. -/
  Window : 0 ≤ area.Window ∧ area.Window + 1024 ≤ length .ftmp

/-- The work area of `time_align`. -/
theorem timeArea_fits (h : 12 * 1024 ≤ length .ftmp) : (timeArea 1024).Fits length := by
  refine ⟨?_, ?_, ?_, ?_⟩ <;> simp only [timeArea] <;> omega

/-- The work area of `split_align`. -/
theorem splitArea_fits (h : 12 * 1024 ≤ length .ftmp) : (splitArea 1024).Fits length := by
  refine ⟨?_, ?_, ?_, ?_⟩ <;> simp only [splitArea] <;> omega

variable {area : WorkArea}

/-- The votes of a peak go around the ends of the histogram. -/
theorem peak_inBounds (h : area.Fits length) {count : ℤ} (hstart : 0 ≤ count)
    (hstop : count < 1024) : InBounds length (peak_accesses area 1024 count) := by
  have hH := h.H
  simp only [peak_accesses, inBounds_forRange, inBounds_cons, inBounds_nil, and_true,
    show (1024 : ℤ).tdiv 64 = 16 from rfl]
  intro k hk hk'
  rw [Int.tmod_eq_emod_of_nonneg (by omega)]
  omega

omit [Field 𝕜] [LinearOrder 𝕜] in
/-- Two frames that lie in the signals. -/
theorem frame_inBounds (h : area.Fits length)
    (hlong : length .ref_data ≤ LONG_MAX ∧ length .deg_data ≤ LONG_MAX) {peak : ℤ → ℤ → ℤ → Bool}
    {vote : ℤ → Trace AlignArray}
    (hvote : ∀ count, 0 ≤ count → count < 1024 → InBounds length (vote count)) {s : FrameScan 𝕜}
    (hr : 0 ≤ s.startr ∧ s.startr + 1024 ≤ length .ref_data)
    (hd : 0 ≤ s.startd ∧ s.startd + 1024 ≤ length .deg_data) :
    InBounds length (frame_accesses area 1024 peak vote s) := by
  obtain ⟨hX1, hX2, hH, hWindow⟩ := h
  have hvotes : InBounds length (forRange 0 1024 fun count =>
      [(.ftmp, area.X1 + count)] ++
        when (peak s.startr s.startd count = true) (vote count)) := by
    simp only [inBounds_forRange, inBounds_append, inBounds_when, inBounds_cons, inBounds_nil,
      and_true]
    exact fun count hstart hstop => ⟨by omega, fun _ => hvote count hstart hstop⟩
  have hwindowed : InBounds length (forRange 0 1024 fun count =>
      [(.ref_data, toLong (count + s.startr)), (.ftmp, area.Window + count),
        (.ftmp, area.X1 + count), (.deg_data, toLong (count + s.startd)),
        (.ftmp, area.X2 + count)]) := by
    have hmax : 0 ≤ LONG_MAX := by decide
    simp only [inBounds_forRange, inBounds_cons, inBounds_nil, and_true]
    intro count hstart hstop
    rw [toLong_eq (by omega) (by omega), toLong_eq (by omega) (by omega)]
    omega
  simp only [frame_accesses, inBounds_append]
  exact ⟨⟨⟨⟨⟨⟨hwindowed, RealFFT_inBounds hX1.1 hX1.2⟩, RealFFT_inBounds hX2.1 hX2.2⟩,
    product_inBounds hX1.1 hX2.1 hX1.2 hX2.2⟩, RealIFFT_inBounds hX1.1 hX1.2⟩,
    area_inBounds hX1.1 (by omega)⟩, hvotes⟩

/-- Smoothing the histogram. -/
theorem smooth_inBounds (h : area.Fits length) : InBounds length (smooth_accesses area 1024) := by
  obtain ⟨hX1, hX2, hH, -⟩ := h
  simp only [smooth_accesses, inBounds_append, inBounds_forRange, inBounds_cons, inBounds_nil,
    and_true, show (1024 : ℤ).tdiv 64 = 16 from rfl]
  refine ⟨⟨⟨⟨⟨⟨⟨⟨?_, ?_⟩, ?_⟩, ?_⟩, ?_⟩, ?_⟩, ?_⟩, ?_⟩, ?_⟩
  · omega
  · omega
  · omega
  · exact RealFFT_inBounds hX1.1 hX1.2
  · exact RealFFT_inBounds hX2.1 hX2.2
  · exact product_inBounds hX1.1 hX2.1 hX1.2 hX2.2
  · exact RealIFFT_inBounds hX1.1 hX1.2
  · omega
  · exact area_inBounds hH.1 hH.2

end WorkArea

/-! ## The arrays -/

section Arrays

omit [Field 𝕜] [LinearOrder 𝕜]

variable (sig : LongSignals 𝕜)

/-- The work area is large enough for the frames. -/
theorem LongSignals.le_length_ftmp : 12 * 1024 ≤ sig.alignLength .ftmp := by
  have hmax : 12 * sig.rate.Align_Nfft ≤ sig.alignLength .ftmp := le_max_right _ _
  rwa [sig.Align_Nfft_eq] at hmax

/-- The signals are padded. -/
theorem LongSignals.length_data :
    sig.alignLength .ref_data = sig.ref_Nsamples + 5120 ∧
      sig.alignLength .deg_data = sig.deg_Nsamples + 5120 := by
  simp only [Signals.alignLength, sig.padding_eq, and_self]

end Arrays

/-! ## `crude_align` -/

section CrudeAlign

variable {sig : LongSignals 𝕜} {err : ErrorInfo 𝕜}

/-- Windows of both signals. -/
structure CrudeRange.InSignals (sig : LongSignals 𝕜) (r : CrudeRange) : Prop where
  /-- Those of the reference. -/
  reference : 0 ≤ r.startr ∧ r.startr + r.nr ≤ sig.VAD_length
  /-- Those of the degraded signal. -/
  degraded : 0 ≤ r.startd ∧ r.startd + r.nd ≤ sig.deg_Nsamples.tdiv 64

omit [Field 𝕜] [LinearOrder 𝕜] in
/-- A delay of any size leaves windows of both signals, or none. -/
theorem shiftedRange_inSignals {Start End : ℤ} (hStart : 0 ≤ Start) (hEnd : End ≤ sig.VAD_length)
    (DelayEst : ℤ)
    (hcorrelates : (shiftedRange 64 sig.deg_Nsamples Start End DelayEst).Correlates) :
    (shiftedRange 64 sig.deg_Nsamples Start End DelayEst).InSignals sig := by
  obtain ⟨hnr, hnd⟩ := hcorrelates
  simp only [shiftedRange] at hnr hnd
  -- The division truncates towards zero, the same way for a delay and for the opposite one.
  rw [Int.neg_tdiv] at hnr hnd
  refine ⟨?_, ?_⟩ <;> simp only [shiftedRange] <;> rw [Int.neg_tdiv] <;> split_ifs at * <;> omega

/-- The ends of the windows to search lie in the reference. -/
def SearchFits (sig : Signals 𝕜) (err : ErrorInfo 𝕜) (i : ℤ) : Prop :=
  0 ≤ err.UttSearch_Start i ∧ err.UttSearch_Start i ≤ err.UttSearch_End i ∧
    err.UttSearch_End i ≤ sig.VAD_length

/-- The slot of the tables that a mode of `crude_align` reads. -/
def crudeSlot (Utt_id : ℤ) : ℤ := if Utt_id = MAXNUTTERANCES then Utt_Test else Utt_id

/-- The delay that a mode of `crude_align` reads. -/
def crudeDelayEst (err : ErrorInfo 𝕜) (Utt_id : ℤ) : ℤ :=
  if Utt_id = MAXNUTTERANCES then err.Utt_DelayEst Utt_Test else err.Crude_DelayEst

/-- The part that a mode of `crude_align` searches: the whole signals, or one that lies in the
reference, with a delay that has an opposite. -/
def CrudeFits (sig : Signals 𝕜) (err : ErrorInfo 𝕜) (Utt_id : ℤ) : Prop :=
  Utt_id = WHOLE_SIGNAL ∨
    SearchFits sig err (crudeSlot Utt_id) ∧ |crudeDelayEst err Utt_id| ≤ LONG_MAX

omit [Field 𝕜] [LinearOrder 𝕜] in
/-- The windows of the whole signals, or those of a part that is shifted by a delay. -/
theorem crudeRange_cases (sig : LongSignals 𝕜) (err : ErrorInfo 𝕜) (Utt_id : ℤ) :
    Utt_id = WHOLE_SIGNAL ∧ sig.crudeRange err Utt_id =
        { nr := (sig.ref_Nsamples : ℤ).tdiv sig.rate.Downsample
          nd := sig.deg_Nsamples.tdiv sig.rate.Downsample
          startr := 0
          startd := 0 } ∨
      Utt_id ≠ WHOLE_SIGNAL ∧ sig.crudeRange err Utt_id =
        longRange sig.rate.Downsample sig.deg_Nsamples (err.UttSearch_Start (crudeSlot Utt_id))
          (err.UttSearch_End (crudeSlot Utt_id)) (crudeDelayEst err Utt_id) := by
  unfold LongSignals.crudeRange crudeSlot crudeDelayEst
  by_cases hwhole : Utt_id = WHOLE_SIGNAL
  · exact Or.inl ⟨hwhole, if_pos hwhole⟩
  · rw [if_neg hwhole]
    by_cases hmax : Utt_id = MAXNUTTERANCES
    · rw [if_pos hmax, if_pos hmax, if_pos hmax]
      exact Or.inr ⟨hwhole, rfl⟩
    · rw [if_neg hmax, if_neg hmax, if_neg hmax]
      exact Or.inr ⟨hwhole, rfl⟩

omit [Field 𝕜] [LinearOrder 𝕜] in
/-- In all three modes, the windows that are correlated lie in both signals. -/
theorem crudeRange_inSignals {Utt_id : ℤ} (hfits : CrudeFits sig.toSignals err Utt_id)
    (hcorrelates : (sig.crudeRange err Utt_id).Correlates) :
    (sig.crudeRange err Utt_id).InSignals sig := by
  have hVAD := sig.VAD_length_eq
  rcases crudeRange_cases sig err Utt_id with ⟨-, hrange⟩ | ⟨hwhole, hrange⟩
  · have href : (sig.ref_Nsamples : ℤ).tdiv 64 = sig.ref_Nsamples / 64 :=
      Int.tdiv_eq_ediv_of_nonneg (Int.natCast_nonneg _)
    rw [hrange, sig.Downsample_eq, href]
    refine ⟨⟨le_rfl, ?_⟩, ⟨le_rfl, (zero_add _).le⟩⟩
    rw [hVAD]
    exact (zero_add _).le
  · obtain ⟨⟨hstart, hle, hend⟩, hdelay⟩ := hfits.resolve_left hwhole
    obtain ⟨⟨href, href'⟩, hdeg, hdeg'⟩ := sig.lengths
    have hmax : LONG_MAX < 2^63 := by decide
    rw [hrange, sig.Downsample_eq, longRange_eq (by rw [abs_le]; omega) (by rw [abs_le]; omega)
      (by rw [abs_le]; omega) hdelay] at hcorrelates ⊢
    exact shiftedRange_inSignals hstart hend _ hcorrelates

omit [Field 𝕜] [LinearOrder 𝕜] in
/-- The accesses of `crude_align`. -/
theorem crude_align_inBounds {Utt_id : ℤ} (hfits : CrudeFits sig.toSignals err Utt_id) :
    InBounds sig.alignLength (crude_align_accesses sig err Utt_id) := by
  have hVAD := sig.VAD_length_eq
  unfold crude_align_accesses
  dsimp only
  rw [inBounds_append, inBounds_when, inBounds_when]
  suffices h : (sig.crudeRange err Utt_id).Correlates →
      InBounds sig.alignLength (FFTNXCorr_accesses (sig.crudeRange err Utt_id)) from
    ⟨h, fun hcorrelates => (inBounds_append.mp (h hcorrelates)).2⟩
  intro hcorrelates
  obtain ⟨hreference, hdegraded⟩ := crudeRange_inSignals hfits hcorrelates
  obtain ⟨hnr, hnd⟩ := hcorrelates
  generalize sig.crudeRange err Utt_id = r at *
  obtain ⟨-, hlong, -⟩ := sig.lengths
  have hdeg : sig.deg_Nsamples.tdiv 64 = sig.deg_Nsamples / 64 :=
    Int.tdiv_eq_ediv_of_nonneg (by omega)
  have href : (sig.ref_Nsamples : ℤ).tdiv 64 = sig.ref_Nsamples / 64 :=
    Int.tdiv_eq_ediv_of_nonneg (Int.natCast_nonneg _)
  simp only [FFTNXCorr_accesses, area_accesses, inBounds_append, inBounds_forRange, inBounds_cons,
    inBounds_nil, and_true, Signals.alignLength, sig.Downsample_eq, sig.padding_eq, hdeg, href]
  refine ⟨⟨?_, ?_⟩, ?_⟩ <;> omega

end CrudeAlign

/-! ## The frames -/

section Frames

variable {sig : LongSignals 𝕜}

/-- Forwards, the frames do not start in front of a signal, and their ends are `long`s. -/
def FrameScan.Forward (s : FrameScan 𝕜) : Prop :=
  (0 ≤ s.startr ∧ s.startr + 1024 ≤ LONG_MAX) ∧ 0 ≤ s.startd ∧ s.startd + 1024 ≤ LONG_MAX

/-- Backwards, the frames do not end behind a signal. -/
def FrameScan.Backward (sig : LongSignals 𝕜) (s : FrameScan 𝕜) : Prop :=
  s.startr + 1024 ≤ sig.ref_Nsamples ∧ s.startd + 1024 ≤ sig.deg_Nsamples

omit [LinearOrder 𝕜] in
/-- A delay leaves the first frame forwards behind both starts. -/
theorem forwardStart_forward {Utt_Start delay : ℤ} (hstart : 0 ≤ Utt_Start)
    (hend : Utt_Start ≤ sig.VAD_length) (hdelay : sig.Adds delay) :
    (sig.forwardStart Utt_Start delay).Forward := by
  obtain ⟨⟨hupper, hlower⟩, -⟩ := hdelay.bounds
  obtain ⟨⟨href, hmemory⟩, -⟩ := sig.lengths
  have hVAD := sig.VAD_length_eq
  rw [LongSignals.forwardStart_eq hstart hend hdelay]
  unfold forwardStart FrameScan.Forward
  dsimp only
  rw [sig.Downsample_eq]
  split
  · refine ⟨?_, ?_⟩ <;> dsimp only <;> omega
  · refine ⟨?_, ?_⟩ <;> dsimp only <;> omega

omit [LinearOrder 𝕜] in
/-- A delay leaves the first frame backwards in front of both ends. -/
theorem backwardStart_backward {Utt_End delay : ℤ} (hstart : 0 ≤ Utt_End)
    (hend : Utt_End ≤ sig.VAD_length) (hdelay : sig.Adds delay) :
    (sig.backwardStart Utt_End delay).Backward sig := by
  have hVAD := sig.VAD_length_eq
  rw [LongSignals.backwardStart_eq hstart hend hdelay]
  unfold backwardStart FrameScan.Backward
  dsimp only
  rw [sig.Downsample_eq, sig.Align_Nfft_eq]
  split
  · refine ⟨?_, ?_⟩ <;> dsimp only <;> omega
  · refine ⟨?_, ?_⟩ <;> dsimp only <;> omega

/-- A point in the reference. -/
def PointFits (sig : Signals 𝕜) (Utt_BP : ℤ) : Prop := 0 ≤ Utt_BP ∧ Utt_BP ≤ sig.VAD_length

variable {Utt_BP : ℤ} {s : FrameScan 𝕜}

omit [Field 𝕜] [LinearOrder 𝕜] in
/-- The samples in front of a point are counted by a `long`. -/
theorem PointFits.toLong_eq (hBP : PointFits sig.toSignals Utt_BP) :
    toLong (Utt_BP * 64) = Utt_BP * 64 := by
  obtain ⟨hstart, hend⟩ := hBP
  obtain ⟨⟨href, hmemory⟩, -⟩ := sig.lengths
  have hVAD := sig.VAD_length_eq
  exact Pesq.toLong_eq (by omega) (by omega)

omit [Field 𝕜] [LinearOrder 𝕜] in
/-- What the guard forwards says. -/
theorem FrameScan.Forward.guard_iff (h : s.Forward) (hBP : PointFits sig.toSignals Utt_BP) :
    (sig.forwardFrames Utt_BP).guard s ↔
      s.startd + 1024 ≤ sig.deg_Nsamples ∧ s.startr + 1024 ≤ Utt_BP * 64 := by
  obtain ⟨hr, hd⟩ := h
  show toLong (s.startd + sig.rate.Align_Nfft) ≤ sig.deg_Nsamples ∧
    toLong (s.startr + sig.rate.Align_Nfft) ≤ toLong (Utt_BP * sig.rate.Downsample) ↔ _
  rw [sig.Align_Nfft_eq, sig.Downsample_eq, hBP.toLong_eq, toLong_eq (by omega) (by omega),
    toLong_eq (by omega) (by omega)]

omit [Field 𝕜] [LinearOrder 𝕜] in
/-- What the guard backwards says. -/
theorem backwardFrames_guard_iff (hBP : PointFits sig.toSignals Utt_BP) :
    (sig.backwardFrames Utt_BP).guard s ↔ 0 ≤ s.startd ∧ Utt_BP * 64 ≤ s.startr := by
  show s.startd ≥ 0 ∧ s.startr ≥ toLong (Utt_BP * sig.rate.Downsample) ↔ _
  rw [sig.Downsample_eq, hBP.toLong_eq]

omit [Field 𝕜] [LinearOrder 𝕜] in
/-- A frame forwards is followed by one that does not start in front of a signal. -/
theorem FrameScan.Forward.round (h : s.Forward) (hBP : PointFits sig.toSignals Utt_BP)
    (hguard : (sig.forwardFrames Utt_BP).guard s) :
    ((sig.forwardFrames Utt_BP).body s).Forward := by
  obtain ⟨hdend, hrend⟩ := (h.guard_iff hBP).mp hguard
  obtain ⟨hr, hd⟩ := h
  obtain ⟨⟨href, hmemory⟩, -, hmemory'⟩ := sig.lengths
  have hVAD := sig.VAD_length_eq
  have hBPend := hBP.2
  show (0 ≤ toLong (s.startr + sig.quarter) ∧ toLong (s.startr + sig.quarter) + 1024 ≤ LONG_MAX) ∧
    0 ≤ toLong (s.startd + sig.quarter) ∧ toLong (s.startd + sig.quarter) + 1024 ≤ LONG_MAX
  rw [sig.quarter_eq, toLong_eq (by omega) (by omega), toLong_eq (by omega) (by omega)]
  omega

omit [Field 𝕜] [LinearOrder 𝕜] in
/-- A frame backwards is followed by one that does not end behind a signal. -/
theorem FrameScan.Backward.round (h : s.Backward sig) (hBP : PointFits sig.toSignals Utt_BP)
    (hguard : (sig.backwardFrames Utt_BP).guard s) :
    ((sig.backwardFrames Utt_BP).body s).Backward sig := by
  obtain ⟨hdstart, hrstart⟩ := (backwardFrames_guard_iff hBP).mp hguard
  obtain ⟨hr, hd⟩ := h
  obtain ⟨⟨href, hmemory⟩, hdeg, hmemory'⟩ := sig.lengths
  have hBPstart := hBP.1
  show toLong (s.startr + -sig.quarter) + 1024 ≤ _ ∧ toLong (s.startd + -sig.quarter) + 1024 ≤ _
  rw [sig.quarter_eq, toLong_eq (by omega) (by omega), toLong_eq (by omega) (by omega)]
  omega

variable {area : WorkArea} {peak : ℤ → ℤ → ℤ → Bool} {vote : ℤ → Trace AlignArray}
  (harea : area.Fits sig.alignLength)
  (hvote : ∀ count, 0 ≤ count → count < 1024 → InBounds sig.alignLength (vote count))

include harea hvote

omit [Field 𝕜] [LinearOrder 𝕜] in
/-- The guard forwards keeps the frames in front of both ends. -/
theorem FrameScan.Forward.inBounds (h : s.Forward) (hBP : PointFits sig.toSignals Utt_BP)
    (hguard : (sig.forwardFrames Utt_BP).guard s) :
    InBounds sig.alignLength (frame_accesses area 1024 peak vote s) := by
  obtain ⟨hdend, hrend⟩ := (h.guard_iff hBP).mp hguard
  obtain ⟨hr, hd⟩ := h
  have hVAD := sig.VAD_length_eq
  have hBPend := hBP.2
  obtain ⟨href, hdeg⟩ := sig.length_data
  obtain ⟨⟨-, hmemory⟩, -, hmemory'⟩ := sig.lengths
  exact frame_inBounds harea ⟨by omega, by omega⟩ hvote ⟨hr.1, by omega⟩ ⟨hd.1, by omega⟩

omit [Field 𝕜] [LinearOrder 𝕜] in
/-- The guard backwards keeps the frames behind both starts. -/
theorem FrameScan.Backward.inBounds (h : s.Backward sig) (hBP : PointFits sig.toSignals Utt_BP)
    (hguard : (sig.backwardFrames Utt_BP).guard s) :
    InBounds sig.alignLength (frame_accesses area 1024 peak vote s) := by
  obtain ⟨hdstart, hrstart⟩ := (backwardFrames_guard_iff hBP).mp hguard
  obtain ⟨hr, hd⟩ := h
  have hBPstart := hBP.1
  obtain ⟨href, hdeg⟩ := sig.length_data
  obtain ⟨⟨-, hmemory⟩, -, hmemory'⟩ := sig.lengths
  exact frame_inBounds harea ⟨by omega, by omega⟩ hvote ⟨by omega, by omega⟩
    ⟨hdstart, by omega⟩

end Frames

/-! ## `time_align` -/

omit [LinearOrder 𝕜] in
/-- The accesses of `time_align`. -/
theorem time_align_inBounds {sig : LongSignals 𝕜} {err : ErrorInfo 𝕜}
    (peak : ℤ → ℤ → ℤ → Bool) {Utt_id : ℤ} (hfits : SearchFits sig.toSignals err Utt_id)
    (hdelay : sig.Adds (err.Utt_DelayEst Utt_id)) :
    InBounds sig.alignLength (time_align_accesses sig peak err Utt_id) := by
  obtain ⟨hstart, hle, hend⟩ := hfits
  have hstop : PointFits sig.toSignals (err.UttSearch_End Utt_id) := ⟨hstart.trans hle, hend⟩
  have harea := timeArea_fits sig.le_length_ftmp
  have hvote : ∀ count, 0 ≤ count → count < 1024 →
      InBounds sig.alignLength [(.ftmp, (timeArea 1024).H + count)] := by
    have hH := harea.H
    simp only [inBounds_cons, inBounds_nil, and_true]
    omega
  unfold time_align_accesses
  dsimp only
  rw [sig.Align_Nfft_eq]
  simp only [inBounds_append]
  refine ⟨⟨⟨area_inBounds harea.H.1 harea.H.2, area_inBounds harea.Window.1 harea.Window.2⟩, ?_⟩,
    smooth_inBounds harea⟩
  exact inBounds_loopTrace (I := FrameScan.Forward) (fun s hguard hs => hs.round hstop hguard)
    (fun s hguard hs => hs.inBounds harea hvote hstop hguard)
    (forwardStart_forward hstart (hle.trans hend) hdelay)

/-! ## `split_align` -/

section SplitAlign

variable {sig : LongSignals 𝕜} {a : SplitArgs 𝕜}

/-- An utterance that `split_align` is asked about: it lies in the reference, and has enough
speech. -/
structure SplitArgs.Fits (sig : Signals 𝕜) (a : SplitArgs 𝕜) : Prop where
  /-- The utterance starts in the reference. -/
  start : 0 ≤ a.Utt_Start
  /-- Its speech is in it. -/
  speechStart : a.Utt_Start ≤ a.Utt_SpeechStart
  /-- The end of the speech is exclusive, the end of the utterance is not. -/
  speechEnd : a.Utt_SpeechEnd ≤ a.Utt_End + 1
  /-- The utterance ends in the reference. -/
  stop : a.Utt_End ≤ sig.VAD_length
  /-- Its speech is long enough. -/
  long : 200 ≤ a.Utt_Len

/-- The points do not get behind the first one and the last possible one. -/
theorem breakpointsFrom_le (Step last : ℤ) : ∀ (room : ℕ) (Utt_BP : ℤ),
    ∀ x ∈ breakpointsFrom Step last room Utt_BP, x ≤ max Utt_BP last := by
  intro room
  induction room with
  | zero => exact fun Utt_BP x hx => absurd hx List.not_mem_nil
  | succ room ih =>
    intro Utt_BP x hx
    unfold breakpointsFrom at hx
    rcases List.mem_cons.mp hx with rfl | hx
    · exact le_max_left _ _
    · split at hx
      · rename_i hnext
        exact (ih _ x hx).trans (max_le (hnext.trans (le_max_right _ _)) (le_max_right _ _))
      · exact absurd hx List.not_mem_nil

omit [Field 𝕜] [LinearOrder 𝕜] in
/-- The points are in the utterance. -/
theorem SplitArgs.Fits.breakpointAt_mem (h : a.Fits sig.toSignals) {bp : ℕ}
    (hbp : bp < (breakpoints sig.rate a).length) :
    a.Utt_Start ≤ breakpointAt sig.rate a bp ∧ breakpointAt sig.rate a bp ≤ a.Utt_End := by
  obtain ⟨hstart, hspeechStart, hspeechEnd, hstop, hlong⟩ := h
  have hmem : breakpointAt sig.rate a bp ∈ breakpoints sig.rate a := by
    unfold breakpointAt
    rw [List.getD_eq_getElem _ _ hbp]
    exact List.getElem_mem hbp
  have hle := breakpointsFrom_le _ _ 40 _ _ hmem
  have hge := (breakpointsFrom_pairwise (sig.breakpointStep_pos (show 2 ≤ a.Utt_Len by omega)) _ 40
    _).2 _ hmem
  have hpad : 75 ≤ breakpointPad a.Utt_Len ∧ 2 * breakpointPad a.Utt_Len ≤ a.Utt_Len := by
    unfold breakpointPad
    rw [Int.tdiv_eq_ediv_of_nonneg (by omega)]
    split <;> omega
  unfold SplitArgs.Utt_Len at *
  omega

omit [Field 𝕜] [LinearOrder 𝕜] in
/-- The utterance starts in front of its end. -/
theorem SplitArgs.Fits.start_le_stop (h : a.Fits sig.toSignals) : a.Utt_Start ≤ a.Utt_End := by
  obtain ⟨hstart, hspeechStart, hspeechEnd, hstop, hlong⟩ := h
  unfold SplitArgs.Utt_Len at hlong
  omega

omit [Field 𝕜] [LinearOrder 𝕜] in
/-- The points are in the reference. -/
theorem SplitArgs.Fits.pointFits (h : a.Fits sig.toSignals) {bp : ℕ}
    (hbp : bp < (breakpoints sig.rate a).length) :
    PointFits sig.toSignals (breakpointAt sig.rate a bp) := by
  obtain ⟨hle, hge⟩ := h.breakpointAt_mem hbp
  exact ⟨h.start.trans hle, hge.trans h.stop⟩

variable [IsStrictOrderedRing 𝕜]

/-- The accesses of `split_align`. -/
theorem split_align_inBounds (peak : ℤ → ℤ → ℤ → Bool) (unset : Unset) (err : ErrorInfo 𝕜)
    (hfits : a.Fits sig.toSignals) (hdelay : |a.Utt_DelayEst| ≤ LONG_MAX) {Utt_ED1 Utt_ED2 : ℕ → ℤ}
    (hED1 : ∀ bp, sig.Adds (Utt_ED1 bp)) (hED2 : ∀ bp, sig.Adds (Utt_ED2 bp)) :
    InBounds sig.alignLength (split_align_accesses sig peak unset err a Utt_ED1 Utt_ED2) := by
  have harea := splitArea_fits sig.le_length_ftmp
  have hvote : ∀ count, 0 ≤ count → count < 1024 →
      InBounds sig.alignLength (peak_accesses (splitArea 1024) 1024 count) := fun count =>
    peak_inBounds harea
  have hH := area_inBounds harea.H.1 harea.H.2
  have hstart := hfits.start
  have hstop := hfits.stop
  have hle : a.Utt_Start ≤ a.Utt_End := hfits.start_le_stop
  -- The estimate for a part of the utterance, in the last slot.
  have htest : ∀ {Start End : ℤ}, 0 ≤ Start → Start ≤ End → End ≤ sig.VAD_length →
      InBounds sig.alignLength (crude_align_accesses sig
        (testTables err a.Utt_DelayEst Start End) MAXNUTTERANCES) := by
    intro Start End hStart hle hEnd
    refine crude_align_inBounds (Or.inr ⟨?_, ?_⟩)
    · have hslot : crudeSlot MAXNUTTERANCES = Utt_Test := if_pos rfl
      unfold SearchFits testTables
      rw [hslot]
      simp only [Function.update_self]
      exact ⟨hStart, hle, hEnd⟩
    · have hread : crudeDelayEst (testTables err a.Utt_DelayEst Start End) MAXNUTTERANCES =
          a.Utt_DelayEst := by
        unfold crudeDelayEst testTables
        rw [if_pos rfl]
        exact Function.update_self Utt_Test _ err.Utt_DelayEst
      rwa [hread]
  unfold split_align_accesses
  dsimp only
  rw [sig.Align_Nfft_eq]
  simp only [inBounds_append]
  refine ⟨⟨⟨area_inBounds harea.Window.1 harea.Window.2, ?_⟩, ?_⟩, ?_⟩
  · intro access haccess
    obtain ⟨bp, hbp, haccess⟩ := List.mem_flatMap.mp haccess
    obtain ⟨hbpStart, hbpEnd⟩ := hfits.breakpointAt_mem (List.mem_range.mp hbp)
    rcases List.mem_append.mp haccess with haccess | haccess
    · exact htest hstart hbpStart (by omega) access haccess
    · exact htest (by omega) hbpEnd hstop access haccess
  · refine inBounds_fillTrace (I := FrameScan.Forward)
      (fun bp _ => forwardStart_forward hstart (by omega) (hED1 bp))
      (fun bp hbp s hguard hs => ?_) hH (fun bp hbp s hguard hs => ?_) hH _
    · exact hs.round (hfits.pointFits (List.mem_range.mp hbp)) hguard
    · exact hs.inBounds harea hvote (hfits.pointFits (List.mem_range.mp hbp)) hguard
  · refine inBounds_fillTrace (I := FrameScan.Backward sig)
      (fun bp _ => backwardStart_backward (by omega) hstop (hED2 bp))
      (fun bp hbp s hguard hs => ?_) hH (fun bp hbp s hguard hs => ?_) hH _
    · exact hs.round (hfits.pointFits (List.mem_range.mp (List.mem_reverse.mp hbp))) hguard
    · exact hs.inBounds harea hvote
        (hfits.pointFits (List.mem_range.mp (List.mem_reverse.mp hbp))) hguard

end SplitAlign

/-! ## The whole alignment -/

/-- The ends of an utterance lie in the reference. -/
def UtteranceFits (sig : Signals 𝕜) (err : ErrorInfo 𝕜) (i : ℤ) : Prop :=
  0 ≤ err.Utt_Start i ∧ err.Utt_Start i ≤ err.Utt_End i ∧ err.Utt_End i ≤ sig.VAD_length

/-- The search for speech does not go back. -/
theorem le_speechStart (VAD : ℕ → 𝕜) (Utt_End Utt_SpeechStart : ℤ) :
    Utt_SpeechStart ≤ speechStart VAD Utt_End Utt_SpeechStart := by
  induction Utt_SpeechStart using speechStart.induct VAD Utt_End with
  | case1 Utt_SpeechStart hquiet ih =>
    rw [speechStart, if_pos hquiet]
    omega
  | case2 Utt_SpeechStart hfound => rw [speechStart, if_neg hfound]

/-- The search for speech from the end does not go forward. -/
theorem speechEnd_le (VAD : ℕ → 𝕜) (Utt_Start Utt_SpeechEnd : ℤ) :
    speechEnd VAD Utt_Start Utt_SpeechEnd ≤ Utt_SpeechEnd := by
  induction Utt_SpeechEnd using speechEnd.induct VAD Utt_Start with
  | case1 Utt_SpeechEnd hquiet ih =>
    rw [speechEnd, if_pos hquiet]
    omega
  | case2 Utt_SpeechEnd hfound => rw [speechEnd, if_neg hfound]

/-- What `utterance_split` asks about an utterance in the reference. -/
theorem fits_args {sig : Signals 𝕜} {s : SplitState 𝕜} (hfits : UtteranceFits sig s.err s.Utt_id)
    (hlong : (s.args sig).Utt_Len ≥ 200) : (s.args sig).Fits sig where
  start := hfits.1
  speechStart := le_speechStart _ _ _
  speechEnd := Int.add_le_add_right (speechEnd_le _ _ _) 1
  stop := hfits.2.2
  long := hlong

/-- For tables of utterances in the reference, every access of the alignment is inside its array: in
the three modes of `crude_align` for every delay that has an opposite, in `time_align` and in
`split_align` for every delay that leaves room for the sums with it. -/
theorem alignment_inBounds [IsStrictOrderedRing 𝕜] (sig : LongSignals 𝕜)
    (peak : ℤ → ℤ → ℤ → Bool) (err : ErrorInfo 𝕜) :
    (∀ Utt_id, CrudeFits sig.toSignals err Utt_id →
      InBounds sig.alignLength (crude_align_accesses sig err Utt_id)) ∧
    (∀ Utt_id, SearchFits sig.toSignals err Utt_id → sig.Adds (err.Utt_DelayEst Utt_id) →
      InBounds sig.alignLength (time_align_accesses sig peak err Utt_id)) ∧
    ∀ Utt_id, UtteranceFits sig.toSignals err Utt_id →
      let a := SplitState.args sig.toSignals { err, Utt_id }
      a.Utt_Len ≥ 200 → |a.Utt_DelayEst| ≤ LONG_MAX →
        ∀ (unset : Unset) (Utt_ED1 Utt_ED2 : ℕ → ℤ), (∀ bp, sig.Adds (Utt_ED1 bp)) →
          (∀ bp, sig.Adds (Utt_ED2 bp)) →
            InBounds sig.alignLength (split_align_accesses sig peak unset err a Utt_ED1 Utt_ED2) :=
  ⟨fun _ hfits => crude_align_inBounds hfits,
    fun _ hfits hdelay => time_align_inBounds peak hfits hdelay,
    fun _ hfits hlong hdelay unset _ _ hED1 hED2 =>
      split_align_inBounds peak unset err (fits_args hfits hlong) hdelay hED1 hED2⟩

/-- Signals of two and a half seconds. -/
def shortSignals : LongSignals ℚ :=
  { shiftedSignals with
    rate_eq := rfl
    admits := by
      show ¬(_ ∨ _)
      decide
    ref_long := by decide
    deg_long := by decide }

/-- One utterance, with a delay that starts it a hundred windows in front of the degraded signal. -/
def earlyTables : ErrorInfo ℚ :=
  { ErrorInfo.zero with
    Nutterances := 1
    Crude_DelayEst := -6400
    Utt_DelayEst := fun _ => -6400
    UttSearch_End := fun _ => 600
    Utt_Start := fun _ => 100
    Utt_End := fun _ => 500 }

/-- Arrays of `split_align` that happen to be clear. -/
def clearArrays : Unset := ⟨fun _ => 0, fun _ => 0, fun _ => 0, fun _ => 0⟩

/-- The accesses for it are inside the arrays, also those for a split, for any parts with such a
delay. -/
theorem alignment_inBounds_early :
    InBounds shortSignals.alignLength (crude_align_accesses shortSignals earlyTables 0) ∧
      InBounds shortSignals.alignLength
        (time_align_accesses shortSignals (fun _ _ _ => true) earlyTables 0) ∧
      InBounds shortSignals.alignLength
        (split_align_accesses shortSignals (fun _ _ _ => true) clearArrays earlyTables
          (SplitState.args shortSignals.toSignals { err := earlyTables, Utt_id := 0 })
          (fun _ => -6400) fun _ => -6400) := by
  have hfits : SearchFits shortSignals.toSignals earlyTables 0 := by
    unfold SearchFits
    decide
  have hdelay : shortSignals.Adds (-6400) := by
    unfold LongSignals.Adds
    decide
  have hutterance : UtteranceFits shortSignals.toSignals earlyTables 0 := by
    unfold UtteranceFits
    decide
  have hlong : (SplitState.args shortSignals.toSignals
      { err := earlyTables, Utt_id := 0 }).Utt_Len ≥ 200 := by
    unfold SplitArgs.Utt_Len SplitState.args
    dsimp only
    rw [speechStart, if_neg (by decide), speechEnd, if_neg (by decide)]
    decide
  obtain ⟨hcrude, htime, hsplit⟩ :=
    alignment_inBounds shortSignals (fun _ _ _ => true) earlyTables
  exact ⟨hcrude 0 (Or.inr ⟨hfits, by decide⟩), htime 0 hfits hdelay,
    hsplit 0 hutterance hlong (by decide) _ _ _ (fun _ => hdelay) fun _ => hdelay⟩

/-- The same utterance, with the largest delay, and the least one for the signals as a whole. -/
def wrappingTables : ErrorInfo ℚ :=
  { earlyTables with
    Crude_DelayEst := -LONG_MAX - 1
    Utt_DelayEst := fun _ => LONG_MAX
    UttSearch_Start := fun _ => 100 }

/-- The accesses for them are not: the opposite of the least delay is the delay itself, and with the
start of the utterance added, the largest one gets negative. The part is put back to the start of
the degraded signal, far in front of the reference. -/
theorem alignment_outOfBounds :
    (SearchFits shortSignals.toSignals wrappingTables 0 ∧
      UtteranceFits shortSignals.toSignals wrappingTables 0) ∧
    ¬InBounds shortSignals.alignLength (crude_align_accesses shortSignals wrappingTables 0) ∧
    ¬InBounds shortSignals.alignLength
      (time_align_accesses shortSignals (fun _ _ _ => true) wrappingTables 0) := by
  refine ⟨⟨by unfold SearchFits; decide, by unfold UtteranceFits; decide⟩, ?_, ?_⟩
  · intro h
    have hrange : shortSignals.crudeRange wrappingTables 0 =
        { nr := 600 + 2^57, nd := 625, startr := -2^57, startd := 0 } := rfl
    unfold crude_align_accesses at h
    dsimp only at h
    rw [hrange, inBounds_append, inBounds_when] at h
    have hcorr := h.1 (by decide)
    simp only [FFTNXCorr_accesses, inBounds_append, inBounds_forRange, inBounds_cons] at hcorr
    exact absurd (hcorr.1.1 0 le_rfl (by decide)).1.1 (by decide)
  · intro h
    have hstart : shortSignals.forwardStart 100 LONG_MAX =
        { startr := -LONG_MAX, startd := 0, hist := Histogram.clear } := rfl
    have hguard : (shortSignals.forwardFrames 600).guard
        { startr := -LONG_MAX, startd := 0, hist := Histogram.clear } := by
      show _ ∧ _
      decide
    have hframes := (inBounds_append.mp (inBounds_append.mp h).1).2
    change InBounds _ (loopTrace (shortSignals.forwardFrames 600) _
      (shortSignals.forwardStart 100 LONG_MAX)) at hframes
    rw [hstart, loopTrace, if_pos hguard] at hframes
    simp only [frame_accesses, inBounds_append, inBounds_forRange, inBounds_cons] at hframes
    exact absurd (hframes.1.1.1.1.1.1.1 0 le_rfl (by decide)).1.1 (by decide)

end TgVoipRate.Pesq
