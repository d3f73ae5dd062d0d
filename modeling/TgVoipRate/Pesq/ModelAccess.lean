import TgVoipRate.Lib.Access
import TgVoipRate.Pesq.BadIntervalsSpec
import TgVoipRate.Pesq.FrameRange
import TgVoipRate.Pesq.Utterances

/-!
# The array accesses of the acoustic model

The loops of `pesq_psychoacoustic_model` in `pesqmod.c`, each with the entries that it reads and
writes of the two signals, of the two realigned copies of the degraded one, and of the arrays with
an entry or a row for each frame.

What the loops compute in floating point is not modelled: where an access depends on it, it is a
part of the input (`ModelInput`). The positions of samples are `int`s in the source and integers
here; they are the same for signals of less than `2^30` samples (`accesses_inBounds`). A delay or a
table entry of any size may be converted to an `int`, and what comes of that conversion, and of a
sum with it, is left open (`toInt`).
-/

namespace TgVoipRate.Pesq

open Accesses (Trace when forRange)

variable {𝕜 : Type*}

/-- The arrays. -/
inductive ModelArray
  | ref_data
  | deg_data
  | tweaked_deg
  | doubly_tweaked_deg
  | frame_is_bad
  | smeared_frame_is_bad
  | silent
  | pitch_pow_dens_ref
  | pitch_pow_dens_deg
  | frame_was_skipped
  | frame_disturbance
  | frame_disturbance_asym_add
  | time_weight
  | total_power_ref

/-- The bands for a sample rate. -/
def Rate.Nb (rate : Rate) : ℤ := if rate.Fs = 8000 then 42 else 49

/-- The samples in front of a signal. -/
def Rate.buffer (rate : Rate) : ℤ := SEARCHBUFFER * rate.Downsample

/-- What the accesses depend on. -/
structure ModelInput (𝕜 : Type*) where
  rate : Rate
  /-- The numbers of samples of both signals. -/
  ref_Nsamples : ℤ
  deg_Nsamples : ℤ
  /-- The padded reference. -/
  ref_data : ℤ → 𝕜
  /-- The utterances. -/
  err_info : ErrorInfo 𝕜
  /-- The conversion to `int`. -/
  toInt : ℤ → ℤ
  /-- The frames without an audible sound. -/
  silent : ℤ → Bool
  /-- Whether some frame is bad, before frames are skipped. -/
  there_is_a_bad_frame : Bool
  /-- The bad frames, after frames were skipped. -/
  frame_is_bad : ℕ → Bool
  /-- The delay of a bad interval, after `compute_delay`. -/
  delay_in_samples_in_bad_interval : ℕ → ℤ

/-! ## Functions with array arguments -/

section Functions

variable (rate : Rate)

/-- `short_term_fft` reads a frame of a signal. -/
def short_term_fft (Nf : ℤ) (data : ModelArray) (start_sample : ℤ) : Trace ModelArray :=
  forRange 0 Nf fun n => [(data, start_sample + n)]

/-- `freq_warping` writes the row of a frame. -/
def freq_warping (pitch_pow_dens : ModelArray) (frame : ℤ) : Trace ModelArray :=
  forRange 0 rate.Nb fun bark_band => [(pitch_pow_dens, frame * rate.Nb + bark_band)]

/-- `maximum_of` reads a range. -/
def maximum_of (x : ModelArray) (start stop : ℤ) : Trace ModelArray :=
  forRange start stop fun i => [(x, i)]

/-- `pow_of` reads a range. -/
def pow_of (x : ModelArray) (start_sample stop_sample : ℤ) : Trace ModelArray :=
  forRange start_sample stop_sample fun i => [(x, i)]

/-- `total_audible` reads the row of a frame but for its first band. -/
def total_audible (frame : ℤ) (pitch_pow_dens : ModelArray) : Trace ModelArray :=
  forRange 1 rate.Nb fun band => [(pitch_pow_dens, frame * rate.Nb + band)]

/-- `time_avg_audible_of` reads the rows of the frames that are not silent. -/
def time_avg_audible_of (number_of_frames : ℤ) (silent : ℤ → Bool) (pitch_pow_dens : ModelArray) :
    Trace ModelArray :=
  forRange 0 rate.Nb fun band =>
    forRange 0 number_of_frames fun frame =>
      [(.silent, frame)] ++
        when (silent frame = false) [(pitch_pow_dens, frame * rate.Nb + band)]

/-- `freq_resp_compensation` scales the rows of all frames. -/
def freq_resp_compensation (number_of_frames : ℤ) : Trace ModelArray :=
  forRange 0 rate.Nb fun band =>
    forRange 0 number_of_frames fun frame => [(.pitch_pow_dens_ref, frame * rate.Nb + band)]

/-- `intensity_warping_of` reads the row of a frame. -/
def intensity_warping_of (frame : ℤ) (pitch_pow_dens : ModelArray) : Trace ModelArray :=
  forRange 0 rate.Nb fun band => [(pitch_pow_dens, frame * rate.Nb + band)]

/-- `multiply_with_asymmetry_factor` reads both rows of a frame. -/
def multiply_with_asymmetry_factor (frame : ℤ) : Trace ModelArray :=
  forRange 0 rate.Nb fun i =>
    [(.pitch_pow_dens_deg, frame * rate.Nb + i), (.pitch_pow_dens_ref, frame * rate.Nb + i)]

/-- `Lpq_weight` reads the disturbances of the frames of a syllable up to the last frame, and the
weight of the syllable, from a syllable on. -/
def lpqAccesses (disturbance : ModelArray)
    (start_frame stop_frame start_frame_of_syllable : ℤ) : Trace ModelArray :=
  if start_frame_of_syllable ≤ stop_frame then
    forRange start_frame_of_syllable (start_frame_of_syllable + 20) (fun frame =>
        when (frame ≤ stop_frame) [(disturbance, frame)]) ++
      [(.time_weight, start_frame_of_syllable - start_frame)] ++
      lpqAccesses disturbance start_frame stop_frame (start_frame_of_syllable + 20 / 2)
  else []
termination_by (stop_frame + 1 - start_frame_of_syllable).toNat

/-- The scan over silent samples reads five samples at each position that it looks at. -/
def skipAccesses (quiet : ℤ → Bool) (bound : ℤ) (index : ℤ → ℤ → ℤ) (samples_to_skip : ℤ) :
    Trace ModelArray :=
  forRange 0 5 (fun i => [(.ref_data, index samples_to_skip i)]) ++
    if quiet samples_to_skip = true ∧ samples_to_skip + 1 < bound then
      skipAccesses quiet bound index (samples_to_skip + 1)
    else []
termination_by (bound - samples_to_skip).toNat

end Functions

/-- The flags that going on over frames reads. -/
def skipReads (stop_frame : ℤ) (smeared_frame_is_bad : ℕ → Bool) (value : Bool) (frame : ℕ) :
    Trace ModelArray :=
  if (frame : ℤ) ≤ stop_frame then
    (.smeared_frame_is_bad, frame) ::
      if smeared_frame_is_bad frame = value then
        skipReads stop_frame smeared_frame_is_bad value (frame + 1)
      else []
  else []
termination_by (stop_frame + 1 - frame).toNat

/-- The flags that the collection of intervals reads: a round goes over the frames that are not bad,
and over the bad ones behind them. -/
def collectReads (stop_frame : ℤ) (smeared_frame_is_bad : ℕ → Bool) (s : Collected) :
    Trace ModelArray :=
  if _h : (s.frame : ℤ) ≤ stop_frame then
    skipReads stop_frame smeared_frame_is_bad false s.frame ++
      when ((skip stop_frame smeared_frame_is_bad false s.frame : ℕ) ≤ stop_frame)
        (skipReads stop_frame smeared_frame_is_bad true
          (skip stop_frame smeared_frame_is_bad false s.frame)) ++
      collectReads stop_frame smeared_frame_is_bad (collectStep stop_frame smeared_frame_is_bad s)
  else []
termination_by (stop_frame + 1 - s.frame).toNat
decreasing_by
  have hlt := lt_collectStep smeared_frame_is_bad _h
  omega

/-! ## The tables of utterances -/

/-- The last utterance, of a number of them, that starts at a sample or before; -1 if there is
none. -/
def utteranceAt (err_info : ErrorInfo 𝕜) (Downsample i : ℤ) : ℕ → ℤ
  | 0 => -1
  | utt + 1 =>
    if err_info.Utt_Start utt * Downsample > i then utteranceAt err_info Downsample i utt else utt

/-- The delay at a sample: that of its utterance, or of the first one. -/
def delayAt (err_info : ErrorInfo 𝕜) (Downsample i : ℤ) : ℤ :=
  let utt := utteranceAt err_info Downsample i err_info.Nutterances.toNat
  if utt ≥ 0 then err_info.Utt_Delay utt else err_info.Utt_Delay 0

/-! ## The loops -/

namespace ModelInput

variable [Field 𝕜] [LinearOrder 𝕜] (inp : ModelInput 𝕜)

/-- The number of samples of the longer signal. -/
def maxNsamples : ℤ := max inp.ref_Nsamples inp.deg_Nsamples

/-- The first frame that counts. -/
def start_frame : ℤ := Pesq.start_frame inp.rate inp.ref_data inp.maxNsamples

/-- The last frame. -/
def stop_frame : ℤ := Pesq.stop_frame inp.rate inp.ref_data inp.maxNsamples

/-- The number of entries of an array. `pesq_measure` pads both signals to the same length. -/
def length : ModelArray → ℤ
  | .ref_data | .deg_data | .tweaked_deg | .doubly_tweaked_deg =>
    inp.maxNsamples + inp.rate.padding
  | .pitch_pow_dens_ref | .pitch_pow_dens_deg => (inp.stop_frame + 1) * inp.rate.Nb
  | _ => inp.stop_frame + 1

/-- The scans from both sides, and the powers of both signals. -/
def setUp : Trace ModelArray :=
  skipAccesses (quietAtStart inp.rate inp.ref_data) (inp.maxNsamples.tdiv 2)
      (startIndex inp.rate) 0 ++
    skipAccesses (quietAtEnd inp.rate inp.ref_data inp.maxNsamples) (inp.maxNsamples.tdiv 2)
      (endIndex inp.rate inp.maxNsamples) 0 ++
    pow_of .ref_data inp.rate.buffer (inp.maxNsamples - inp.rate.buffer + inp.rate.padding) ++
    pow_of .deg_data inp.rate.buffer (inp.maxNsamples - inp.rate.buffer + inp.rate.padding)

/-- The sample of the reference where a frame starts. -/
def start_sample_ref (frame : ℤ) : ℤ := inp.rate.buffer + (frame * inp.rate.Nf).tdiv 2

/-- The sample of the degraded signal where a frame starts. -/
def start_sample_deg (frame : ℤ) : ℤ :=
  inp.toInt (inp.start_sample_ref frame +
    inp.toInt (delayAt inp.err_info inp.rate.Downsample (inp.start_sample_ref frame)))

/-- The spectra of all frames. -/
def spectra : Trace ModelArray :=
  forRange 0 (inp.stop_frame + 1) fun frame =>
    short_term_fft inp.rate.Nf .ref_data (inp.start_sample_ref frame) ++
    -- Without the whole frame in the degraded signal, its spectrum is set to zero.
    when (inp.start_sample_deg frame > 0 ∧
        inp.start_sample_deg frame + inp.rate.Nf < inp.maxNsamples + inp.rate.padding)
      (short_term_fft inp.rate.Nf .deg_data (inp.start_sample_deg frame)) ++
    freq_warping inp.rate .pitch_pow_dens_ref frame ++
    maximum_of .pitch_pow_dens_ref 0 inp.rate.Nb ++
    freq_warping inp.rate .pitch_pow_dens_deg frame ++
    total_audible inp.rate frame .pitch_pow_dens_ref ++
    total_audible inp.rate frame .pitch_pow_dens_deg ++
    [(.silent, frame)]

/-- The averages over all frames, and the compensation of the frequency response. -/
def compensation : Trace ModelArray :=
  time_avg_audible_of inp.rate (inp.stop_frame + 1) inp.silent .pitch_pow_dens_ref ++
  time_avg_audible_of inp.rate (inp.stop_frame + 1) inp.silent .pitch_pow_dens_deg ++
  freq_resp_compensation inp.rate (inp.stop_frame + 1)

/-- The disturbance of a frame: its audible powers, the scaling, and the loudness of both rows. -/
def disturbance (frame : ℤ) : Trace ModelArray :=
  total_audible inp.rate frame .pitch_pow_dens_ref ++
  total_audible inp.rate frame .pitch_pow_dens_deg ++
  (forRange 0 inp.rate.Nb fun band => [(.pitch_pow_dens_deg, frame * inp.rate.Nb + band)]) ++
  intensity_warping_of inp.rate frame .pitch_pow_dens_ref ++
  intensity_warping_of inp.rate frame .pitch_pow_dens_deg ++
  [(.frame_disturbance, frame)] ++
  multiply_with_asymmetry_factor inp.rate frame ++
  [(.frame_disturbance_asym_add, frame)]

/-- The disturbances of all frames. -/
def disturbances : Trace ModelArray :=
  (forRange 0 (inp.stop_frame + 1) fun frame =>
    (.total_power_ref, frame) :: inp.disturbance frame) ++
  forRange 0 (inp.stop_frame + 1) fun frame => [(.frame_was_skipped, frame)]

/-- The first frame that is skipped in front of an utterance. -/
def frame1 (utt : ℤ) : ℤ :=
  let half := inp.rate.Nf.tdiv 2
  -- The first number is converted behind its division, and the second one before it.
  let frame1 := inp.toInt (((inp.err_info.Utt_Start utt - SEARCHBUFFER) * inp.rate.Downsample +
    inp.err_info.Utt_Delay utt).tdiv half)
  let j := inp.toInt ((inp.toInt ((inp.err_info.Utt_End (utt - 1) - SEARCHBUFFER) *
    inp.rate.Downsample + inp.err_info.Utt_Delay (utt - 1))).tdiv half)
  let frame1 := if frame1 > j then j else frame1
  if frame1 < 0 then 0 else frame1

/-- The last frame that is skipped. -/
def frame2 (utt delay_jump : ℤ) : ℤ :=
  inp.toInt ((inp.toInt ((inp.err_info.Utt_Start utt - SEARCHBUFFER) * inp.rate.Downsample +
    max 0 |delay_jump|)).tdiv (inp.rate.Nf.tdiv 2) + 1)

/-- The frames that are skipped where the delay gets smaller. -/
def skippedFrames : Trace ModelArray :=
  forRange 1 inp.err_info.Nutterances fun utt =>
    let delay_jump := inp.toInt (inp.err_info.Utt_Delay utt - inp.err_info.Utt_Delay (utt - 1))
    when (delay_jump < -inp.rate.Nf.tdiv 2) <|
      forRange (inp.frame1 utt) (inp.frame2 utt delay_jump + 1) fun frame =>
        when (frame < inp.stop_frame)
          [(.frame_was_skipped, frame), (.frame_disturbance, frame),
            (.frame_disturbance_asym_add, frame)]

/-- A sample of the degraded signal, taken back into the signal without its buffers. -/
def clampToSignal (nn j : ℤ) : ℤ :=
  let j := if j < inp.rate.buffer then inp.rate.buffer else j
  if j ≥ nn - inp.rate.buffer then nn - inp.rate.buffer - 1 else j

/-- The degraded signal, shifted by the delays. -/
def tweaked : Trace ModelArray :=
  let nn := inp.rate.padding + inp.maxNsamples
  (forRange 0 nn fun i => [(.tweaked_deg, i)]) ++
  forRange inp.rate.buffer (nn - inp.rate.buffer) fun i =>
    [(.deg_data, inp.clampToSignal nn (i + delayAt inp.err_info inp.rate.Downsample i)),
      (.tweaked_deg, i)]

/-- The flags of the frames, smeared, and the runs of them. -/
def smearing : Trace ModelArray :=
  (forRange 0 (inp.stop_frame + 1) fun frame =>
    [(.frame_is_bad, frame), (.frame_disturbance, frame), (.smeared_frame_is_bad, frame)]) ++
  [(.frame_is_bad, 0)] ++
  (forRange SMEAR_RANGE (inp.stop_frame - SMEAR_RANGE) fun frame =>
    [(.frame_is_bad, frame)] ++
    (forRange (-SMEAR_RANGE) 1 fun i => [(.frame_is_bad, frame + i)]) ++
    (forRange 0 (SMEAR_RANGE + 1) fun i => [(.frame_is_bad, frame + i)]) ++
    [(.smeared_frame_is_bad, frame)]) ++
  collectReads inp.stop_frame (smear inp.stop_frame inp.frame_is_bad) Collected.init

/-- The bad intervals. -/
def intervals : Collected := badIntervals inp.stop_frame inp.frame_is_bad

/-- The first sample of a bad interval. -/
def start_sample_of_bad_interval (bad_interval : ℕ) : ℤ :=
  inp.intervals.start_frame_of_bad_interval bad_interval * inp.rate.Nf.tdiv 2 + inp.rate.buffer

/-- The sample behind a bad interval, which is computed before its end is taken back. -/
def stop_sample_of_bad_interval (bad_interval : ℕ) : ℤ :=
  ((collect inp.stop_frame (smear inp.stop_frame inp.frame_is_bad)).run
      Collected.init).stop_frame_of_bad_interval bad_interval * inp.rate.Nf.tdiv 2 +
    inp.rate.Nf + inp.rate.buffer

/-- A loop over the bad intervals. -/
def forIntervals (body : ℕ → Trace ModelArray) : Trace ModelArray :=
  (List.range inp.intervals.number_of_bad_intervals).flatMap body

/-- The copies from which the delay of a bad interval is computed. -/
def copies (bad_interval : ℕ) : Trace ModelArray :=
  let start := inp.start_sample_of_bad_interval bad_interval
  let number := inp.stop_sample_of_bad_interval bad_interval - start
  let search_range_in_samples := 4 * inp.rate.Nf
  (forRange 0 number fun i => [(.ref_data, start + i)]) ++
  forRange 0 (2 * search_range_in_samples + number) fun i =>
    let nn := inp.maxNsamples - inp.rate.buffer + inp.rate.padding
    let j := start - search_range_in_samples + i
    -- The range is searched on both sides, and is cut off at the buffers.
    let j := if j < inp.rate.buffer then inp.rate.buffer else j
    let j := if j ≥ nn then nn - 1 else j
    [(.tweaked_deg, j)]

/-- The shift of the samples of a bad interval. -/
def shift (bad_interval : ℕ) : Trace ModelArray :=
  forRange (inp.start_sample_of_bad_interval bad_interval)
    (inp.stop_sample_of_bad_interval bad_interval) fun i =>
      let j := inp.toInt (i + inp.delay_in_samples_in_bad_interval bad_interval)
      -- Here the upper bound is the number of samples without the padding.
      let j := if j < 0 then 0 else j
      let j := if j ≥ inp.maxNsamples then inp.maxNsamples - 1 else j
      [(.tweaked_deg, j), (.doubly_tweaked_deg, i)]

/-- The spectra of the frames of a bad interval, and their new disturbances. -/
def again (bad_interval : ℕ) : Trace ModelArray :=
  let start := inp.intervals.start_frame_of_bad_interval bad_interval
  let stop := inp.intervals.stop_frame_of_bad_interval bad_interval
  (forRange start stop fun frame =>
    short_term_fft inp.rate.Nf .doubly_tweaked_deg (inp.start_sample_ref frame) ++
    freq_warping inp.rate .pitch_pow_dens_deg frame) ++
  forRange start stop inp.disturbance

/-- The realignment of the bad intervals. -/
def realignment : Trace ModelArray :=
  inp.smearing ++ inp.forIntervals inp.copies ++
  -- The second copy is only made if an interval was found.
  when (inp.intervals.number_of_bad_intervals > 0)
    ((forRange 0 (inp.maxNsamples + inp.rate.padding) fun i =>
        [(.tweaked_deg, i), (.doubly_tweaked_deg, i)]) ++
      inp.forIntervals inp.shift ++ inp.forIntervals inp.again)

/-- The weights of the frames, and the averages. -/
def averages : Trace ModelArray :=
  (forRange 0 (inp.stop_frame + 1) fun frame => [(.time_weight, frame)]) ++
  (forRange 0 (inp.stop_frame + 1) fun frame =>
    [(.total_power_ref, frame), (.frame_disturbance, frame),
      (.frame_disturbance_asym_add, frame)]) ++
  lpqAccesses .frame_disturbance inp.start_frame inp.stop_frame inp.start_frame ++
  lpqAccesses .frame_disturbance_asym_add inp.start_frame inp.stop_frame inp.start_frame

/-- `pesq_psychoacoustic_model` -/
def accesses : Trace ModelArray :=
  inp.setUp ++ inp.spectra ++ inp.compensation ++ inp.disturbances ++ inp.skippedFrames ++
  inp.tweaked ++ when (inp.there_is_a_bad_frame = true) inp.realignment ++ inp.averages

end ModelInput

end TgVoipRate.Pesq
