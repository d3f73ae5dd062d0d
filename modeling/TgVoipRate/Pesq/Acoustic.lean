import Mathlib
import TgVoipRate.Pesq.ComputeDelay
import TgVoipRate.Pesq.FinalAverage
import TgVoipRate.Pesq.ModelAccess

/-!
# The acoustic model

`pesq_psychoacoustic_model` of `pesqmod.c`, from the two padded signals and the tables of utterances
to the score. Each frame of the reference is compared with the frame of the degraded signal at its
delay. The reference is filtered like the degraded signal (`freq_resp_compensation`), the level of
the degraded signal is brought to that of the reference frame by frame (`compareFrame`), and frames
are skipped where the delay falls. If a frame is bad, the intervals of bad frames are compared again
with a delay of their own (`realign`), and a frame keeps the smaller disturbance. The score is
computed from the disturbances, relative to the power of the frame and bounded (`relative`).

Which samples, frames and intervals the loops are about is taken from the model of the accesses
(`ModelInput`). Arithmetic is exact.
-/

namespace TgVoipRate.Pesq.Acoustic

variable {𝕜 : Type*} [Field 𝕜] [LinearOrder 𝕜]

/-! ## Comparing frames -/

/-- The disturbances of the frames, the powers in the bands of the degraded signal, and the scale
of the frame before, which is not bounded yet. -/
structure FrameState (𝕜 : Type*) where
  oldScale : 𝕜
  pitch_pow_dens_deg : ℤ → ℕ → 𝕜
  frame_disturbance : ℤ → 𝕜
  frame_disturbance_asym_add : ℤ → 𝕜

/-- The bounds of the scale. -/
def MAX_SCALE : ℚ := 5.0
def MIN_SCALE : ℚ := 3E-4

/-- The level of the reference in a frame over that of the degraded signal. -/
def levelRatio (b : Bands 𝕜) (pitch_pow_dens_ref pitch_pow_dens_deg : ℕ → 𝕜) : 𝕜 :=
  (total_audible b pitch_pow_dens_ref 1 + (5E3 : ℚ)) /
    (total_audible b pitch_pow_dens_deg 1 + (5E3 : ℚ))

/-- The scale of a frame: it follows the level, but for the first frame. -/
def nextScale (oldScale : 𝕜) (frame : ℤ) (scale : 𝕜) : 𝕜 :=
  if frame > 0 then (0.2 : ℚ) * oldScale + (0.8 : ℚ) * scale else scale

/-- The body of the loop over the frames. `store` says what becomes of the disturbance that is
there. -/
def compareFrame (num : Numerics 𝕜) (b : Bands 𝕜) (store : 𝕜 → 𝕜 → 𝕜)
    (pitch_pow_dens_ref : ℤ → ℕ → 𝕜) (s : FrameState 𝕜) (frame : ℤ) : FrameState 𝕜 :=
  let ref := pitch_pow_dens_ref frame
  let scale := nextScale s.oldScale frame (levelRatio b ref (s.pitch_pow_dens_deg frame))
  let deg := fun band => s.pitch_pow_dens_deg frame band * clamp (MIN_SCALE : 𝕜) MAX_SCALE scale
  let now := disturbance num b ref deg
  { oldScale := scale
    pitch_pow_dens_deg := Function.update s.pitch_pow_dens_deg frame deg
    frame_disturbance := Function.update s.frame_disturbance frame
      (store (s.frame_disturbance frame) now.frame_disturbance)
    frame_disturbance_asym_add := Function.update s.frame_disturbance_asym_add frame
      (store (s.frame_disturbance_asym_add frame) now.frame_disturbance_asym_add) }

/-- Some frames in a row. -/
def framesFrom (start stop : ℤ) : List ℤ :=
  (List.range (stop - start).toNat).map fun k : ℕ => start + k

/-- The first comparison stores what it finds. -/
def replace (_old new : 𝕜) : 𝕜 := new

/-- The comparison after a realignment keeps the smaller disturbance. -/
def keepSmaller (old new : 𝕜) : 𝕜 := if old < new then old else new

/-! ## The input -/

/-- What the model is given. -/
structure AcousticInput (𝕜 : Type*) where
  rate : Rate
  /-- The numbers of samples of both signals. -/
  ref_Nsamples : ℤ
  deg_Nsamples : ℤ
  /-- The padded signals. -/
  ref_data : ℤ → 𝕜
  deg_data : ℤ → 𝕜
  /-- The utterances. -/
  err_info : ErrorInfo 𝕜
  /-- The conversion to `int`. -/
  toInt : ℤ → ℤ

namespace AcousticInput

variable (inp : AcousticInput 𝕜)

/-- What is known before the loops: no frame is silent or bad yet. -/
def control : ModelInput 𝕜 where
  rate := inp.rate
  ref_Nsamples := inp.ref_Nsamples
  deg_Nsamples := inp.deg_Nsamples
  ref_data := inp.ref_data
  err_info := inp.err_info
  toInt := inp.toInt
  silent _ := false
  there_is_a_bad_frame := false
  frame_is_bad _ := false
  delay_in_samples_in_bad_interval _ := 0

/-- The number of samples of the longer signal. -/
def maxNsamples : ℤ := inp.control.maxNsamples

/-- The first frame that counts. -/
def start_frame : ℤ := inp.control.start_frame

/-- The last frame. -/
def stop_frame : ℤ := inp.control.stop_frame

/-- The samples of a frame. -/
def Nf : ℕ := inp.rate.Nf.toNat

variable [IsStrictOrderedRing 𝕜] (num : Numerics 𝕜)

/-- The tables for the sample rate. -/
def bands : Bands 𝕜 := if inp.rate.Fs = 8000 then bands_8k else bands_16k

/-! ## The powers in the bands -/

/-- The powers in the bands of a frame. -/
def framePower (data : ℤ → 𝕜) (start_sample : ℤ) : ℕ → 𝕜 :=
  freq_warping inp.bands
    (short_term_fft num inp.Nf data (Whanning num inp.Nf) start_sample)

/-- The frame of the degraded signal is in the signal. -/
def InSignal (frame : ℤ) : Prop :=
  inp.control.start_sample_deg frame > 0 ∧
    inp.control.start_sample_deg frame + inp.rate.Nf < inp.maxNsamples + inp.rate.padding

instance (frame : ℤ) : Decidable (inp.InSignal frame) := inferInstanceAs (Decidable (_ ∧ _))

/-- The powers in the bands of the reference. -/
def power_ref (frame : ℤ) : ℕ → 𝕜 :=
  inp.framePower num inp.ref_data (inp.control.start_sample_ref frame)

/-- The powers in the bands of the degraded signal. -/
def power_deg (frame : ℤ) : ℕ → 𝕜 :=
  if inp.InSignal frame then
    inp.framePower num inp.deg_data (inp.control.start_sample_deg frame)
  else freq_warping inp.bands fun _ => 0

/-- The frames without an audible sound. -/
def silent (frame : ℤ) : Bool :=
  total_audible inp.bands (inp.power_ref num frame) (1E2 : ℚ) < (1E7 : ℚ)

/-- The number of frames that the averages are divided by. -/
def total_number_of_frames : ℤ :=
  (inp.maxNsamples - 2 * SEARCHBUFFER * inp.rate.Downsample + inp.rate.padding).tdiv
    (inp.rate.Nf.tdiv 2) - 1

/-- The average powers of a signal in the frames that are not silent. -/
def averagePower (pitch_pow_dens : ℤ → ℕ → 𝕜) : ℕ → 𝕜 :=
  time_avg_audible_of inp.bands (inp.stop_frame + 1) (inp.silent num) pitch_pow_dens
    inp.total_number_of_frames

/-- The powers in the bands of the filtered reference. -/
def pitch_pow_dens_ref : ℤ → ℕ → 𝕜 :=
  freq_resp_compensation (inp.power_ref num) (inp.averagePower num (inp.power_ref num))
    (inp.averagePower num (inp.power_deg num)) (1000 : ℚ)

/-! ## The first comparison -/

/-- The loop over all frames. The arrays of the disturbances are not set before. -/
def compared (unset unset_asym_add : ℤ → 𝕜) : FrameState 𝕜 :=
  (framesFrom 0 (inp.stop_frame + 1)).foldl
    (compareFrame num inp.bands replace (inp.pitch_pow_dens_ref num))
    { oldScale := 1
      pitch_pow_dens_deg := inp.power_deg num
      frame_disturbance := unset
      frame_disturbance_asym_add := unset_asym_add }

/-- A disturbance above it is bad. -/
def THRESHOLD_BAD_FRAMES : ℚ := 30

/-- Some frame is bad. -/
def there_is_a_bad_frame (s : FrameState 𝕜) : Bool :=
  (framesFrom 0 (inp.stop_frame + 1)).any fun frame =>
    s.frame_disturbance frame > THRESHOLD_BAD_FRAMES

/-- A frame is skipped: the delay falls at an utterance, and the frame is around its start. -/
def frame_was_skipped (frame : ℤ) : Bool :=
  (framesFrom 1 inp.err_info.Nutterances).any fun utt =>
    let delay_jump := inp.toInt (inp.err_info.Utt_Delay utt - inp.err_info.Utt_Delay (utt - 1))
    delay_jump < -inp.rate.Nf.tdiv 2 ∧ inp.control.frame1 utt ≤ frame ∧
      frame ≤ inp.control.frame2 utt delay_jump ∧ frame < inp.stop_frame

/-- Skipped frames have no disturbance. -/
def skipFrames (s : FrameState 𝕜) : FrameState 𝕜 :=
  { s with
    frame_disturbance := fun frame =>
      if inp.frame_was_skipped frame then 0 else s.frame_disturbance frame
    frame_disturbance_asym_add := fun frame =>
      if inp.frame_was_skipped frame then 0 else s.frame_disturbance_asym_add frame }

/-! ## Realignment -/

/-- The degraded signal, shifted by the delays. -/
def tweaked_deg (i : ℤ) : 𝕜 :=
  let nn := inp.rate.padding + inp.maxNsamples
  if inp.rate.buffer ≤ i ∧ i < nn - inp.rate.buffer then
    inp.deg_data (inp.control.clampToSignal nn
      (i + delayAt inp.err_info inp.rate.Downsample i))
  else 0

/-- The intervals of bad frames. -/
def badControl (s : FrameState 𝕜) : ModelInput 𝕜 :=
  { inp.control with
    frame_is_bad := fun frame => s.frame_disturbance frame > THRESHOLD_BAD_FRAMES }

/-- How far a delay is searched, in frames. -/
def SEARCH_RANGE_IN_TRANSFORM_LENGTH : ℤ := 4

/-- The delay of a bad interval. -/
def delay_in_samples_in_bad_interval (s : FrameState 𝕜) (bad_interval : ℕ) : ℤ :=
  let start := (inp.badControl s).start_sample_of_bad_interval bad_interval
  let number := (inp.badControl s).stop_sample_of_bad_interval bad_interval - start
  let search_range_in_samples := SEARCH_RANGE_IN_TRANSFORM_LENGTH * inp.rate.Nf
  let ref := fun i =>
    if search_range_in_samples ≤ i ∧ i < search_range_in_samples + number then
      inp.ref_data (start + (i - search_range_in_samples))
    else 0
  let deg := fun i =>
    let nn := inp.maxNsamples - inp.rate.buffer + inp.rate.padding
    let j := start - search_range_in_samples + i
    let j := if j < inp.rate.buffer then inp.rate.buffer else j
    inp.tweaked_deg (if j ≥ nn then nn - 1 else j)
  let (best_correlation, delay_in_samples) := compute_delay num 0
    (2 * search_range_in_samples + number) search_range_in_samples ref deg
  if best_correlation < (0.5 : ℚ) then 0 else delay_in_samples

/-- The samples of a bad interval are shifted by its delay. -/
def shiftInterval (s : FrameState 𝕜) (doubly_tweaked_deg : ℤ → 𝕜) (bad_interval : ℕ) (i : ℤ) : 𝕜 :=
  if (inp.badControl s).start_sample_of_bad_interval bad_interval ≤ i ∧
      i < (inp.badControl s).stop_sample_of_bad_interval bad_interval then
    let j := inp.toInt (i + inp.delay_in_samples_in_bad_interval num s bad_interval)
    let j := if j < 0 then 0 else j
    inp.tweaked_deg (if j ≥ inp.maxNsamples then inp.maxNsamples - 1 else j)
  else doubly_tweaked_deg i

/-- The bad intervals, in order. -/
def bad_intervals (s : FrameState 𝕜) : List ℕ :=
  List.range (inp.badControl s).intervals.number_of_bad_intervals

/-- The degraded signal, with the samples of the bad intervals shifted once more. -/
def doubly_tweaked_deg (s : FrameState 𝕜) : ℤ → 𝕜 :=
  (inp.bad_intervals s).foldl (inp.shiftInterval num s) inp.tweaked_deg

/-- The frames of a bad interval are compared again. The bad intervals and their delays are those
of the state `s₀`. -/
def realignInterval (s₀ s : FrameState 𝕜) (bad_interval : ℕ) : FrameState 𝕜 :=
  let start := (inp.badControl s₀).intervals.start_frame_of_bad_interval bad_interval
  let stop := (inp.badControl s₀).intervals.stop_frame_of_bad_interval bad_interval
  (framesFrom start stop).foldl
    (compareFrame num inp.bands keepSmaller (inp.pitch_pow_dens_ref num))
    { s with
      oldScale := 1
      pitch_pow_dens_deg := fun frame =>
        if start ≤ frame ∧ frame < stop then
          inp.framePower num (inp.doubly_tweaked_deg num s₀) (inp.control.start_sample_ref frame)
        else s.pitch_pow_dens_deg frame }

/-- The bad intervals are compared again. -/
def realign (s : FrameState 𝕜) : FrameState 𝕜 :=
  (inp.bad_intervals s).foldl (inp.realignInterval num s) s

/-! ## The score -/

/-- The disturbances before they are averaged. -/
def disturbances (unset unset_asym_add : ℤ → 𝕜) : FrameState 𝕜 :=
  let s := inp.compared num unset unset_asym_add
  if inp.there_is_a_bad_frame s then inp.realign num (inp.skipFrames s) else inp.skipFrames s

/-- The largest disturbance that counts. -/
def MAX_DISTURBANCE : ℚ := 45

/-- A disturbance counts relative to the power of the frame, and up to a bound. -/
def relative (frame_disturbance : ℤ → 𝕜) (frame : ℤ) : 𝕜 :=
  let total_power_ref := total_audible inp.bands (inp.pitch_pow_dens_ref num frame) 1
  let h := num.pow ((total_power_ref + (1E5 : ℚ)) / (1E7 : ℚ)) (0.04 : ℚ)
  let x := frame_disturbance frame / h
  if x > MAX_DISTURBANCE then ((MAX_DISTURBANCE : ℚ) : 𝕜) else x

/-- What is averaged, for disturbances of the frames. -/
def finalInput (s : FrameState 𝕜) : FinalInput 𝕜 where
  rate := inp.rate
  pow := num.pow
  maxNsamples := inp.maxNsamples
  ref_data := inp.ref_data
  frame_disturbance := inp.relative num s.frame_disturbance
  frame_disturbance_asym_add := inp.relative num s.frame_disturbance_asym_add

/-- The score, if it is a number. -/
def pesq_mos (unset unset_asym_add : ℤ → 𝕜) : Option 𝕜 :=
  (inp.finalInput num (inp.disturbances num unset unset_asym_add)).pesq_mos

/-- The process exits without utterances, and where the signals are too short for their power to be
computed. -/
def Exits : Prop :=
  inp.err_info.Nutterances < 1 ∨ inp.rate.buffer < 0 ∨
    inp.rate.buffer > inp.maxNsamples - inp.rate.buffer + inp.rate.padding

instance : Decidable inp.Exits := inferInstanceAs (Decidable (_ ∨ _))

end AcousticInput

/-- `pesq_psychoacoustic_model`: none is an exit of the process, and a score that is none is not a
number. -/
def pesq_psychoacoustic_model [IsStrictOrderedRing 𝕜] (num : Numerics 𝕜)
    (unset unset_asym_add : ℤ → 𝕜) (inp : AcousticInput 𝕜) : Option (Option 𝕜) :=
  if inp.Exits then none else some (inp.pesq_mos num unset unset_asym_add)

end TgVoipRate.Pesq.Acoustic
