import Mathlib
import TgVoipRate.Pesq.Polarity
import TgVoipRate.Pesq.ScoreSpec

/-!
# The score does not depend on gains

The acoustic model reads the signals through absolute values and powers, so it does not see their
signs (`pesq_mos_flip`). Together with the fixed level, `pesq_measure` ends in the same way for
signals with any gains, one for each signal, that are not zero (`measure_of_amplified`).
-/

namespace TgVoipRate.Pesq.Acoustic

open Dsp (toComplex)

/-! ## The acoustic model -/

/-- The first frame and the last one are found by absolute values. -/
theorem frames_amplify {s : ℝ} (hs : s * s = 1) (rate : Rate) (data : ℤ → ℝ) (maxNsamples : ℤ) :
    start_frame rate (amplify s data) maxNsamples = start_frame rate data maxNsamples ∧
      stop_frame rate (amplify s data) maxNsamples = stop_frame rate data maxNsamples := by
  have hsum (index : ℤ → ℤ) :
      sum_of_5_samples (amplify s data) index = sum_of_5_samples data index :=
    List.foldl_ext _ _ _ fun sum i _ => congrArg (sum + ·) (abs_sign_mul hs _)
  have hstart : quietAtStart rate (amplify s data) = quietAtStart rate data := by
    funext k
    unfold quietAtStart
    rw [hsum]
  have hend : quietAtEnd rate (amplify s data) maxNsamples = quietAtEnd rate data maxNsamples := by
    funext k
    unfold quietAtEnd
    rw [hsum]
  unfold start_frame stop_frame samples_to_skip_at_start samples_to_skip_at_end
  rw [hstart, hend]
  exact ⟨rfl, rfl⟩

/-- The lines that a band sums up are in the first half of the spectrum, at 16 kHz. -/
theorem line_le_16k {band i : ℕ}
    (hi : i < (bands_16k : Bands ℝ).nr_of_hz_bands_per_bark_band band) :
    firstLine (bands_16k : Bands ℝ) band + i ≤ 2 ^ 8 := by
  have hband : band < (bands_16k : Bands ℝ).Nb := by
    by_contra hge
    have hnone : (bands_16k : Bands ℝ).nr_of_hz_bands_per_bark_band band = 0 :=
      List.getD_eq_default _ _ (not_lt.mp hge)
    omega
  have hlines := (bands_16k : Bands ℝ).lines_eq
  have hprefix : firstLine (bands_16k : Bands ℝ) (band + 1) ≤ 256 := by
    unfold firstLine
    calc ∑ k ∈ Finset.range (band + 1), (bands_16k : Bands ℝ).nr_of_hz_bands_per_bark_band k
        ≤ ∑ k ∈ Finset.range (bands_16k : Bands ℝ).Nb,
            (bands_16k : Bands ℝ).nr_of_hz_bands_per_bark_band k :=
          Finset.sum_le_sum_of_subset (Finset.range_mono (by omega))
      _ = 256 := hlines
  have hsplit : firstLine (bands_16k : Bands ℝ) (band + 1) =
      firstLine (bands_16k : Bands ℝ) band +
        (bands_16k : Bands ℝ).nr_of_hz_bands_per_bark_band band :=
    Finset.sum_range_succ _ _
  omega

/-- The correlation that gives the delay of a bad interval is one of absolute values. -/
theorem compute_delay_amplify (num : Numerics ℝ) {s t : ℝ} (hs : s * s = 1) (ht : t * t = 1)
    (start_sample stop_sample search_range : ℤ) (time_series1 time_series2 : ℤ → ℝ) :
    compute_delay num start_sample stop_sample search_range (amplify s time_series1)
        (amplify t time_series2) =
      compute_delay num start_sample stop_sample search_range time_series1 time_series2 := by
  have hpower {s : ℝ} (hs : s * s = 1) (x : ℤ → ℝ) (a b c : ℤ) :
      pow_of (amplify s x) a b c = pow_of x a b c := by
    rw [pow_of_amplify, pow_two, hs, one_mul]
  have hmagnitudes {s : ℝ} (hs : s * s = 1) (x : ℤ → ℝ) (a n : ℤ) :
      magnitudes (amplify s x) a n = magnitudes x a n := by
    funext i
    unfold magnitudes
    exact if_congr Iff.rfl (abs_sign_mul hs _) rfl
  unfold compute_delay
  simp only [hpower hs, hpower ht, hmagnitudes hs, hmagnitudes ht]

/-- The score only sees the reference through the frames that count. -/
theorem pesq_mos_congr {inp inp' : FinalInput ℝ} (hrate : inp'.rate = inp.rate)
    (hpow : inp'.pow = inp.pow) (hmax : inp'.maxNsamples = inp.maxNsamples)
    (hstart : inp'.start = inp.start) (hstop : inp'.stop = inp.stop)
    (hdisturbance : inp'.frame_disturbance = inp.frame_disturbance)
    (hasym_add : inp'.frame_disturbance_asym_add = inp.frame_disturbance_asym_add) :
    inp'.pesq_mos = inp.pesq_mos := by
  unfold FinalInput.pesq_mos FinalInput.d_indicator FinalInput.a_indicator FinalInput.weight
  rw [hrate, hpow, hmax, hstart, hstop, hdisturbance, hasym_add]

namespace AcousticInput

variable (inp : AcousticInput ℝ) {num : Numerics ℝ} {s t : ℝ}

/-- The signals with signs. -/
def flip (s t : ℝ) : AcousticInput ℝ :=
  { inp with ref_data := amplify s inp.ref_data, deg_data := amplify t inp.deg_data }

section Flip

variable (hnum : Exact num) (hs : s * s = 1) (ht : t * t = 1)

include hs in
/-- The last frame. -/
theorem flip_stop_frame : (inp.flip s t).stop_frame = inp.stop_frame :=
  (frames_amplify hs inp.rate inp.ref_data inp.maxNsamples).2

include hnum in
/-- The powers in the bands of a frame, for samples with a gain. -/
theorem framePower_scaled {c : ℝ} (hrate : inp.rate = rate_16k) {data scaled : ℤ → ℝ}
    {start_sample : ℤ} (hscaled : ∀ n : ℕ, n < 2 ^ (8 + 1) →
      scaled (start_sample + n) = c * data (start_sample + n)) (band : ℕ) :
    inp.framePower num scaled start_sample band =
      c * c * inp.framePower num data start_sample band := by
  have hNf : inp.Nf = 2 ^ (8 + 1) := by
    unfold Nf
    rw [hrate]
    rfl
  have hbands : inp.bands = bands_16k := by
    unfold bands
    rw [hrate]
    rfl
  have hline : ∀ k ≤ 2 ^ 8,
      short_term_fft num inp.Nf scaled (Whanning num inp.Nf) start_sample k =
        c * c * short_term_fft num inp.Nf data (Whanning num inp.Nf) start_sample k := by
    intro k hk
    unfold short_term_fft
    rw [hNf, Function.update_apply, Function.update_apply]
    split
    · rw [mul_zero]
    · have hspectrum := hnum.RealFFT_scaled 8 (a := c)
        (x := fun n => if n < 2 ^ (8 + 1) then
          data (start_sample + n) * Whanning num (2 ^ (8 + 1)) n else 0)
        (z := fun n => if n < 2 ^ (8 + 1) then
          scaled (start_sample + n) * Whanning num (2 ^ (8 + 1)) n else 0)
        (fun i hi => by
          rw [if_pos hi, if_pos hi, hscaled i hi]
          exact mul_assoc _ _ _) hk
      have hsquare (y : ℕ → ℝ) : y (2 * k) * y (2 * k) + y (2 * k + 1) * y (2 * k + 1) =
          Complex.normSq (toComplex y k) := rfl
      rw [hsquare, hsquare, hspectrum, map_mul, Complex.normSq_ofReal]
  unfold framePower freq_warping
  rw [hbands]
  dsimp only
  rw [Finset.sum_congr rfl fun i hi => hline _ (line_le_16k (Finset.mem_range.mp hi)),
    ← Finset.mul_sum]
  ring

include hnum in
/-- A sign does not change the powers. -/
theorem framePower_amplify {c : ℝ} (hc : c * c = 1) (hrate : inp.rate = rate_16k) (data : ℤ → ℝ)
    (start_sample : ℤ) :
    inp.framePower num (amplify c data) start_sample =
      inp.framePower num data start_sample := by
  funext band
  rw [inp.framePower_scaled hnum hrate fun n _ =>
    show amplify c data (start_sample + n) = _ from rfl, hc, one_mul]

include hnum hs in
/-- The powers of the reference. -/
theorem flip_power_ref (hrate : inp.rate = rate_16k) :
    (inp.flip s t).power_ref num = inp.power_ref num :=
  funext fun _ => inp.framePower_amplify hnum hs hrate _ _

include hnum ht in
/-- The powers of the degraded signal. -/
theorem flip_power_deg (hrate : inp.rate = rate_16k) :
    (inp.flip s t).power_deg num = inp.power_deg num := by
  funext frame
  have hframe := inp.framePower_amplify hnum ht hrate inp.deg_data
    (inp.control.start_sample_deg frame)
  exact if_congr Iff.rfl hframe rfl

include hnum hs ht in
/-- The powers of the filtered reference. -/
theorem flip_pitch_pow_dens_ref (hrate : inp.rate = rate_16k) :
    (inp.flip s t).pitch_pow_dens_ref num = inp.pitch_pow_dens_ref num := by
  have href : (inp.flip s t).power_ref num = inp.power_ref num := inp.flip_power_ref hnum hs hrate
  have hdeg : (inp.flip s t).power_deg num = inp.power_deg num := inp.flip_power_deg hnum ht hrate
  have haverage : (inp.flip s t).averagePower num = inp.averagePower num := by
    funext pitch_pow_dens
    unfold averagePower silent
    rw [inp.flip_stop_frame (t := t) hs, href]
    rfl
  unfold pitch_pow_dens_ref
  rw [href, hdeg, haverage]

include hnum hs ht in
/-- The first comparison. -/
theorem flip_compared (hrate : inp.rate = rate_16k) (unset unset_asym_add : ℤ → ℝ) :
    (inp.flip s t).compared num unset unset_asym_add =
      inp.compared num unset unset_asym_add := by
  unfold compared
  rw [inp.flip_stop_frame (t := t) hs, inp.flip_pitch_pow_dens_ref hnum hs ht hrate,
    inp.flip_power_deg hnum ht hrate]
  rfl

include hs in
/-- The frames that are skipped. -/
theorem flip_skipFrames (state : FrameState ℝ) :
    (inp.flip s t).skipFrames state = inp.skipFrames state := by
  have hskipped : (inp.flip s t).frame_was_skipped = inp.frame_was_skipped := by
    funext frame
    unfold frame_was_skipped
    rw [inp.flip_stop_frame (t := t) hs]
    rfl
  unfold skipFrames
  rw [hskipped]

/-- The degraded signal, shifted by the delays. -/
theorem flip_tweaked_deg : (inp.flip s t).tweaked_deg = amplify t inp.tweaked_deg := by
  funext i
  unfold amplify tweaked_deg
  by_cases hin : inp.rate.buffer ≤ i ∧ i < inp.rate.padding + inp.maxNsamples - inp.rate.buffer
  · exact (if_pos hin).trans (congrArg (t * ·) (if_pos hin)).symm
  · exact (if_neg hin).trans ((mul_zero t).symm.trans (congrArg (t * ·) (if_neg hin)).symm)

include hs in
/-- The bad intervals. -/
theorem flip_intervals (state : FrameState ℝ) :
    ((inp.flip s t).badControl state).intervals = (inp.badControl state).intervals ∧
    ((inp.flip s t).badControl state).start_sample_of_bad_interval =
      (inp.badControl state).start_sample_of_bad_interval ∧
    ((inp.flip s t).badControl state).stop_sample_of_bad_interval =
      (inp.badControl state).stop_sample_of_bad_interval := by
  have hstop : ((inp.flip s t).badControl state).stop_frame =
      (inp.badControl state).stop_frame := inp.flip_stop_frame (t := t) hs
  have hintervals : ((inp.flip s t).badControl state).intervals =
      (inp.badControl state).intervals := by
    unfold ModelInput.intervals
    rw [hstop]
    rfl
  refine ⟨hintervals, ?_, ?_⟩
  · funext bad_interval
    unfold ModelInput.start_sample_of_bad_interval
    rw [hintervals]
    rfl
  · funext bad_interval
    unfold ModelInput.stop_sample_of_bad_interval
    rw [hstop]
    rfl

include hs ht in
/-- The delay of a bad interval. -/
theorem flip_delay (state : FrameState ℝ) (bad_interval : ℕ) :
    (inp.flip s t).delay_in_samples_in_bad_interval num state bad_interval =
      inp.delay_in_samples_in_bad_interval num state bad_interval := by
  obtain ⟨-, hstart, hstop⟩ := inp.flip_intervals (t := t) hs state
  have hpart (a b start : ℤ) : (fun i => if a ≤ i ∧ i < b then
        amplify s inp.ref_data (start + (i - a)) else 0) =
      amplify s fun i => if a ≤ i ∧ i < b then inp.ref_data (start + (i - a)) else 0 := by
    funext i
    unfold amplify
    by_cases hin : a ≤ i ∧ i < b
    · simp only [if_pos hin]
    · simp only [if_neg hin, mul_zero]
  have href : (inp.flip s t).ref_data = amplify s inp.ref_data := rfl
  have hdelay (stop_sample search_range : ℤ) (ref : ℤ → ℝ) (index : ℤ → ℤ) :
      compute_delay num 0 stop_sample search_range (amplify s ref)
          (fun i => amplify t inp.tweaked_deg (index i)) =
        compute_delay num 0 stop_sample search_range ref fun i => inp.tweaked_deg (index i) :=
    compute_delay_amplify num hs ht 0 stop_sample search_range ref _
  unfold delay_in_samples_in_bad_interval
  dsimp only
  rw [hstart, hstop, inp.flip_tweaked_deg, href, hpart, hdelay]
  rfl

include hs ht in
/-- The degraded signal, with the samples of the bad intervals shifted once more. -/
theorem flip_doubly_tweaked_deg (state : FrameState ℝ) :
    (inp.flip s t).doubly_tweaked_deg num state = amplify t (inp.doubly_tweaked_deg num state) := by
  obtain ⟨hintervals, hstart, hstop⟩ := inp.flip_intervals (t := t) hs state
  have hshift : ∀ (data : ℤ → ℝ) (bad_interval : ℕ),
      (inp.flip s t).shiftInterval num state (amplify t data) bad_interval =
        amplify t (inp.shiftInterval num state data bad_interval) := by
    intro data bad_interval
    funext i
    unfold shiftInterval
    rw [hstart, hstop, inp.flip_delay hs ht, inp.flip_tweaked_deg]
    exact (apply_ite (t * ·) _ _ _).symm
  unfold doubly_tweaked_deg bad_intervals
  rw [hintervals, inp.flip_tweaked_deg]
  exact List.foldl_hom (amplify t) hshift

include hnum hs ht in
/-- The comparison of the bad intervals. -/
theorem flip_realign (hrate : inp.rate = rate_16k) (state : FrameState ℝ) :
    (inp.flip s t).realign num state = inp.realign num state := by
  obtain ⟨hintervals, -, -⟩ := inp.flip_intervals (t := t) hs state
  have hpower : ∀ frame, (inp.flip s t).framePower num
        ((inp.flip s t).doubly_tweaked_deg num state) (inp.control.start_sample_ref frame) =
      inp.framePower num (inp.doubly_tweaked_deg num state)
        (inp.control.start_sample_ref frame) := by
    intro frame
    rw [inp.flip_doubly_tweaked_deg hs ht]
    exact inp.framePower_amplify hnum ht hrate _ _
  have hcontrol : (inp.flip s t).control.start_sample_ref = inp.control.start_sample_ref := rfl
  have hbands : (inp.flip s t).bands = inp.bands := rfl
  have hinterval : (inp.flip s t).realignInterval num state = inp.realignInterval num state := by
    funext now bad_interval
    unfold realignInterval
    simp only [hintervals, hcontrol, hbands, hpower, inp.flip_pitch_pow_dens_ref hnum hs ht hrate]
  unfold realign bad_intervals
  rw [hintervals, hinterval]

include hnum hs ht in
/-- The score does not depend on the signs of the signals. -/
theorem pesq_mos_flip (hrate : inp.rate = rate_16k) (unset unset_asym_add : ℤ → ℝ) :
    (inp.flip s t).pesq_mos num unset unset_asym_add =
      inp.pesq_mos num unset unset_asym_add := by
  have hbad : (inp.flip s t).there_is_a_bad_frame = inp.there_is_a_bad_frame := by
    funext state
    unfold there_is_a_bad_frame
    rw [inp.flip_stop_frame hs]
  have hdisturbances : (inp.flip s t).disturbances num unset unset_asym_add =
      inp.disturbances num unset unset_asym_add := by
    unfold disturbances
    dsimp only
    rw [inp.flip_compared hnum hs ht hrate, hbad, inp.flip_skipFrames hs,
      inp.flip_realign hnum hs ht hrate]
  have hrelative : (inp.flip s t).relative num = inp.relative num := by
    unfold relative
    rw [inp.flip_pitch_pow_dens_ref hnum hs ht hrate]
    rfl
  obtain ⟨hstart, hstop⟩ := frames_amplify hs inp.rate inp.ref_data inp.maxNsamples
  unfold pesq_mos
  rw [hdisturbances]
  exact Acoustic.pesq_mos_congr rfl rfl rfl hstart hstop (congrFun hrelative _)
    (congrFun hrelative _)

end Flip

end AcousticInput

/-! ## The measurement -/

section Measure

variable {num : Numerics ℝ} (hnum : Exact num) {around : Surroundings ℝ}

/-- The sign of a gain. -/
theorem sign_of_gain {c : ℝ} (hc : c ≠ 0) : c / |c| * (c / |c|) = 1 := by
  rw [div_mul_div_comm, abs_mul_abs_self, div_self (mul_ne_zero hc hc)]

include hnum in
/-- A gain leaves its sign to a signal that is prepared. -/
theorem prepare_amplify {sig : Signal ℝ} {maxNsamples : ℤ}
    (hpadded : IsPadded rate_16k sig.data sig.Nsamples) {c : ℝ} (hc : c ≠ 0) :
    prepare num (sig.amplify c) maxNsamples =
      (prepare num sig maxNsamples).map (Signal.amplify (c / |c|)) := by
  unfold prepare
  have hlevel : fix_power_level num rate_16k (sig.amplify c).data (sig.amplify c).Nsamples
      maxNsamples = (fix_power_level num rate_16k sig.data sig.Nsamples maxNsamples).map
        (amplify (c / |c|)) :=
    fix_power_level_amplify hnum hpadded hc
  rw [hlevel, Option.map_map, Option.map_map]
  refine congrArg (Option.map · _) (funext fun data => ?_)
  exact congrArg (Signal.mk sig.Nsamples · sig.input_filter)
    (listen_amplify hnum hpadded.long sig.input_filter (c / |c|) data)

include hnum in
/-- What the acoustic model is given for signals with other signs. -/
theorem acousticInput_amplify {s t : ℝ} (hs : s * s = 1) (ht : t * t = 1) (ref deg : Signal ℝ) :
    acousticInput num around (ref.amplify s) (deg.amplify t) =
      (acousticInput num around ref deg).flip s t := by
  have hextend (sig : Signal ℝ) (c : ℝ) (maxNsamples : ℤ) :
      extend (sig.amplify c) maxNsamples = amplify c (extend sig maxNsamples) := by
    funext i
    unfold extend amplify
    by_cases hbehind : sig.Nsamples < maxNsamples ∧ sig.Nsamples + rate_16k.padding ≤ i
    · exact (if_pos hbehind).trans
        ((mul_zero c).symm.trans (congrArg (c * ·) (if_pos hbehind)).symm)
    · exact (if_neg hbehind).trans (congrArg (c * ·) (if_neg hbehind)).symm
  have hfiltered (sig : Signal ℝ) (c : ℝ) :
      filtered (sig.amplify c) = (filtered sig).amplify c :=
    congrArg (Signal.mk sig.Nsamples · sig.input_filter)
      (input_filter_amplify rate_16k c sig.data sig.Nsamples)
  unfold acousticInput
  rw [hextend, hextend, hfiltered, hfiltered, findUtterances_amplify hnum hs ht]
  rfl

include hnum in
/-- A measurement does not depend on the gains of the signals: with any gains other than zero, also
with negative ones, it ends with the same scores, or in the same other way. -/
theorem measure_of_amplified {ref deg : Signal ℝ} (mode : Mode)
    (href : IsPadded rate_16k ref.data ref.Nsamples)
    (hdeg : IsPadded rate_16k deg.data deg.Nsamples) {c d : ℝ} (hc : c ≠ 0) (hd : d ≠ 0) :
    pesq_measure num around mode (ref.amplify c) (deg.amplify d) =
      pesq_measure num around mode ref deg := by
  have hmodel : ∀ ref deg : Signal ℝ, pesq_psychoacoustic_model num around.frame_disturbance
        around.frame_disturbance_asym_add (acousticInput num around
          (ref.amplify (c / |c|)) (deg.amplify (d / |d|))) =
      pesq_psychoacoustic_model num around.frame_disturbance around.frame_disturbance_asym_add
        (acousticInput num around ref deg) := by
    intro ref deg
    rw [acousticInput_amplify hnum (sign_of_gain hc) (sign_of_gain hd)]
    unfold pesq_psychoacoustic_model
    rw [AcousticInput.pesq_mos_flip _ hnum (sign_of_gain hc) (sign_of_gain hd) rfl]
    rfl
  have hmax : max (ref.amplify c).Nsamples (deg.amplify d).Nsamples =
      max ref.Nsamples deg.Nsamples := rfl
  unfold pesq_measure
  dsimp only
  rw [hmax, prepare_amplify hnum href hc, prepare_amplify hnum hdeg hd]
  cases prepare num ref (max ref.Nsamples deg.Nsamples) with
  | none => rfl
  | some ref' =>
    cases prepare num deg (max ref.Nsamples deg.Nsamples) with
    | none => rfl
    | some deg' => simp only [Option.map_some, hmodel]

/-- A click, as it is loaded. -/
noncomputable def click : Signal ℝ where
  Nsamples := 13600
  data := clickAt rate_16k.buffer
  input_filter := 1

/-- All memory is zero, and no conversion changes a number. -/
def zeroSurroundings : Surroundings ℝ where
  toInt i := i
  locals := ⟨0, 0, 0, 0, 0⟩
  unset := ⟨fun _ => 0, fun _ => 0, fun _ => 0, fun _ => 0⟩
  frame_disturbance _ := 0
  frame_disturbance_asym_add _ := 0

/-- A click that is louder, and one with the other sign. -/
theorem measure_of_amplified_click :
    pesq_measure realNumerics zeroSurroundings .NB_MODE (click.amplify 2) (click.amplify (-3)) =
      pesq_measure realNumerics zeroSurroundings .NB_MODE click click :=
  measure_of_amplified exact_realNumerics .NB_MODE clickAt_isPadded clickAt_isPadded
    (by norm_num) (by norm_num)

end Measure

end TgVoipRate.Pesq.Acoustic
