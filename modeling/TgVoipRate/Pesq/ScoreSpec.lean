import Mathlib
import TgVoipRate.Pesq.AcousticSpec
import TgVoipRate.Pesq.TransformsSpec

/-!
# The range of the score, and when it is the highest

The results about the score of two signals at 16 kHz. It is in a fixed range (`score_mem_range`). It
is the highest one exactly if every frame that counts counts as equal (`score_highest_iff`), and so
it is for a degraded signal that has a copy of every frame of the reference at the delay of that
frame (`score_of_copy`). Realignment does not lower the score (`realignment_raises_score`). The gain
that brings the degraded signal to the level of the reference stays in the range of the level ratios
so far (`gain_follows_levels`).
-/

namespace TgVoipRate.Pesq.Acoustic.AcousticInput

open Dsp (toComplex)
open Means (smooth smoothed smoothed_eq smoothed_mem_Icc)

variable {num : Numerics ℝ} {inp : AcousticInput ℝ} {frame : ℤ}

/-- Two signals at 16 kHz that `pesq_measure` does not find too short. -/
structure Admitted (inp : AcousticInput ℝ) : Prop where
  rate_eq : inp.rate = rate_16k
  admits : rate_16k.Admits inp.ref_Nsamples inp.deg_Nsamples

/-- They have 13600 samples. -/
theorem Admitted.long (h : inp.Admitted) : 13600 ≤ inp.maxNsamples :=
  le_max_of_le_left h.admits.le.1

/-- What is averaged in the end. -/
theorem Admitted.standard (h : inp.Admitted) (hnum : Exact num) (s : FrameState ℝ) :
    (inp.finalInput num s).Standard :=
  ⟨h.rate_eq, h.long, funext fun x => funext fun p => hnum.pow_eq x p⟩

/-- The frames that count are frames of the signal. -/
theorem Admitted.frame_bounds (h : inp.Admitted) (hnum : Exact num) {s : FrameState ℝ}
    (hframe : (inp.finalInput num s).Counts frame) : 0 ≤ frame ∧ frame ≤ inp.stop_frame :=
  ⟨(h.standard hnum s).start_nonneg.trans hframe.1, hframe.2⟩

/-! ## A loud signal -/

/-- A constant signal from 100 on is loud. -/
theorem loudAt_const {c : ℝ} (hc : 100 ≤ c) (p : ℤ) : LoudAt (fun _ => c) p := by
  have habs := le_abs_self c
  unfold LoudAt
  norm_num [CRITERIUM_FOR_SILENCE_OF_5_SAMPLES]
  linarith

/-- A reference of 13600 samples that is loud throughout has frames that count. -/
theorem start_frame_le_of_loud {data : ℤ → ℝ} (hloud : ∀ p, LoudAt data p) :
    Pesq.start_frame rate_16k data 13600 ≤ Pesq.stop_frame rate_16k data 13600 :=
  (start_frame_le_stop_frame_iff (le_refl 13600) data).mpr
    ⟨256, by decide, Int.dvd_refl 256, Or.inr ⟨4800, by decide, by decide, by decide, hloud _⟩,
      Or.inl (by decide)⟩

/-- Its last frame. -/
theorem stop_frame_of_loud {data : ℤ → ℝ} (hloud : ∀ p, LoudAt data p) :
    Pesq.stop_frame rate_16k data 13600 = 34 := by
  have hquiet : quietAtEnd rate_16k data 13600 0 = false :=
    (quietAtEnd_eq_false_iff _ _ _).mpr (hloud _)
  have hskip : samples_to_skip_at_end rate_16k data 13600 < 1 :=
    (skipSilence_lt_iff _ (by decide) 1).mpr (Or.inr ⟨0, le_rfl, by decide, by decide, hquiet⟩)
  have hle := (samples_to_skip_le (le_refl (13600 : ℤ)) data).2.1
  rw [stop_frame_16k le_rfl]
  omega

/-- A reference that is loud throughout and is its own degraded signal. -/
noncomputable def loudInput : AcousticInput ℝ where
  rate := rate_16k
  ref_Nsamples := 13600
  deg_Nsamples := 13600
  ref_data _ := 1000
  deg_data _ := 1000
  err_info := { ErrorInfo.zero with Nutterances := 1 }
  toInt := id

/-- It is loud. -/
theorem loudInput_loud : ∀ p, LoudAt loudInput.ref_data p :=
  loudAt_const (by norm_num : (100 : ℝ) ≤ 1000)

/-- It is long enough. -/
theorem admitted_loudInput : loudInput.Admitted := ⟨rfl, admits_short⟩

/-- It has frames that count. -/
theorem loudInput_frames : loudInput.start_frame ≤ loudInput.stop_frame :=
  start_frame_le_of_loud loudInput_loud

/-- Its last frame. -/
theorem loudInput_stop_frame : loudInput.stop_frame = 34 := stop_frame_of_loud loudInput_loud

/-- Its frames are in the signal. -/
theorem loudInput_bounds {frame : ℤ} (hframe : 0 ≤ frame) (hstop : frame ≤ loudInput.stop_frame) :
    loudInput.InSignal frame := by
  have hlast := loudInput_stop_frame
  have hstart : loudInput.control.start_sample_deg frame = 4800 + (frame * 512).tdiv 2 + 0 :=
    congrArg (4800 + (frame * 512).tdiv 2 + ·) (ite_self (0 : ℤ))
  have hlimit : loudInput.maxNsamples + loudInput.rate.padding = 18720 := rfl
  have hNf : loudInput.rate.Nf = 512 := rfl
  unfold InSignal
  rw [hstart, hlimit, hNf, Int.tdiv_eq_ediv_of_nonneg (by omega)]
  omega

section Score

variable (hnum : Exact num) (hadmitted : inp.Admitted) (unset unset_asym_add : ℤ → ℝ)

include hnum hadmitted in
/-- The relative disturbances that are averaged are not negative. -/
theorem relative_nonneg {s : FrameState ℝ}
    (hs : ∀ frame, 0 ≤ frame ∧ frame ≤ inp.stop_frame → Settled s frame) :
    ∀ frame, (inp.finalInput num s).Counts frame →
      0 ≤ (inp.finalInput num s).frame_disturbance frame ∧
        0 ≤ (inp.finalInput num s).frame_disturbance_asym_add frame := by
  intro frame hframe
  have hsettled := hs frame (hadmitted.frame_bounds hnum hframe)
  exact ⟨(inp.relative_mem hnum hsettled.nonneg).1,
    (inp.relative_mem hnum hsettled.nonneg_asym_add).1⟩

/-! ## The range -/

include hnum hadmitted in
/-- The score of any two signals, with any tables of utterances, is between -1.3905 and 4.5. -/
theorem score_mem_range {mos : ℝ} (hmos : inp.pesq_mos num unset unset_asym_add = some mos) :
    -13905 / 10000 ≤ mos ∧ mos ≤ 9 / 2 := by
  have hstandard := hadmitted.standard hnum (inp.disturbances num unset unset_asym_add)
  have hwithin : (inp.finalInput num (inp.disturbances num unset unset_asym_add)).Within 45 := by
    intro frame hframe
    have hsettled := inp.settled_disturbances hnum unset unset_asym_add
      (hadmitted.frame_bounds hnum hframe)
    exact ⟨inp.relative_mem hnum hsettled.nonneg, inp.relative_mem hnum hsettled.nonneg_asym_add⟩
  have hframes := FinalInput.start_le_stop_of_pesq_mos hmos
  obtain ⟨⟨hd_nonneg, hd_le⟩, ha_nonneg, ha_le⟩ :=
    FinalInput.means_mem hstandard hframes (by norm_num) hwithin
  rw [pesq_mos, FinalInput.pesq_mos_eq hstandard hframes, Option.some.injEq] at hmos
  norm_num [D_WEIGHT, A_WEIGHT] at hmos
  constructor
  · linarith
  · linarith

/-! ## The gain of the degraded signal -/

/-- A number in the interval is not changed. -/
theorem clamp_of_mem {lo hi x : ℝ} (hlo : lo ≤ x) (hhi : x ≤ hi) : clamp lo hi x = x := by
  unfold clamp
  dsimp only
  rw [if_neg (not_lt.mpr hhi), if_neg (not_lt.mpr hlo)]

/-- No number gets below the interval. -/
theorem le_clamp {lo hi : ℝ} (h : lo ≤ hi) (x : ℝ) : lo ≤ clamp lo hi x := by
  unfold clamp
  dsimp only
  split
  · split <;> linarith
  · split <;> linarith

/-- The scale is smoothed from the second frame on. -/
theorem nextScale_eq (oldScale : ℝ) {frame : ℤ} (hframe : 0 < frame) (scale : ℝ) :
    nextScale oldScale frame scale = smooth (1 / 5) oldScale scale := by
  unfold nextScale smooth
  rw [if_pos hframe]
  norm_num

/-- The level ratio of a frame before its gain. -/
noncomputable def firstRatio (num : Numerics ℝ) (inp : AcousticInput ℝ) (frame : ℤ) : ℝ :=
  levelRatio inp.bands (inp.pitch_pow_dens_ref num frame) (inp.power_deg num frame)

/-- Frames in a row, in two parts. -/
theorem framesFrom_append {start frame stop : ℤ} (hstart : start ≤ frame) (hstop : frame ≤ stop) :
    framesFrom start stop = framesFrom start frame ++ framesFrom frame stop := by
  obtain ⟨n, rfl⟩ : ∃ n : ℕ, frame = start + n := ⟨(frame - start).toNat, by omega⟩
  obtain ⟨m, rfl⟩ : ∃ m : ℕ, stop = start + n + m := ⟨(stop - start - n).toNat, by omega⟩
  have hall : (start + n + m - start).toNat = n + m := by omega
  have hfirst : (start + n - start).toNat = n := by omega
  have hlast : (start + n + m - (start + n)).toNat = m := by omega
  unfold framesFrom
  rw [hall, hfirst, hlast, List.range_add, List.map_append, List.map_map]
  refine congrArg _ (List.map_congr_left fun k _ => ?_)
  simp only [Function.comp_apply]
  push_cast
  ring

/-- One more frame. -/
theorem framesFrom_succ {start frame : ℤ} (h : start ≤ frame) :
    framesFrom start (frame + 1) = framesFrom start frame ++ [frame] := by
  have hone : (frame + 1 - frame).toNat = 1 := by omega
  have hlast : framesFrom frame (frame + 1) = [frame] := by
    unfold framesFrom
    rw [hone]
    simp
  rw [framesFrom_append h (by omega), hlast]

/-- The state before the first comparison. -/
noncomputable def uncompared (num : Numerics ℝ) (inp : AcousticInput ℝ)
    (unset unset_asym_add : ℤ → ℝ) : FrameState ℝ where
  oldScale := 1
  pitch_pow_dens_deg := inp.power_deg num
  frame_disturbance := unset
  frame_disturbance_asym_add := unset_asym_add

/-- The comparison of some frames. -/
noncomputable def comparedUpTo (num : Numerics ℝ) (inp : AcousticInput ℝ)
    (unset unset_asym_add : ℤ → ℝ) (stop : ℤ) : FrameState ℝ :=
  (framesFrom 0 stop).foldl (compareFrame num inp.bands replace (inp.pitch_pow_dens_ref num))
    (uncompared num inp unset unset_asym_add)

/-- The scale after some frames is their smoothed level ratio, and the last one of them was scaled
by it. -/
theorem comparedUpTo_scale (n : ℕ) :
    (comparedUpTo num inp unset unset_asym_add (n + 1)).oldScale =
        smoothed (1 / 5) (fun k => firstRatio num inp k) n ∧
      (comparedUpTo num inp unset unset_asym_add (n + 1)).pitch_pow_dens_deg n =
        scaledPower (smoothed (1 / 5) (fun k => firstRatio num inp k) n)
          (inp.power_deg num n) := by
  -- A frame is as it was when the run comes to it.
  have huntouched : (comparedUpTo num inp unset unset_asym_add n).pitch_pow_dens_deg n =
      inp.power_deg num n :=
    ((foldl_compareFrame num inp.bands replace (inp.pitch_pow_dens_ref num)
      (Q := fun _ => True) _ (uncompared num inp unset unset_asym_add) (nodup_framesFrom 0 n)
      trivial fun _ _ _ _ => trivial).1 n fun hmem =>
        absurd (mem_framesFrom.mp hmem).2 (lt_irrefl _)).power
  have hstep : comparedUpTo num inp unset unset_asym_add (n + 1) =
      compareFrame num inp.bands replace (inp.pitch_pow_dens_ref num)
        (comparedUpTo num inp unset unset_asym_add n) n := by
    unfold comparedUpTo
    rw [framesFrom_succ (Int.natCast_nonneg n), List.foldl_append, List.foldl_cons, List.foldl_nil]
  have hscale : (compareFrame num inp.bands replace (inp.pitch_pow_dens_ref num)
      (comparedUpTo num inp unset unset_asym_add n) n).oldScale =
      nextScale (comparedUpTo num inp unset unset_asym_add n).oldScale n
        (firstRatio num inp n) := by
    unfold firstRatio
    rw [← huntouched]
    rfl
  have hpower := (compareFrame_at num inp.bands replace (inp.pitch_pow_dens_ref num)
    (comparedUpTo num inp unset unset_asym_add n) n).power
  rw [huntouched] at hpower
  rw [hstep, hscale, hpower]
  suffices h : nextScale (comparedUpTo num inp unset unset_asym_add n).oldScale n
      (firstRatio num inp n) = smoothed (1 / 5) (fun k => firstRatio num inp k) n by
    exact ⟨h, congrArg₂ scaledPower h rfl⟩
  cases n with
  | zero => exact if_neg (lt_irrefl 0)
  | succ n =>
    rw [nextScale_eq _ (by omega), smoothed]
    exact congrArg₂ (smooth _) (comparedUpTo_scale n).1 rfl

variable (num) in
/-- In the first comparison, a frame is scaled by the smoothed level ratio. -/
theorem compared_power {n : ℕ} (hn : (n : ℤ) ≤ inp.stop_frame) :
    (inp.compared num unset unset_asym_add).pitch_pow_dens_deg n =
      scaledPower (smoothed (1 / 5) (fun k => firstRatio num inp k) n) (inp.power_deg num n) := by
  have hsplit : inp.compared num unset unset_asym_add =
      (framesFrom (n + 1) (inp.stop_frame + 1)).foldl
        (compareFrame num inp.bands replace (inp.pitch_pow_dens_ref num))
        (comparedUpTo num inp unset unset_asym_add (n + 1)) := by
    unfold compared comparedUpTo
    rw [framesFrom_append (by omega) (by omega : (n : ℤ) + 1 ≤ inp.stop_frame + 1),
      List.foldl_append]
    rfl
  have hsame := (foldl_compareFrame num inp.bands replace (inp.pitch_pow_dens_ref num)
    (Q := fun _ => True) _
    (comparedUpTo num inp unset unset_asym_add (n + 1))
    (nodup_framesFrom (n + 1) (inp.stop_frame + 1)) trivial fun _ _ _ _ => trivial).1 n
    fun hmem => absurd (mem_framesFrom.mp hmem).1 (by omega)
  rw [hsplit, hsame.power, (comparedUpTo_scale unset unset_asym_add n).2]

/-- In the first comparison, the degraded signal gets a gain in each frame. It is a mean of the
level ratios of the frames so far, in which the weight of a frame falls to a fifth with every later
one, and it is bounded. Where the level ratios so far are in an interval within the bounds, so is
the gain. -/
theorem gain_follows_levels {n : ℕ} (hn : (n : ℤ) ≤ inp.stop_frame) :
    (∀ band, (inp.compared num unset unset_asym_add).pitch_pow_dens_deg n band =
      inp.power_deg num n band * clamp (MIN_SCALE : ℝ) MAX_SCALE
        ((1 / 5) ^ n * firstRatio num inp 0 + ∑ k ∈ Finset.range n,
          (1 - 1 / 5) * (1 / 5) ^ (n - 1 - k) * firstRatio num inp (k + 1 : ℕ))) ∧
    ∀ lo hi : ℝ, (MIN_SCALE : ℝ) ≤ lo → hi ≤ (MAX_SCALE : ℝ) →
      (∀ k : ℕ, k ≤ n → lo ≤ firstRatio num inp k ∧ firstRatio num inp k ≤ hi) →
      ∃ gain, (lo ≤ gain ∧ gain ≤ hi) ∧
        ∀ band, (inp.compared num unset unset_asym_add).pitch_pow_dens_deg n band =
          inp.power_deg num n band * gain := by
  have hpower := compared_power num unset unset_asym_add hn
  refine ⟨fun band => ?_, fun lo hi hlo hhi hratio => ?_⟩
  · rw [hpower, smoothed_eq]
    rfl
  · obtain ⟨hge, hle⟩ := smoothed_mem_Icc (by norm_num : (0 : ℝ) ≤ 1 / 5) (by norm_num) hratio
    refine ⟨_, ⟨hge, hle⟩, fun band => ?_⟩
    rw [hpower, scaledPower, clamp_of_mem (hlo.trans hge) (hle.trans hhi)]

/-- The gain of the third frame of the loud signal, in the second band. -/
theorem gain_follows_levels_loud :
    (loudInput.compared realNumerics 0 0).pitch_pow_dens_deg (2 : ℕ) 1 =
      loudInput.power_deg realNumerics (2 : ℕ) 1 * clamp (MIN_SCALE : ℝ) MAX_SCALE
        ((1 / 5) ^ 2 * firstRatio realNumerics loudInput 0 + ∑ k ∈ Finset.range 2,
          (1 - 1 / 5) * (1 / 5) ^ (2 - 1 - k) * firstRatio realNumerics loudInput (k + 1 : ℕ)) :=
  (gain_follows_levels 0 0 (by rw [loudInput_stop_frame]; norm_num)).1 1

/-! ## The highest score -/

include hnum hadmitted in
/-- The score is the highest one exactly if there is a frame that counts, and every one counts as
equal. -/
theorem score_highest_iff :
    inp.pesq_mos num unset unset_asym_add = some (9 / 2) ↔
      inp.start_frame ≤ inp.stop_frame ∧
        ∀ frame, inp.start_frame ≤ frame → frame ≤ inp.stop_frame →
          inp.CountsAsEqual unset unset_asym_add num frame := by
  have hstandard := hadmitted.standard hnum (inp.disturbances num unset unset_asym_add)
  have hsettled := fun frame (hframe : 0 ≤ frame ∧ frame ≤ inp.stop_frame) =>
    inp.settled_disturbances hnum unset unset_asym_add hframe
  have hnonneg := relative_nonneg hnum hadmitted hsettled
  -- The asymmetric disturbance of a frame vanishes with the other one.
  have hzero : ∀ frame, (inp.finalInput num
      (inp.disturbances num unset unset_asym_add)).Counts frame →
      ((inp.finalInput num (inp.disturbances num unset unset_asym_add)).frame_disturbance frame =
          0 ∧
        (inp.finalInput num
          (inp.disturbances num unset unset_asym_add)).frame_disturbance_asym_add frame = 0 ↔
        inp.CountsAsEqual unset unset_asym_add num frame) := by
    intro frame hframe
    have hbounds := hadmitted.frame_bounds hnum hframe
    rw [← inp.disturbances_eq_zero_iff hnum unset unset_asym_add hbounds]
    exact ⟨fun h => (inp.relative_eq_zero_iff hnum).mp h.1, fun h =>
      ⟨(inp.relative_eq_zero_iff hnum).mpr h,
        (inp.relative_eq_zero_iff hnum).mpr ((hsettled frame hbounds).zero_asym_add h)⟩⟩
  refine (FinalInput.pesq_mos_eq_highest_iff hstandard hnonneg).trans (and_congr_right fun _ => ?_)
  exact ⟨fun hall frame hstart hstop =>
      (hzero frame ⟨hstart, hstop⟩).mp (hall frame ⟨hstart, hstop⟩),
    fun hall frame hframe => (hzero frame hframe).mpr (hall frame hframe.1 hframe.2)⟩

/-- When the loud signal has the highest score. -/
theorem score_highest_iff_loud :
    loudInput.pesq_mos realNumerics 0 0 = some (9 / 2) ↔
      loudInput.start_frame ≤ loudInput.stop_frame ∧
        ∀ frame, loudInput.start_frame ≤ frame → frame ≤ loudInput.stop_frame →
          loudInput.CountsAsEqual 0 0 realNumerics frame :=
  score_highest_iff exact_realNumerics admitted_loudInput 0 0

/-- Equal powers sound equal. -/
theorem soundsEqual_of_eq (hnum : Exact num) (b : Bands ℝ) {ref deg : ℕ → ℝ}
    (h : ∀ band < b.Nb, deg band = ref band) : SoundsEqual num b ref deg := by
  intro band hone hband
  have hloudness : intensity_warping_of num b deg band = intensity_warping_of num b ref band := by
    unfold intensity_warping_of
    rw [h band hband]
  rw [hloudness]
  exact SoundsEqual.refl hnum b ref band hone hband

/-- The audible power of equal powers. -/
theorem total_audible_congr (b : Bands ℝ) {x y : ℕ → ℝ} (h : ∀ band < b.Nb, x band = y band)
    (factor : ℝ) : total_audible b x factor = total_audible b y factor :=
  Finset.sum_congr rfl fun band hband => by rw [h band (Finset.mem_Ico.mp hband).2]

/-- Equal powers have the same level. -/
theorem levelRatio_of_eq (b : Bands ℝ) {ref deg : ℕ → ℝ} (h : ∀ band < b.Nb, deg band = ref band) :
    levelRatio b ref deg = 1 := by
  have hpower := total_audible_nonneg b ref zero_le_one
  unfold levelRatio
  rw [total_audible_congr b h]
  refine div_self (ne_of_gt ?_)
  have hconstant : (0 : ℝ) < (5E3 : ℚ) := by norm_num
  linarith

/-- The degraded signal has a copy of every frame of the reference at the delay of the frame. -/
structure IsCopy (inp : AcousticInput ℝ) : Prop where
  inSignal : ∀ frame, 0 ≤ frame → frame ≤ inp.stop_frame → inp.InSignal frame
  data_eq : ∀ frame, 0 ≤ frame → frame ≤ inp.stop_frame → ∀ n : ℕ, n < inp.Nf →
    inp.deg_data (inp.control.start_sample_deg frame + n) =
      inp.ref_data (inp.control.start_sample_ref frame + n)

/-- The frames of a copy have the same powers. -/
theorem IsCopy.power_deg_eq (h : inp.IsCopy) (num : Numerics ℝ) (hframe : 0 ≤ frame)
    (hstop : frame ≤ inp.stop_frame) : inp.power_deg num frame = inp.power_ref num frame := by
  have hframes : (fun n : ℕ => if n < inp.Nf then
        inp.deg_data (inp.control.start_sample_deg frame + n) * Whanning num inp.Nf n else 0) =
      fun n : ℕ => if n < inp.Nf then
        inp.ref_data (inp.control.start_sample_ref frame + n) * Whanning num inp.Nf n else 0 := by
    funext n
    split
    · rename_i hn
      rw [h.data_eq frame hframe hstop n hn]
    · rfl
  unfold power_deg power_ref framePower short_term_fft
  rw [if_pos (h.inSignal frame hframe hstop), hframes]

/-- The averages are divided by a positive number. -/
theorem Admitted.total_number_of_frames_pos (h : inp.Admitted) :
    0 < inp.total_number_of_frames := by
  have hlong := h.long
  unfold total_number_of_frames
  rw [h.rate_eq]
  have hNf : rate_16k.Nf.tdiv 2 = 256 := rfl
  have hsize : inp.maxNsamples - 2 * SEARCHBUFFER * rate_16k.Downsample + rate_16k.padding =
      inp.maxNsamples - 4480 := by
    simp only [SEARCHBUFFER, Rate.padding, DATAPADDING_MSECS, rate_16k]
    omega
  rw [hNf, hsize, Int.tdiv_eq_ediv_of_nonneg (by omega)]
  omega

/-- An average power is not negative. -/
theorem Admitted.averagePower_nonneg (h : inp.Admitted) (num : Numerics ℝ)
    (pitch_pow_dens : ℤ → ℕ → ℝ) {band : ℕ} (hband : band < inp.bands.Nb) :
    0 ≤ inp.averagePower num pitch_pow_dens band := by
  have hthresh := inp.bands.thresh_pos band hband
  have htotal : (0 : ℝ) ≤ inp.total_number_of_frames := by
    exact_mod_cast h.total_number_of_frames_pos.le
  refine div_nonneg (Finset.sum_nonneg fun n _ => ?_) htotal
  dsimp only
  split
  · rename_i haudible
    have hscaled : (0 : ℝ) < (100 : ℚ) * inp.bands.abs_thresh_power band :=
      mul_pos (by norm_num) hthresh
    exact (hscaled.trans haudible.2).le
  · exact le_rfl

/-- The reference is not filtered if the degraded signal is a copy. -/
theorem IsCopy.pitch_pow_dens_ref_eq (h : inp.IsCopy) (hadmitted : inp.Admitted)
    (num : Numerics ℝ) (frame : ℤ) {band : ℕ} (hband : band < inp.bands.Nb) :
    inp.pitch_pow_dens_ref num frame band = inp.power_ref num frame band := by
  have haverage : inp.averagePower num (inp.power_deg num) =
      inp.averagePower num (inp.power_ref num) := by
    funext band
    unfold averagePower time_avg_audible_of
    refine congrArg (· / _) (Finset.sum_congr rfl fun n hn => ?_)
    have hlt := Finset.mem_range.mp hn
    rw [h.power_deg_eq num (Int.natCast_nonneg n) (by omega)]
  have hnonneg := hadmitted.averagePower_nonneg num (inp.power_ref num) hband
  have hconstant : (0 : ℝ) < (1000 : ℚ) := by norm_num
  have hratio : (inp.averagePower num (inp.power_ref num) band + ((1000 : ℚ) : ℝ)) /
      (inp.averagePower num (inp.power_ref num) band + ((1000 : ℚ) : ℝ)) = 1 :=
    div_self (by linarith)
  unfold pitch_pow_dens_ref freq_resp_compensation respFactor
  rw [haverage, hratio, clamp_of_mem (by norm_num) (by norm_num), mul_one]

include hnum hadmitted in
/-- A degraded signal that has a copy of every frame at the delay of that frame has the highest
score, whatever the delays are. -/
theorem score_of_copy (hcopy : inp.IsCopy) (hframes : inp.start_frame ≤ inp.stop_frame) :
    inp.pesq_mos num unset unset_asym_add = some (9 / 2) := by
  refine (score_highest_iff hnum hadmitted unset unset_asym_add).mpr
    ⟨hframes, fun frame hstart hstop => Or.inr (Or.inl ?_)⟩
  have hnonneg : 0 ≤ frame :=
    (hadmitted.standard hnum (inp.compared num unset unset_asym_add)).start_nonneg.trans hstart
  have hpower : ∀ later, 0 ≤ later → later ≤ inp.stop_frame → ∀ band < inp.bands.Nb,
      inp.power_deg num later band = inp.pitch_pow_dens_ref num later band := by
    intro later hlater hle band hband
    rw [hcopy.power_deg_eq num hlater hle,
      hcopy.pitch_pow_dens_ref_eq hadmitted num later hband]
  -- The signals have the same level in all frames, and the gain is one.
  obtain ⟨n, rfl⟩ := Int.eq_ofNat_of_zero_le hnonneg
  have hratio : ∀ k ≤ n, firstRatio num inp k ∈ Set.Icc (1 : ℝ) 1 := by
    intro k hk
    have hone : firstRatio num inp k = 1 :=
      levelRatio_of_eq _ (hpower k (Int.natCast_nonneg k) (by omega))
    exact ⟨hone.ge, hone.le⟩
  obtain ⟨hge, hle⟩ := smoothed_mem_Icc (by norm_num : (0 : ℝ) ≤ 1 / 5) (by norm_num) hratio
  refine soundsEqual_of_eq hnum _ fun band hband => ?_
  rw [compared_power num unset unset_asym_add hstop, le_antisymm hle hge, scaledPower,
    clamp_of_mem (by norm_num [MIN_SCALE]) (by norm_num [MAX_SCALE]), mul_one]
  exact hpower n hnonneg hstop band hband

/-- The loud signal is a copy of itself. -/
theorem score_of_copy_loud : loudInput.pesq_mos realNumerics 0 0 = some (9 / 2) :=
  score_of_copy exact_realNumerics admitted_loudInput 0 0
    ⟨fun _ hframe hstop => loudInput_bounds hframe hstop, fun _ _ _ _ _ => rfl⟩ loudInput_frames

/-! ## Realignment -/

/-- The score without the realignment of the bad intervals. -/
noncomputable def scoreUnrealigned (inp : AcousticInput ℝ) (num : Numerics ℝ)
    (unset unset_asym_add : ℤ → ℝ) : Option ℝ :=
  (inp.finalInput num (inp.skipFrames (inp.compared num unset unset_asym_add))).pesq_mos

include hnum hadmitted in
/-- Whatever intervals and delays are found, realignment leaves the frames outside of the intervals
alone, and the score is not lower than without it. -/
theorem realignment_raises_score (hframes : inp.start_frame ≤ inp.stop_frame) :
    (∀ frame, (∀ k ∈ inp.bad_intervals (inp.skipFrames (inp.compared num unset unset_asym_add)),
        ¬inp.InInterval (inp.skipFrames (inp.compared num unset unset_asym_add)) k frame) →
      SameAt (inp.skipFrames (inp.compared num unset unset_asym_add))
        (inp.disturbances num unset unset_asym_add) frame) ∧
    ∃ mos mos', inp.scoreUnrealigned num unset unset_asym_add = some mos ∧
      inp.pesq_mos num unset unset_asym_add = some mos' ∧ mos ≤ mos' := by
  have hstandard := hadmitted.standard hnum
  refine ⟨fun frame hout => ?_, _, _, FinalInput.pesq_mos_eq (hstandard _) hframes,
    FinalInput.pesq_mos_eq (hstandard _) hframes, ?_⟩
  · unfold disturbances
    dsimp only
    split
    · exact (inp.realign_at num _ frame).2 hout
    · exact ⟨rfl, rfl, rfl⟩
  · refine FinalInput.pesq_mos_anti (hstandard (inp.disturbances num unset unset_asym_add))
      (hstandard (inp.skipFrames (inp.compared num unset unset_asym_add))) ⟨rfl, rfl, rfl⟩
      (relative_nonneg hnum hadmitted fun frame hframe =>
        inp.settled_disturbances hnum unset unset_asym_add hframe) (fun frame _ => ?_)
      (FinalInput.pesq_mos_eq (hstandard _) hframes) (FinalInput.pesq_mos_eq (hstandard _) hframes)
    obtain ⟨hle, hle'⟩ := inp.disturbances_le unset unset_asym_add num frame
    exact ⟨inp.relative_mono hnum hle, inp.relative_mono hnum hle'⟩

end Score

/-! ## A lost signal -/

variable (inp) in
/-- The power of a constant signal in the second band, which has one line. -/
theorem framePower_constant (hnum : Exact num) (hrate : inp.rate = rate_16k) (c : ℝ) (start : ℤ) :
    inp.framePower num (fun _ => c) start 1 =
      (c * 128) ^ 2 * inp.bands.pow_dens_correction_factor 1 * inp.bands.Sp := by
  have hNf : inp.Nf = 2 ^ (8 + 1) := by
    unfold Nf
    rw [hrate]
    rfl
  have hbands : inp.bands = bands_16k := by
    unfold bands
    rw [hrate]
    rfl
  generalize hx : (fun n => if n < 2 ^ (8 + 1) then c * Whanning num (2 ^ (8 + 1)) n else 0) = x
  have hframe : ∀ i < 2 ^ (8 + 1), x i = c * Whanning num (2 ^ (8 + 1)) i := fun i hi => by
    rw [← hx]
    exact if_pos hi
  have hline : toComplex (num.RealFFT x (2 ^ (8 + 1))) 1 = ((-(c * 128) : ℝ) : ℂ) := by
    rw [hnum.toComplex_RealFFT x 8 hframe (by norm_num),
      hnum.dft_Whanning (by norm_num) c]
    push_cast
    ring
  have hre : num.RealFFT x (2 ^ (8 + 1)) (2 * 1) = -(c * 128) :=
    (congrArg Complex.re hline).trans (Complex.ofReal_re _)
  have him : num.RealFFT x (2 ^ (8 + 1)) (2 * 1 + 1) = 0 :=
    (congrArg Complex.im hline).trans (Complex.ofReal_im _)
  have hone : inp.bands.nr_of_hz_bands_per_bark_band 1 = 1 := by
    rw [hbands]
    rfl
  have hfirst : firstLine inp.bands 1 = 1 := by
    rw [hbands]
    rfl
  unfold framePower freq_warping
  dsimp only
  rw [hone, hfirst, Finset.sum_range_one, hNf]
  unfold short_term_fft
  dsimp only
  rw [Function.update_of_ne (by norm_num), hx, add_zero, hre, him]
  ring

/-- After the first comparison, the frames behind the last one are as they were. -/
theorem compared_outside (num : Numerics ℝ) (unset unset_asym_add : ℤ → ℝ)
    (h : inp.stop_frame < frame) :
    (inp.compared num unset unset_asym_add).frame_disturbance frame = unset frame :=
  ((foldl_compareFrame num inp.bands replace (inp.pitch_pow_dens_ref num) (Q := fun _ => True) _
    _ (nodup_framesFrom _ _) trivial fun _ _ _ _ => trivial).1 frame fun hmem =>
      absurd (mem_framesFrom.mp hmem).2 (by omega)).kept

/-- A degraded signal in which everything is lost. -/
noncomputable def lostInput : AcousticInput ℝ where
  rate := rate_16k
  ref_Nsamples := 13600
  deg_Nsamples := 13600
  ref_data _ := 1E8
  deg_data _ := 0
  err_info := { ErrorInfo.zero with Nutterances := 1 }
  toInt := id

/-- It is long enough. -/
theorem admitted_lostInput : lostInput.Admitted := ⟨rfl, admits_short⟩

/-- The reference is loud. -/
theorem lostInput_loud : ∀ p, LoudAt lostInput.ref_data p :=
  loudAt_const (by norm_num : (100 : ℝ) ≤ 1E8)

/-- The last frame. -/
theorem lostInput_stop_frame : lostInput.stop_frame = 34 := stop_frame_of_loud lostInput_loud

/-- The second band is loud in the reference. -/
theorem lostInput_ref (hnum : Exact num) (frame : ℤ) :
    1E15 ≤ lostInput.pitch_pow_dens_ref num frame 1 := by
  have hfactor : (0.01 : ℝ) ≤ respFactor (lostInput.averagePower num (lostInput.power_ref num))
      (lostInput.averagePower num (lostInput.power_deg num)) ((1000 : ℚ) : ℝ) 1 :=
    le_trans (by norm_num) (le_clamp (by norm_num) _)
  have hpower : (1E17 : ℝ) ≤ lostInput.power_ref num frame 1 := by
    have hconstant : lostInput.power_ref num frame 1 = _ :=
      lostInput.framePower_constant hnum rfl 1E8 _
    rw [hconstant]
    show (1E17 : ℝ) ≤ (1E8 * 128) ^ 2 * ((99.999992 : ℚ) : ℝ) * ((6.910853e-6 : ℚ) : ℝ)
    norm_num
  calc (1E15 : ℝ) = 1E17 * 0.01 := by norm_num
    _ ≤ lostInput.pitch_pow_dens_ref num frame 1 :=
      mul_le_mul hpower hfactor (by norm_num) (by linarith)

/-- Nothing can be heard in the degraded signal. -/
theorem lostInput_deg (hnum : Exact num) (frame : ℤ) : lostInput.power_deg num frame 1 = 0 := by
  unfold power_deg
  split
  · have hconstant := lostInput.framePower_constant hnum rfl 0
      (lostInput.control.start_sample_deg frame)
    rw [zero_mul, zero_pow two_ne_zero, zero_mul, zero_mul] at hconstant
    exact hconstant
  · unfold freq_warping
    simp

/-- The bands are wide. -/
theorem one_le_totalWeight : 1 ≤ totalWeight bands_16k := by
  have hsum : totalWeight bands_16k =
      ((∑ band ∈ Finset.Ico 1 49, width_of_band_bark_16k.getD band 0 : ℚ) : ℝ) := by
    rw [Rat.cast_sum]
    rfl
  rw [hsum]
  exact_mod_cast (by decide +kernel :
    (1 : ℚ) ≤ ∑ band ∈ Finset.Ico 1 49, width_of_band_bark_16k.getD band 0)

/-- The loudness of the second band. -/
theorem lostInput_loudness (hnum : Exact num) (frame : ℤ) :
    111 ≤ intensity_warping_of num bands_16k (lostInput.pitch_pow_dens_ref num frame) 1 := by
  have hthresh : (bands_16k : Bands ℝ).abs_thresh_power 1 = ((2454709.500000 : ℚ) : ℝ) := rfl
  have hSl : (bands_16k : Bands ℝ).Sl = ((1.866055e-001 : ℚ) : ℝ) := rfl
  have href := lostInput_ref hnum frame
  have hscale : (20 : ℝ) ^ 5 ≤ (bands_16k : Bands ℝ).abs_thresh_power 1 / 0.5 := by
    rw [hthresh]
    norm_num
  have haudible : (bands_16k : Bands ℝ).abs_thresh_power 1 <
      lostInput.pitch_pow_dens_ref num frame 1 := by
    rw [hthresh]
    push_cast
    linarith
  have hgrown : (31 : ℝ) ^ 5 ≤ 0.5 + 0.5 * lostInput.pitch_pow_dens_ref num frame 1 /
      (bands_16k : Bands ℝ).abs_thresh_power 1 := by
    rw [hthresh, ← sub_le_iff_le_add', le_div_iff₀ (by norm_num)]
    push_cast
    linarith
  have hloud := le_intensity_warping_of hnum bands_16k (show 1 < 49 by norm_num) (by norm_num)
    (by norm_num) hscale haudible hgrown
  refine le_trans ?_ hloud
  rw [hSl]
  norm_num

/-- So the frames are bad. -/
theorem lostInput_bad (hnum : Exact num) (unset unset_asym_add : ℤ → ℝ) {n : ℕ}
    (hn : (n : ℤ) ≤ lostInput.stop_frame) :
    (THRESHOLD_BAD_FRAMES : ℝ) <
      (lostInput.compared num unset unset_asym_add).frame_disturbance n := by
  have hbands : lostInput.bands = (bands_16k : Bands ℝ) := rfl
  have hthresh : (0 : ℝ) ≤ (bands_16k : Bands ℝ).abs_thresh_power 1 :=
    (bands_16k.thresh_pos 1 (show 1 < 49 by norm_num)).le
  have hwidth : (bands_16k : Bands ℝ).width_of_band_bark 1 = ((0.317994 : ℚ) : ℝ) := rfl
  have hloudness := lostInput_loudness hnum n
  have hdeg : (lostInput.compared num unset unset_asym_add).pitch_pow_dens_deg n 1 ≤
      lostInput.bands.abs_thresh_power 1 := by
    rw [compared_power num unset unset_asym_add hn, scaledPower, lostInput_deg hnum, zero_mul]
    exact hthresh
  have hlost := le_frame_disturbance hnum lostInput.bands (lostInput.pitch_pow_dens_ref num n) _
    one_le_totalWeight le_rfl (show 1 < 49 by norm_num) hdeg
  rw [hbands, hwidth] at hlost
  rw [(lostInput.compared_at unset unset_asym_add num ⟨Int.natCast_nonneg n, hn⟩).1, hbands]
  calc (THRESHOLD_BAD_FRAMES : ℝ) < 111 * ((0.317994 : ℚ) : ℝ) := by
        norm_num [THRESHOLD_BAD_FRAMES]
    _ ≤ _ := mul_le_mul_of_nonneg_right hloudness (by norm_num)
    _ ≤ _ := hlost

/-- The frames that are compared again. -/
theorem lostInput_intervals (hnum : Exact num) :
    (lostInput.badControl (lostInput.skipFrames (lostInput.compared num 0 0))).intervals.intervals =
      [(2, 32)] := by
  have hflags : (fun frame : ℕ => decide ((lostInput.compared num 0 0).frame_disturbance frame >
      THRESHOLD_BAD_FRAMES)) = fun frame => decide (frame < 35) := by
    funext frame
    rw [decide_eq_decide]
    by_cases hframe : frame < 35
    · refine iff_of_true (lostInput_bad hnum 0 0 ?_) hframe
      rw [lostInput_stop_frame]
      omega
    · refine iff_of_false ?_ hframe
      have hbehind : lostInput.stop_frame < frame := by
        rw [lostInput_stop_frame]
        omega
      rw [compared_outside num 0 0 hbehind]
      norm_num [THRESHOLD_BAD_FRAMES]
  have hintervals : (lostInput.badControl
      (lostInput.skipFrames (lostInput.compared num 0 0))).intervals =
      badIntervals 34 fun frame => decide (frame < 35) := by
    rw [← hflags, ← lostInput_stop_frame]
    rfl
  rw [hintervals, intervals_badIntervals (isRuns_smearedRuns 34 _)]
  decide

/-- Frames 2 to 31 of the lost signal are compared again. -/
theorem realignment_raises_score_lost :
    (lostInput.badControl (lostInput.skipFrames
        (lostInput.compared realNumerics 0 0))).intervals.intervals = [(2, 32)] ∧
      lostInput.disturbances realNumerics 0 0 = lostInput.realign realNumerics
        (lostInput.skipFrames (lostInput.compared realNumerics 0 0)) ∧
      ∃ mos mos', lostInput.scoreUnrealigned realNumerics 0 0 = some mos ∧
        lostInput.pesq_mos realNumerics 0 0 = some mos' ∧ mos ≤ mos' := by
  have hbad : lostInput.there_is_a_bad_frame (lostInput.compared realNumerics 0 0) = true := by
    refine List.any_eq_true.mpr ⟨(0 : ℕ), mem_framesFrom.mpr ⟨le_rfl, ?_⟩,
      decide_eq_true (lostInput_bad exact_realNumerics 0 0 ?_)⟩
    · rw [lostInput_stop_frame]
      norm_num
    · rw [lostInput_stop_frame]
      norm_num
  refine ⟨lostInput_intervals exact_realNumerics, if_pos hbad, ?_⟩
  exact (realignment_raises_score exact_realNumerics admitted_lostInput 0 0
    (start_frame_le_of_loud lostInput_loud)).2

end TgVoipRate.Pesq.Acoustic.AcousticInput
