import Mathlib
import TgVoipRate.Pesq.DelaySpec
import TgVoipRate.Pesq.GainSpec

/-!
# What the realignment of a bad interval finds

The bad intervals are so far apart that their samples do not meet, and so each interval is shifted
by its own delay, and nothing else is (`doubly_tweaked_deg_at`). If around an interval the degraded
signal is a displaced copy of the samples of the reference, and silent otherwise, then the
displacement is found, and the shift takes it back (`displacement_is_found`).
-/

namespace TgVoipRate.Pesq.Acoustic.AcousticInput

open CrossCorrelation (energy energy_shift)
open Dsp (nextpow2)

variable (inp : AcousticInput ℝ) (num : Numerics ℝ) (s : FrameState ℝ)

/-! ## The samples of the intervals -/

/-- Two bad intervals have three frames between them. -/
theorem intervals_apart (stop_frame : ℤ) (frame_is_bad : ℕ → Bool) :
    (badIntervals stop_frame frame_is_bad).intervals.Pairwise fun a b => a.2 + 3 ≤ b.1 := by
  have hruns := isRuns_smearedRuns stop_frame frame_is_bad
  rw [intervals_badIntervals hruns, List.pairwise_map, List.pairwise_filter]
  refine (separated_isBadInterval hruns).imp fun {r q} hrq hr hq => ?_
  have hgap := hrq.2 hr hq
  show (r.finish : ℤ) + 3 ≤ q.start
  omega

/-- The samples of a bad interval. -/
def samplesOf (bad_interval : ℕ) : Set ℤ :=
  Set.Ico ((inp.badControl s).start_sample_of_bad_interval bad_interval)
    ((inp.badControl s).stop_sample_of_bad_interval bad_interval)

variable {inp}

/-- The samples of a bad interval, from its frames. -/
theorem samplesOf_eq (hrate : inp.rate = rate_16k) (bad_interval : ℕ) :
    (inp.badControl s).start_sample_of_bad_interval bad_interval =
        (inp.badControl s).intervals.start_frame_of_bad_interval bad_interval * 256 + 4800 ∧
      (inp.badControl s).stop_sample_of_bad_interval bad_interval =
        (inp.badControl s).intervals.stop_frame_of_bad_interval bad_interval * 256 + 512 +
          4800 := by
  have hcontrol : (inp.badControl s).rate = rate_16k := hrate
  have hrun : (collect (inp.badControl s).stop_frame (smear (inp.badControl s).stop_frame
      (inp.badControl s).frame_is_bad)).run Collected.init = (inp.badControl s).intervals :=
    (badIntervals_eq_run _ _).symm
  unfold ModelInput.start_sample_of_bad_interval ModelInput.stop_sample_of_bad_interval
  rw [hrun, hcontrol]
  exact ⟨rfl, rfl⟩

/-- A sample is in one bad interval at most. -/
theorem pairwise_samplesOf (hrate : inp.rate = rate_16k) (i : ℤ) :
    (inp.bad_intervals s).Pairwise fun k l => ¬(i ∈ inp.samplesOf s k ∧ i ∈ inp.samplesOf s l) := by
  have hapart := intervals_apart inp.stop_frame
    fun frame => decide (s.frame_disturbance frame > THRESHOLD_BAD_FRAMES)
  rw [Collected.intervals, List.pairwise_map] at hapart
  refine hapart.imp fun {k l} hgap => ?_
  rintro ⟨⟨-, hstop⟩, hstart, -⟩
  rw [(samplesOf_eq s hrate k).2] at hstop
  rw [(samplesOf_eq s hrate l).1] at hstart
  have hgap : (inp.badControl s).intervals.stop_frame_of_bad_interval k + 3 ≤
      (inp.badControl s).intervals.start_frame_of_bad_interval l := hgap
  omega

/-! ## The shift of the intervals -/

variable (inp)

/-- The sample that a shift puts at a place. -/
noncomputable def shiftedSample (bad_interval : ℕ) (i : ℤ) : ℝ :=
  let j := inp.toInt (i + inp.delay_in_samples_in_bad_interval num s bad_interval)
  let j := if j < 0 then 0 else j
  inp.tweaked_deg (if j ≥ inp.maxNsamples then inp.maxNsamples - 1 else j)

/-- Shifts of intervals that do not meet. -/
theorem foldl_shiftInterval (i : ℤ) : ∀ (intervals : List ℕ) (data : ℤ → ℝ),
    intervals.Pairwise (fun k l => ¬(i ∈ inp.samplesOf s k ∧ i ∈ inp.samplesOf s l)) →
    (∀ k ∈ intervals, i ∈ inp.samplesOf s k →
      intervals.foldl (inp.shiftInterval num s) data i = inp.shiftedSample num s k i) ∧
    ((∀ k ∈ intervals, i ∉ inp.samplesOf s k) →
      intervals.foldl (inp.shiftInterval num s) data i = data i) := by
  intro intervals
  induction intervals with
  | nil =>
    intro data _
    exact ⟨fun k hk => absurd hk List.not_mem_nil, fun _ => rfl⟩
  | cons first intervals ih =>
    intro data hpairwise
    obtain ⟨hfirst, hpairwise⟩ := List.pairwise_cons.mp hpairwise
    obtain ⟨hlater_in, hlater_out⟩ := ih (inp.shiftInterval num s data first) hpairwise
    rw [List.foldl_cons]
    refine ⟨fun k hk hi => ?_, fun hnone => ?_⟩
    · rcases List.mem_cons.mp hk with rfl | hmem
      · rw [hlater_out fun l hl hl_in => hfirst l hl ⟨hi, hl_in⟩]
        exact if_pos hi
      · exact hlater_in k hmem hi
    · obtain ⟨hnot_first, hnot_later⟩ := List.forall_mem_cons.mp hnone
      rw [hlater_out hnot_later]
      exact if_neg hnot_first

/-- Each bad interval is shifted by its own delay, and nothing else is shifted. -/
theorem doubly_tweaked_deg_at (hrate : inp.rate = rate_16k) (i : ℤ) :
    (∀ k ∈ inp.bad_intervals s, i ∈ inp.samplesOf s k →
      inp.doubly_tweaked_deg num s i = inp.shiftedSample num s k i) ∧
    ((∀ k ∈ inp.bad_intervals s, i ∉ inp.samplesOf s k) →
      inp.doubly_tweaked_deg num s i = inp.tweaked_deg i) :=
  inp.foldl_shiftInterval num s i _ _ (pairwise_samplesOf s hrate i)

/-! ## A displaced interval -/

/-- The samples of the reference in a bad interval, and zeros around them. -/
noncomputable def isolated (bad_interval : ℕ) (i : ℤ) : ℝ :=
  if (inp.badControl s).start_sample_of_bad_interval bad_interval ≤ i ∧
      i < (inp.badControl s).stop_sample_of_bad_interval bad_interval then inp.ref_data i else 0

/-- The copy of the reference that a delay is computed from. -/
noncomputable def copied_ref (bad_interval : ℕ) (i : ℤ) : ℝ :=
  let start := (inp.badControl s).start_sample_of_bad_interval bad_interval
  let number := (inp.badControl s).stop_sample_of_bad_interval bad_interval - start
  let search_range_in_samples := SEARCH_RANGE_IN_TRANSFORM_LENGTH * inp.rate.Nf
  if search_range_in_samples ≤ i ∧ i < search_range_in_samples + number then
    inp.ref_data (start + (i - search_range_in_samples))
  else 0

/-- The copy of the degraded signal that a delay is computed from. -/
noncomputable def copied_deg (bad_interval : ℕ) (i : ℤ) : ℝ :=
  let start := (inp.badControl s).start_sample_of_bad_interval bad_interval
  let search_range_in_samples := SEARCH_RANGE_IN_TRANSFORM_LENGTH * inp.rate.Nf
  let nn := inp.maxNsamples - inp.rate.buffer + inp.rate.padding
  let j := start - search_range_in_samples + i
  let j := if j < inp.rate.buffer then inp.rate.buffer else j
  inp.tweaked_deg (if j ≥ nn then nn - 1 else j)

/-- The number of samples of the copies. -/
noncomputable def copiedLength (bad_interval : ℕ) : ℤ :=
  2 * (SEARCH_RANGE_IN_TRANSFORM_LENGTH * inp.rate.Nf) +
    ((inp.badControl s).stop_sample_of_bad_interval bad_interval -
      (inp.badControl s).start_sample_of_bad_interval bad_interval)

/-- The delay is computed from the copies. -/
theorem delay_eq (bad_interval : ℕ) :
    inp.delay_in_samples_in_bad_interval num s bad_interval =
      let found := compute_delay num 0 (inp.copiedLength s bad_interval)
        (SEARCH_RANGE_IN_TRANSFORM_LENGTH * inp.rate.Nf) (inp.copied_ref s bad_interval)
        (inp.copied_deg s bad_interval)
      if found.1 < (0.5 : ℚ) then 0 else found.2 := rfl

/-- Around a bad interval, as far as it is searched, the degraded signal has the samples of the
reference with a gain and displaced, and nothing else. Both are loud enough for a search. -/
structure Displaced (bad_interval : ℕ) (gain : ℝ) (displacement : ℤ) : Prop where
  gain_pos : 0 < gain
  displacement_mem : displacement ∈ Set.Ico (-2048) 2048
  copy : ∀ i, (inp.badControl s).start_sample_of_bad_interval bad_interval - 2048 ≤ i →
    i < (inp.badControl s).stop_sample_of_bad_interval bad_interval + 2048 →
      inp.tweaked_deg i = gain * inp.isolated s bad_interval (i - displacement)
  loud_ref : (1E-6 : ℚ) * nextpow2 (2 * inp.copiedLength s bad_interval).toNat <
    energy (inp.isolated s bad_interval)
  loud_deg : (1E-6 : ℚ) * nextpow2 (2 * inp.copiedLength s bad_interval).toNat <
    gain ^ 2 * energy (inp.isolated s bad_interval)

/-- The interval and what is searched around it are in the signal, and the samples that the interval
is shifted to have `int` indices. -/
structure Surrounded (bad_interval : ℕ) (displacement : ℤ) : Prop where
  start_le : inp.rate.buffer ≤
    (inp.badControl s).start_sample_of_bad_interval bad_interval - 2048
  le_stop : (inp.badControl s).stop_sample_of_bad_interval bad_interval + 2048 ≤
    inp.maxNsamples - inp.rate.buffer + inp.rate.padding
  le_maxNsamples : (inp.badControl s).stop_sample_of_bad_interval bad_interval + displacement ≤
    inp.maxNsamples
  toInt_eq : ∀ j, 0 ≤ j → j < inp.maxNsamples → inp.toInt j = j

variable {inp} {k : ℕ} {gain : ℝ} {displacement : ℤ}

/-- The range of a search. -/
theorem search_range_16k (hrate : inp.rate = rate_16k) :
    SEARCH_RANGE_IN_TRANSFORM_LENGTH * inp.rate.Nf = 2048 := by
  rw [hrate]
  rfl

/-- The magnitudes of the copy of the reference are those of the isolated samples. -/
theorem magnitudesAround_copied_ref (hrate : inp.rate = rate_16k) (i : ℤ) :
    magnitudesAround (inp.copied_ref s k) 0 (inp.copiedLength s k - 0) i =
      |inp.isolated s k ((inp.badControl s).start_sample_of_bad_interval k - 2048 + i)| := by
  unfold magnitudesAround copied_ref copiedLength isolated
  dsimp only
  rw [search_range_16k hrate]
  generalize (inp.badControl s).start_sample_of_bad_interval k = start
  generalize (inp.badControl s).stop_sample_of_bad_interval k = stop
  have hplace : start + (i + 0 - 2048) = start - 2048 + i := by ring
  rw [hplace]
  split_ifs <;> first | omega | rfl | exact abs_zero.symm

/-- Those of the copy of the degraded signal are displaced, with the gain. -/
theorem magnitudesAround_copied_deg (hrate : inp.rate = rate_16k)
    (hdisplaced : inp.Displaced s k gain displacement)
    (hsurrounded : inp.Surrounded s k displacement) (i : ℤ) :
    magnitudesAround (inp.copied_deg s k) 0 (inp.copiedLength s k - 0) i =
      gain * magnitudesAround (inp.copied_ref s k) 0 (inp.copiedLength s k - 0)
        (i - displacement) := by
  obtain ⟨hlow, hhigh⟩ := hdisplaced.displacement_mem
  have hcopy := hdisplaced.copy
    ((inp.badControl s).start_sample_of_bad_interval k - 2048 + i)
  have hstart := hsurrounded.start_le
  have hstop := hsurrounded.le_stop
  rw [magnitudesAround_copied_ref s hrate]
  unfold magnitudesAround copied_deg copiedLength
  unfold isolated at hcopy ⊢
  dsimp only
  rw [search_range_16k hrate]
  revert hcopy hstart hstop
  generalize (inp.badControl s).start_sample_of_bad_interval k = start
  generalize (inp.badControl s).stop_sample_of_bad_interval k = stop
  intro hcopy hstart hstop
  by_cases hi : 0 ≤ i ∧ i < 2 * 2048 + (stop - start) - 0
  · have hinside : ¬start - 2048 + (i + 0) < inp.rate.buffer := by omega
    rw [if_pos hi, if_neg hinside, if_neg (by omega), add_zero, hcopy (by omega) (by omega),
      abs_mul, abs_of_pos hdisplaced.gain_pos, add_sub_assoc]
  · rw [if_neg hi, if_neg (by omega), abs_zero, mul_zero]

/-- The copy of the reference has the energy of the isolated samples. -/
theorem energy_copied_ref (hrate : inp.rate = rate_16k) :
    energy (magnitudesAround (inp.copied_ref s k) 0 (inp.copiedLength s k - 0)) =
      energy (inp.isolated s k) := by
  rw [funext (magnitudesAround_copied_ref s hrate),
    ← energy_shift (inp.isolated s k)
      ((inp.badControl s).start_sample_of_bad_interval k - 2048)]
  unfold energy
  refine finsum_congr fun i => ?_
  rw [sq_abs, add_comm]

/-- A bad interval has samples. -/
theorem start_lt_stop (hrate : inp.rate = rate_16k) (hk : k ∈ inp.bad_intervals s) :
    (inp.badControl s).start_sample_of_bad_interval k <
      (inp.badControl s).stop_sample_of_bad_interval k := by
  have hlong := (exactIntervals_marked inp.stop_frame
    fun frame => decide (s.frame_disturbance frame > THRESHOLD_BAD_FRAMES)).long _
      (List.mem_map.mpr ⟨k, hk, rfl⟩)
  have hlong : (inp.badControl s).intervals.start_frame_of_bad_interval k + 5 ≤
      (inp.badControl s).intervals.stop_frame_of_bad_interval k := hlong
  obtain ⟨hstart, hstop⟩ := samplesOf_eq s hrate k
  omega

variable (hnum : Exact num) (hrate : inp.rate = rate_16k) (hk : k ∈ inp.bad_intervals s)
  (hdisplaced : inp.Displaced s k gain displacement)
  (hsurrounded : inp.Surrounded s k displacement)

include hnum hrate hk hdisplaced hsurrounded

/-- The displacement is the delay. -/
theorem delay_displaced :
    inp.delay_in_samples_in_bad_interval num s k = displacement := by
  have hlt := start_lt_stop s hrate hk
  have hlength : inp.copiedLength s k = 4096 +
      ((inp.badControl s).stop_sample_of_bad_interval k -
        (inp.badControl s).start_sample_of_bad_interval k) := by
    unfold copiedLength
    rw [search_range_16k hrate]
    norm_num
  have hcopy := magnitudesAround_copied_deg s hrate hdisplaced hsurrounded
  have hloud : Loud 0 (inp.copiedLength s k) (inp.copied_ref s k) (inp.copied_deg s k) := by
    unfold Loud
    dsimp only
    rw [funext hcopy, CrossCorrelation.energy_copy, energy_copied_ref s hrate, sub_zero]
    exact ⟨hdisplaced.loud_ref, hdisplaced.loud_deg⟩
  have hfound := compute_delay_copy _ _ hnum (by omega) (show (0 : ℤ) < 2048 by norm_num)
    (by omega) hloud hdisplaced.gain_pos hdisplaced.displacement_mem hcopy
  rw [delay_eq, search_range_16k hrate, hfound]
  exact if_neg (by norm_num)

/-- The samples of the interval are those of the reference. -/
theorem doubly_tweaked_deg_displaced {i : ℤ} (hi : i ∈ inp.samplesOf s k) :
    inp.doubly_tweaked_deg num s i = gain * inp.ref_data i := by
  obtain ⟨hlow, hhigh⟩ := hdisplaced.displacement_mem
  obtain ⟨hstart, hstop⟩ := hi
  have hbuffer : inp.rate.buffer = 4800 := by
    rw [hrate]
    rfl
  have hfirst := hsurrounded.start_le
  have hlast := hsurrounded.le_maxNsamples
  rw [(inp.doubly_tweaked_deg_at num s hrate i).1 k hk ⟨hstart, hstop⟩]
  unfold shiftedSample
  dsimp only
  rw [delay_displaced num s hnum hrate hk hdisplaced hsurrounded,
    hsurrounded.toInt_eq _ (by omega) (by omega), if_neg (by omega), if_neg (by omega),
    hdisplaced.copy _ (by omega) (by omega), add_sub_cancel_right]
  unfold isolated
  rw [if_pos ⟨hstart, hstop⟩]

/-- In exact arithmetic, at 16 kHz: if around a bad interval the degraded signal has the samples of
the reference with a gain, up to four frames earlier or later, and is silent otherwise, then the
model finds the displacement to the sample. The interval of the degraded signal is shifted back to
the samples of the reference with the gain, whatever becomes of the other intervals; and the powers
that the frames of the interval are compared by again are those of the reference, times the square
of the gain. -/
theorem displacement_is_found :
    inp.delay_in_samples_in_bad_interval num s k = displacement ∧
    (∀ i ∈ inp.samplesOf s k, inp.doubly_tweaked_deg num s i = gain * inp.ref_data i) ∧
    ∀ frame, inp.InInterval s k frame → ∀ band,
      inp.framePower num (inp.doubly_tweaked_deg num s) (inp.control.start_sample_ref frame) band =
        gain * gain * inp.power_ref num frame band := by
  have hshifted {i : ℤ} (hi : i ∈ inp.samplesOf s k) :=
    doubly_tweaked_deg_displaced num s hnum hrate hk hdisplaced hsurrounded hi
  refine ⟨delay_displaced num s hnum hrate hk hdisplaced hsurrounded, fun i hi => hshifted hi,
    fun frame hframe band => ?_⟩
  obtain ⟨hstart, hstop⟩ := samplesOf_eq s hrate k
  obtain ⟨hfirst, hlast⟩ := hframe
  have hplace : inp.control.start_sample_ref frame = 4800 + frame * 256 := by
    have hcontrol : inp.control.rate = rate_16k := hrate
    unfold ModelInput.start_sample_ref
    rw [hcontrol, show rate_16k.Nf = 256 * 2 from rfl, ← mul_assoc,
      Int.mul_tdiv_cancel _ two_ne_zero]
    rfl
  refine inp.framePower_scaled hnum hrate (fun n hn => hshifted ?_) band
  rw [hplace]
  exact ⟨by omega, by omega⟩

/-! ## An example -/

omit hnum hrate hk hdisplaced hsurrounded

/-- A loud reference, and a degraded signal that only has a part of it, quieter and later. -/
noncomputable def lateInput : AcousticInput ℝ where
  rate := rate_16k
  ref_Nsamples := 13600
  deg_Nsamples := 13600
  ref_data _ := 1200
  deg_data i := if 7972 ≤ i ∧ i < 10020 then 600 else 0
  err_info := { ErrorInfo.zero with Nutterances := 1 }
  toInt := id

/-- Disturbances that make the frames of the part bad. -/
noncomputable def lateFrames : FrameState ℝ where
  oldScale := 1
  pitch_pow_dens_deg _ _ := 0
  frame_disturbance frame := if 12 ≤ frame ∧ frame < 18 then 40 else 0
  frame_disturbance_asym_add _ := 0

/-- The last frame. -/
theorem lateInput_stop_frame : lateInput.stop_frame = 34 :=
  stop_frame_of_loud (loudAt_const (by norm_num : (100 : ℝ) ≤ 1200))

/-- The frames of the part are bad. -/
theorem lateFrames_bad :
    (fun frame : ℕ => decide (lateFrames.frame_disturbance frame > THRESHOLD_BAD_FRAMES)) =
      fun frame => decide (12 ≤ frame ∧ frame < 18) := by
  funext frame
  rw [decide_eq_decide]
  unfold lateFrames THRESHOLD_BAD_FRAMES
  dsimp only
  split
  · exact iff_of_true (by norm_num) (by omega)
  · exact iff_of_false (by norm_num) (by omega)

/-- They are the only bad interval. -/
theorem lateInput_intervals :
    (lateInput.badControl lateFrames).intervals.intervals = [(12, 18)] := by
  have hintervals : (lateInput.badControl lateFrames).intervals =
      badIntervals 34 fun frame => decide (12 ≤ frame ∧ frame < 18) := by
    rw [← lateFrames_bad, ← lateInput_stop_frame]
    rfl
  rw [hintervals, intervals_badIntervals (isRuns_smearedRuns 34 _)]
  decide

/-- Its samples. -/
theorem lateInput_samples :
    0 ∈ lateInput.bad_intervals lateFrames ∧
      (lateInput.badControl lateFrames).start_sample_of_bad_interval 0 = 7872 ∧
      (lateInput.badControl lateFrames).stop_sample_of_bad_interval 0 = 9920 := by
  have hintervals := lateInput_intervals
  have hnumber := congrArg List.length hintervals
  rw [Collected.intervals, List.length_map, List.length_range] at hnumber
  rw [Collected.intervals, hnumber] at hintervals
  have hends := (List.cons.inj hintervals).1
  have hstart : (lateInput.badControl lateFrames).intervals.start_frame_of_bad_interval 0 = 12 :=
    congrArg Prod.fst hends
  have hstop : (lateInput.badControl lateFrames).intervals.stop_frame_of_bad_interval 0 = 18 :=
    congrArg Prod.snd hends
  obtain ⟨hfirst, hlast⟩ :=
    samplesOf_eq lateFrames (show lateInput.rate = rate_16k from rfl) 0
  refine ⟨List.mem_range.mpr ?_, ?_, ?_⟩
  · rw [hnumber]
    exact Nat.one_pos
  · rw [hfirst, hstart]
    rfl
  · rw [hlast, hstop]
    rfl

/-- The degraded signal is not shifted by the delays. -/
theorem lateInput_tweaked_deg (i : ℤ) : lateInput.tweaked_deg i = lateInput.deg_data i := by
  have hdelay : delayAt lateInput.err_info lateInput.rate.Downsample i = 0 := ite_self 0
  have hbuffer : lateInput.control.rate.buffer = 4800 := rfl
  have hlimit : lateInput.rate.padding + lateInput.maxNsamples = 18720 := rfl
  have hdeg : lateInput.deg_data i = if 7972 ≤ i ∧ i < 10020 then 600 else 0 := rfl
  unfold tweaked_deg ModelInput.clampToSignal
  dsimp only
  rw [hdelay, hlimit, hbuffer, add_zero, show lateInput.rate.buffer = 4800 from rfl]
  split
  · rw [if_neg (by omega), if_neg (by omega)]
  · rw [hdeg, if_neg (by omega)]

/-- The isolated samples. -/
theorem lateInput_isolated (i : ℤ) :
    lateInput.isolated lateFrames 0 i = if 7872 ≤ i ∧ i < 9920 then 1200 else 0 := by
  obtain ⟨-, hstart, hstop⟩ := lateInput_samples
  unfold isolated
  rw [hstart, hstop]
  rfl

/-- They have energy. -/
theorem lateInput_energy : 1440000 ≤ energy (lateInput.isolated lateFrames 0) := by
  have hfinite : (Function.support fun i => lateInput.isolated lateFrames 0 i ^ 2).Finite := by
    refine (Set.finite_Ico (7872 : ℤ) 9920).subset fun i hi => by_contra fun hnot => hi ?_
    dsimp only
    rw [lateInput_isolated, if_neg (mt Set.mem_Ico.mpr hnot), zero_pow two_ne_zero]
  calc (1440000 : ℝ) = lateInput.isolated lateFrames 0 7872 ^ 2 := by
        rw [lateInput_isolated]
        norm_num
    _ ≤ energy (lateInput.isolated lateFrames 0) :=
        single_le_finsum 7872 hfinite fun i => sq_nonneg _

/-- The size of a transform is less than twice the number. -/
theorem nextpow2_lt {X : ℕ} (hX : 0 < X) : nextpow2 X < 2 * X :=
  (Dsp.doubleUpTo X).run_invariant (I := fun C => C.val < 2 * X)
    (fun C hguard _ => by
      show 2 * C.val < 2 * X
      have hguard : C.val < X := hguard
      omega) (by
      show 1 < 2 * X
      omega)

/-- The part of the degraded signal is displaced. -/
theorem lateInput_displaced : lateInput.Displaced lateFrames 0 (1 / 2) 100 := by
  obtain ⟨-, hstart, hstop⟩ := lateInput_samples
  have henergy := lateInput_energy
  have hlength : (2 * lateInput.copiedLength lateFrames 0).toNat = 12288 := by
    unfold copiedLength
    rw [hstart, hstop, search_range_16k rfl]
    rfl
  have hsize : (nextpow2 12288 : ℝ) < 24576 := by
    exact_mod_cast nextpow2_lt (X := 12288) (by norm_num)
  refine ⟨by norm_num, ⟨by norm_num, by norm_num⟩, fun i hlow hhigh => ?_, ?_, ?_⟩
  · rw [lateInput_tweaked_deg, lateInput_isolated]
    unfold lateInput
    dsimp only
    split_ifs <;> first | omega | norm_num
  · rw [hlength]
    norm_num
    linarith
  · rw [hlength]
    norm_num
    linarith

/-- It is in the signal. -/
theorem lateInput_surrounded : lateInput.Surrounded lateFrames 0 100 := by
  obtain ⟨-, hstart, hstop⟩ := lateInput_samples
  refine ⟨?_, ?_, ?_, fun _ _ _ => rfl⟩
  · rw [hstart]
    decide
  · rw [hstop]
    decide
  · rw [hstop]
    decide

/-- The delay of the part. -/
theorem displacement_is_found_late :
    lateInput.delay_in_samples_in_bad_interval realNumerics lateFrames 0 = 100 :=
  (displacement_is_found realNumerics lateFrames exact_realNumerics rfl lateInput_samples.1
    lateInput_displaced lateInput_surrounded).1

end TgVoipRate.Pesq.Acoustic.AcousticInput
