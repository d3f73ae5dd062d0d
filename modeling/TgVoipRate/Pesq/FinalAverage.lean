import Mathlib.Analysis.SpecialFunctions.Pow.Real
import Mathlib.Tactic.Linarith
import Mathlib.Tactic.Positivity
import Mathlib.Tactic.NormNum
import TgVoipRate.Lib.Loop
import TgVoipRate.Pesq.FrameRange

/-!
# The average over the frames

The end of `pesq_psychoacoustic_model` in `pesqmod.c`: the weights of the frames, and the averages
of the disturbances over the frames from the first to the last one that counts (`Lpq_weight`), from
which the score is computed. An average is a quotient of two sums over syllables; where the divisor
is zero it is not a number, which is none here.

The two frame numbers come from independent scans. The first one may be behind the last one, and
then there is nothing to average (`averages_defined_iff`).
-/

namespace TgVoipRate.Pesq

open Loops (Loop)

variable {𝕜 : Type*} [Field 𝕜] [LinearOrder 𝕜]

/-! ## `Lpq_weight` -/

/-- The frames in a syllable, which overlap by half. -/
def NUMBER_OF_PSQM_FRAMES_PER_SYLLABE : ℕ := 20

/-- The average over the frames of a syllable. Frames behind the last one count as zero. -/
def syllableAverage (pow : 𝕜 → 𝕜 → 𝕜) (stop_frame : ℤ) (power_syllable : 𝕜)
    (frame_disturbance : ℤ → 𝕜) (start_frame_of_syllable : ℤ) : 𝕜 :=
  let result_syllable := (List.range NUMBER_OF_PSQM_FRAMES_PER_SYLLABE).foldl
    (fun sum (i : ℕ) =>
      let frame := start_frame_of_syllable + i
      if frame ≤ stop_frame then sum + pow (frame_disturbance frame) power_syllable else sum)
    (0 : 𝕜)
  let count_syllable := NUMBER_OF_PSQM_FRAMES_PER_SYLLABE
  pow (result_syllable / count_syllable) (1 / power_syllable)

/-- The variables of the loop over the syllables. -/
structure TimeSums (𝕜 : Type*) where
  start_frame_of_syllable : ℤ
  result_time : 𝕜
  total_time_weight_time : 𝕜

/-- The sums before the loop. -/
def TimeSums.init (start_frame : ℤ) : TimeSums 𝕜 :=
  { start_frame_of_syllable := start_frame, result_time := 0, total_time_weight_time := 0 }

/-- The loop over the syllables. -/
def syllables (pow : 𝕜 → 𝕜 → 𝕜) (start_frame stop_frame : ℤ) (power_syllable power_time : 𝕜)
    (frame_disturbance time_weight : ℤ → 𝕜) : Loop (TimeSums 𝕜) where
  guard s := s.start_frame_of_syllable ≤ stop_frame
  body s :=
    let weight := time_weight (s.start_frame_of_syllable - start_frame)
    let result_syllable := syllableAverage pow stop_frame power_syllable frame_disturbance
      s.start_frame_of_syllable
    { start_frame_of_syllable :=
        s.start_frame_of_syllable + (NUMBER_OF_PSQM_FRAMES_PER_SYLLABE / 2 : ℕ)
      result_time := s.result_time + pow (weight * result_syllable) power_time
      total_time_weight_time := s.total_time_weight_time + pow weight power_time }
  variant s := (stop_frame + 1 - s.start_frame_of_syllable).toNat
  decreases s h := by
    simp only [NUMBER_OF_PSQM_FRAMES_PER_SYLLABE]
    omega

/-- The average over the frames, weighted by time. -/
def Lpq_weight (pow : 𝕜 → 𝕜 → 𝕜) (start_frame stop_frame : ℤ) (power_syllable power_time : 𝕜)
    (frame_disturbance time_weight : ℤ → 𝕜) : Option 𝕜 :=
  let s := (syllables pow start_frame stop_frame power_syllable power_time frame_disturbance
    time_weight).run (TimeSums.init start_frame)
  if s.total_time_weight_time = 0 then none
  else some (pow (s.result_time / s.total_time_weight_time) (1 / power_time))

/-! ## The score -/

/-- The powers over a syllable and over time, for both averages. -/
def D_POW_S : 𝕜 := 6
def D_POW_T : 𝕜 := 2
def A_POW_S : 𝕜 := 6
def A_POW_T : 𝕜 := 2

/-- The weights of the two averages in the score. -/
def D_WEIGHT : 𝕜 := 1 / 10
def A_WEIGHT : 𝕜 := 309 / 10000

/-- The weight of a frame: in a long signal, earlier frames weigh less. -/
def time_weight (rate : Rate) (maxNsamples stop_frame frame : ℤ) : 𝕜 :=
  if stop_frame + 1 > 1000 then
    let n := (maxNsamples - 2 * SEARCHBUFFER * rate.Downsample).tdiv (rate.Nf.tdiv 2) - 1
    let timeWeightFactor : 𝕜 := ((n : 𝕜) - 1000) / 5500
    let timeWeightFactor := if timeWeightFactor > 1 / 2 then 1 / 2 else timeWeightFactor
    (1 - timeWeightFactor) + timeWeightFactor * (frame : 𝕜) / (n : 𝕜)
  else 1

/-- What the score is computed from: the library's power function, the longer number of samples, the
padded reference, and the disturbances of the frames. -/
structure FinalInput (𝕜 : Type*) where
  rate : Rate
  pow : 𝕜 → 𝕜 → 𝕜
  maxNsamples : ℤ
  ref_data : ℤ → 𝕜
  frame_disturbance : ℤ → 𝕜
  frame_disturbance_asym_add : ℤ → 𝕜

namespace FinalInput

variable (inp : FinalInput 𝕜)

/-- The first frame that counts. -/
def start : ℤ := start_frame inp.rate inp.ref_data inp.maxNsamples

/-- The last frame. -/
def stop : ℤ := stop_frame inp.rate inp.ref_data inp.maxNsamples

/-- The weights of the frames. -/
def weight : ℤ → 𝕜 := time_weight inp.rate inp.maxNsamples inp.stop

/-- The loop of the average of the disturbances. -/
def d_loop : Loop (TimeSums 𝕜) :=
  syllables inp.pow inp.start inp.stop D_POW_S D_POW_T inp.frame_disturbance inp.weight

/-- The loop of the average of the asymmetric disturbances. -/
def a_loop : Loop (TimeSums 𝕜) :=
  syllables inp.pow inp.start inp.stop A_POW_S A_POW_T inp.frame_disturbance_asym_add inp.weight

/-- The average of the disturbances. -/
def d_indicator : Option 𝕜 :=
  Lpq_weight inp.pow inp.start inp.stop D_POW_S D_POW_T inp.frame_disturbance inp.weight

/-- The average of the asymmetric disturbances. -/
def a_indicator : Option 𝕜 :=
  Lpq_weight inp.pow inp.start inp.stop A_POW_S A_POW_T inp.frame_disturbance_asym_add inp.weight

/-- The score; none if it is not a number. -/
def pesq_mos : Option 𝕜 :=
  match inp.d_indicator, inp.a_indicator with
  | some d_indicator, some a_indicator =>
    some (9 / 2 - D_WEIGHT * d_indicator - A_WEIGHT * a_indicator)
  | _, _ => none

/-- The averages are defined: there is a frame to average over, both loops make a round, their
divisors are positive, and the score is a number. -/
structure AveragesDefined : Prop where
  start_nonneg : 0 ≤ inp.start
  start_le_stop : inp.start ≤ inp.stop
  d_rounds : ∃ s n, 0 < n ∧ inp.d_loop.Ends (TimeSums.init inp.start) s n
  a_rounds : ∃ s n, 0 < n ∧ inp.a_loop.Ends (TimeSums.init inp.start) s n
  d_divisor : 0 < (inp.d_loop.run (TimeSums.init inp.start)).total_time_weight_time
  a_divisor : 0 < (inp.a_loop.run (TimeSums.init inp.start)).total_time_weight_time
  score : inp.pesq_mos.isSome

end FinalInput

/-! ## The divisor -/

section Divisor

variable [IsStrictOrderedRing 𝕜] {pow : 𝕜 → 𝕜 → 𝕜} {start_frame stop_frame : ℤ}
  {power_syllable power_time : 𝕜} {frame_disturbance time_weight : ℤ → 𝕜}

/-- With a frame to average over, positive weights and a power function that keeps them positive,
the divisor is positive: the first round makes it so, and the others keep it so. -/
theorem total_time_weight_time_pos (hpow : ∀ x p, 0 < x → 0 < pow x p)
    (hweight : ∀ frame, 0 ≤ frame → frame ≤ stop_frame - start_frame → 0 < time_weight frame)
    (h : start_frame ≤ stop_frame) :
    0 < ((syllables pow start_frame stop_frame power_syllable power_time frame_disturbance
      time_weight).run (TimeSums.init start_frame)).total_time_weight_time := by
  have hfirst : 0 < time_weight (start_frame - start_frame) := hweight _ (by omega) (by omega)
  rw [Loop.run_of_guard _ (show start_frame ≤ stop_frame from h)]
  refine (Loop.run_invariant (I := fun s : TimeSums 𝕜 => start_frame ≤ s.start_frame_of_syllable ∧
    0 < s.total_time_weight_time) _ ?_ ⟨?_, ?_⟩).2
  · rintro s hguard ⟨hle, hpos⟩
    have hguard' : s.start_frame_of_syllable ≤ stop_frame := hguard
    refine ⟨?_, add_pos hpos (hpow _ _ (hweight _ (by omega) (by omega)))⟩
    simp only [syllables, NUMBER_OF_PSQM_FRAMES_PER_SYLLABE]
    omega
  · simp only [syllables, TimeSums.init, NUMBER_OF_PSQM_FRAMES_PER_SYLLABE]
    omega
  · exact add_pos_of_nonneg_of_pos le_rfl (hpow _ _ hfirst)

omit [LinearOrder 𝕜] [IsStrictOrderedRing 𝕜] in
/-- With a frame to average over, the loop makes a round. -/
theorem syllables_rounds (pow : 𝕜 → 𝕜 → 𝕜) (power_syllable power_time : 𝕜)
    (frame_disturbance time_weight : ℤ → 𝕜) (h : start_frame ≤ stop_frame) :
    ∃ s n, 0 < n ∧ (syllables pow start_frame stop_frame power_syllable power_time
      frame_disturbance time_weight).Ends (TimeSums.init start_frame) s n := by
  obtain ⟨n, -, hends⟩ := (syllables pow start_frame stop_frame power_syllable power_time
    frame_disturbance time_weight).run_ends (TimeSums.init start_frame)
  refine ⟨_, n, Nat.pos_of_ne_zero ?_, hends⟩
  rintro rfl
  exact hends.not_guard (hends.iterate ▸ h)

omit [IsStrictOrderedRing 𝕜] in
/-- Without one, the average is not a number. -/
theorem Lpq_weight_of_lt (pow : 𝕜 → 𝕜 → 𝕜) (power_syllable power_time : 𝕜)
    (frame_disturbance time_weight : ℤ → 𝕜) (h : stop_frame < start_frame) :
    Lpq_weight pow start_frame stop_frame power_syllable power_time frame_disturbance time_weight =
      none := by
  have hguard : ¬(TimeSums.init start_frame : TimeSums 𝕜).start_frame_of_syllable ≤ stop_frame :=
    not_le.mpr h
  rw [Lpq_weight, Loop.run_of_not_guard _ hguard]
  exact if_pos rfl

end Divisor

/-- The weight of a frame is positive: the factor is at most one half, and where it is negative it
is small, since a signal with more than 1000 frames has almost as many without the padding. -/
theorem time_weight_pos [IsStrictOrderedRing 𝕜] {maxNsamples stop_frame frame : ℤ}
    (hstop : stop_frame ≤ (maxNsamples - 4480) / 256 - 1) (hframe : 0 ≤ frame)
    (hle : frame ≤ stop_frame) :
    (0 : 𝕜) < time_weight rate_16k maxNsamples stop_frame frame := by
  rw [time_weight]
  split
  next hlong =>
    have hn : (maxNsamples - 2 * SEARCHBUFFER * rate_16k.Downsample).tdiv (rate_16k.Nf.tdiv 2) - 1 =
        (maxNsamples - 9600) / 256 - 1 := by
      have hNf : rate_16k.Nf.tdiv 2 = 256 := rfl
      have hbuffer : 2 * SEARCHBUFFER * rate_16k.Downsample = 9600 := rfl
      rw [hNf, hbuffer, Int.tdiv_eq_ediv_of_nonneg (by omega)]
    rw [hn]
    generalize hnn : (maxNsamples - 9600) / 256 - 1 = n
    have hn_large : 979 ≤ n := by omega
    have hframe_le : frame ≤ 2 * n := by omega
    have hn_pos : (0 : 𝕜) < n := by
      exact_mod_cast (by omega : (0 : ℤ) < n)
    have hratio_nonneg : (0 : 𝕜) ≤ (frame : 𝕜) / n :=
      div_nonneg (by exact_mod_cast hframe) hn_pos.le
    have hratio_le : (frame : 𝕜) / n ≤ 2 := by
      rw [div_le_iff₀ hn_pos]
      exact_mod_cast hframe_le
    have hfactor : (-1 : 𝕜) < ((n : 𝕜) - 1000) / 5500 := by
      have hcast : (979 : 𝕜) ≤ n := by exact_mod_cast hn_large
      rw [lt_div_iff₀ (by norm_num)]
      linarith
    dsimp only
    rw [mul_div_assoc]
    split
    next => linarith
    next hsmall =>
      have hhalf := not_lt.mp hsmall
      generalize ((n : 𝕜) - 1000) / 5500 = factor at *
      rcases le_total 0 factor with hpos | hneg
      · have hprod := mul_nonneg hpos hratio_nonneg
        linarith
      · have hprod := mul_le_mul_of_nonpos_left hratio_le hneg
        linarith
  next => exact one_pos

/-! ## Where the loud samples are -/

/-- Five samples from an index on are loud. -/
def LoudAt (data : ℤ → 𝕜) (p : ℤ) : Prop :=
  CRITERIUM_FOR_SILENCE_OF_5_SAMPLES ≤
    |data p| + |data (p + 1)| + |data (p + 2)| + |data (p + 3)| + |data (p + 4)|

/-- The sum that a scan computes. -/
theorem sum_of_5_samples_eq (data : ℤ → 𝕜) (index : ℤ → ℤ) :
    sum_of_5_samples data index =
      |data (index 0)| + |data (index 1)| + |data (index 2)| + |data (index 3)| +
        |data (index 4)| := by
  simp [sum_of_5_samples, List.range_succ]

/-- The scan at the start stops at loud samples. -/
theorem quietAtStart_eq_false_iff (data : ℤ → 𝕜) (t : ℤ) :
    quietAtStart rate_16k data t = false ↔ LoudAt data (4800 + t) := by
  have hindex (i : ℤ) : startIndex rate_16k t i = 4800 + t + i := rfl
  rw [quietAtStart, decide_eq_false_iff_not, not_lt, sum_of_5_samples_eq, LoudAt]
  simp only [hindex, add_zero]

/-- The scan at the end stops at loud samples, whose sum it computes from the other side. -/
theorem quietAtEnd_eq_false_iff (data : ℤ → 𝕜) (maxNsamples t : ℤ) :
    quietAtEnd rate_16k data maxNsamples t = false ↔ LoudAt data (maxNsamples + 315 - t) := by
  have hindex (i : ℤ) : endIndex rate_16k maxNsamples t i = maxNsamples + 315 - t + (4 - i) := by
    simp only [endIndex, Rate.padding, DATAPADDING_MSECS, SEARCHBUFFER, rate_16k]
    omega
  have hreverse (a b c d e : 𝕜) : a + b + c + d + e = e + d + c + b + a := by ring
  rw [quietAtEnd, decide_eq_false_iff_not, not_lt, sum_of_5_samples_eq, hreverse, LoudAt]
  norm_num only [hindex, add_zero]

/-- What is skipped at the start ends before a position exactly if there are loud samples before it,
or the scan reaches its bound before it. -/
theorem samples_to_skip_at_start_lt_iff {maxNsamples : ℤ} (h : 13600 ≤ maxNsamples)
    (data : ℤ → 𝕜) (b : ℤ) :
    samples_to_skip_at_start rate_16k data maxNsamples < b ↔
      maxNsamples / 2 < b ∨
        ∃ p, 4800 ≤ p ∧ p < 4800 + maxNsamples / 2 ∧ p < 4800 + b ∧ LoudAt data p := by
  have hhalf : maxNsamples.tdiv 2 = maxNsamples / 2 := Int.tdiv_eq_ediv_of_nonneg (by omega)
  rw [samples_to_skip_at_start, hhalf, skipSilence_lt_iff _ (by omega)]
  refine or_congr_right ⟨?_, ?_⟩
  · rintro ⟨t, hpos, hbound, hb, hloud⟩
    exact ⟨4800 + t, by omega, by omega, by omega, (quietAtStart_eq_false_iff data t).mp hloud⟩
  · rintro ⟨p, hpos, hbound, hb, hloud⟩
    refine ⟨p - 4800, by omega, by omega, by omega, (quietAtStart_eq_false_iff data _).mpr ?_⟩
    rwa [add_sub_cancel]

/-- What is skipped at the end is bounded exactly if there are loud samples that far from the end,
or the bound of the scan is. -/
theorem samples_to_skip_at_end_le_iff {maxNsamples : ℤ} (h : 13600 ≤ maxNsamples)
    (data : ℤ → 𝕜) (c : ℤ) :
    samples_to_skip_at_end rate_16k data maxNsamples ≤ c ↔
      maxNsamples / 2 ≤ c ∨
        ∃ p, maxNsamples + 315 - c ≤ p ∧ maxNsamples + 315 - maxNsamples / 2 < p ∧
          p ≤ maxNsamples + 315 ∧ LoudAt data p := by
  have hhalf : maxNsamples.tdiv 2 = maxNsamples / 2 := Int.tdiv_eq_ediv_of_nonneg (by omega)
  rw [samples_to_skip_at_end, hhalf, ← Int.lt_add_one_iff, skipSilence_lt_iff _ (by omega),
    Int.lt_add_one_iff]
  refine or_congr_right ⟨?_, ?_⟩
  · rintro ⟨t, hpos, hbound, hc, hloud⟩
    exact ⟨maxNsamples + 315 - t, by omega, by omega, by omega,
      (quietAtEnd_eq_false_iff data maxNsamples t).mp hloud⟩
  · rintro ⟨p, hc, hbound, hpos, hloud⟩
    refine ⟨maxNsamples + 315 - p, by omega, by omega, by omega,
      (quietAtEnd_eq_false_iff data maxNsamples _).mpr ?_⟩
    rwa [sub_sub_cancel]

/-- A boundary between two frames separates loud samples, or the middle of the signal, on its left
from loud samples, or the middle, at a distance on its right. -/
def Separated (data : ℤ → 𝕜) (maxNsamples : ℤ) : Prop :=
  ∃ b, 0 < b ∧ 256 ∣ b ∧
    (maxNsamples / 2 < b ∨
      ∃ p, 4800 ≤ p ∧ p < 4800 + maxNsamples / 2 ∧ p < 4800 + b ∧ LoudAt data p) ∧
    (b ≤ maxNsamples - 4480 - maxNsamples / 2 ∨
      ∃ p, 4795 + b ≤ p ∧ maxNsamples + 315 - maxNsamples / 2 < p ∧ p ≤ maxNsamples + 315 ∧
        LoudAt data p)

/-- The first frame is not behind the last one exactly if the loud samples are separated. -/
theorem start_frame_le_stop_frame_iff {maxNsamples : ℤ} (h : 13600 ≤ maxNsamples)
    (data : ℤ → 𝕜) :
    start_frame rate_16k data maxNsamples ≤ stop_frame rate_16k data maxNsamples ↔
      Separated data maxNsamples := by
  have hstart := samples_to_skip_at_start_lt_iff h data
  have hend := samples_to_skip_at_end_le_iff h data
  obtain ⟨⟨hpos, -⟩, -, hle⟩ := samples_to_skip_le h data
  rw [start_frame_16k h, stop_frame_16k h, Separated]
  generalize samples_to_skip_at_start rate_16k data maxNsamples = at_start at *
  generalize samples_to_skip_at_end rate_16k data maxNsamples = at_end at *
  constructor
  · -- The first boundary behind what is skipped at the start.
    intro hframes
    refine ⟨256 * (at_start / 256 + 1), by omega, Dvd.intro _ rfl, (hstart _).mp (by omega), ?_⟩
    have hright := (hend (maxNsamples - 4480 - 256 * (at_start / 256 + 1))).mp (by omega)
    refine hright.imp (fun hbound => by omega) ?_
    rintro ⟨p, hp, hloud⟩
    exact ⟨p, by omega, hloud⟩
  · rintro ⟨b, hb, ⟨k, rfl⟩, hleft, hright⟩
    have hbefore := (hstart (256 * k)).mpr hleft
    have hbehind := (hend (maxNsamples - 4480 - 256 * k)).mpr (hright.imp (fun hbound => by omega)
      fun ⟨p, hp, hloud⟩ => ⟨p, by omega, hloud⟩)
    omega

/-! ## The averages -/

/-- The averages of an input at 16 kHz are defined exactly if its loud samples are separated. -/
theorem averages_defined_iff [IsStrictOrderedRing 𝕜] (inp : FinalInput 𝕜)
    {ref_Nsamples deg_Nsamples : ℤ} (hrate : inp.rate = rate_16k)
    (hadmits : rate_16k.Admits ref_Nsamples deg_Nsamples)
    (hmax : inp.maxNsamples = max ref_Nsamples deg_Nsamples)
    (hpow : ∀ x p, 0 < x → 0 < inp.pow x p) :
    inp.AveragesDefined ↔ Separated inp.ref_data inp.maxNsamples := by
  have hlong : 13600 ≤ inp.maxNsamples := by
    rw [hmax]
    exact le_max_of_le_left hadmits.le.1
  have hiff := start_frame_le_stop_frame_iff hlong inp.ref_data
  rw [← hrate] at hiff
  change inp.start ≤ inp.stop ↔ _ at hiff
  rw [← hiff]
  refine ⟨FinalInput.AveragesDefined.start_le_stop, fun hle => ?_⟩
  have hstart : 0 ≤ inp.start := by
    rw [FinalInput.start, hrate, start_frame_16k hlong]
    exact Int.ediv_nonneg (samples_to_skip_le hlong _).1.1 (by decide)
  have hstop : inp.stop ≤ (inp.maxNsamples - 4480) / 256 - 1 := by
    have hskip := (samples_to_skip_le hlong inp.ref_data).2.1
    rw [FinalInput.stop, hrate, stop_frame_16k hlong]
    omega
  have hweight : ∀ frame, 0 ≤ frame → frame ≤ inp.stop - inp.start → 0 < inp.weight frame := by
    intro frame hframe hlast
    rw [FinalInput.weight, hrate]
    exact time_weight_pos hstop hframe (by omega)
  have hd : 0 < (inp.d_loop.run (TimeSums.init inp.start)).total_time_weight_time :=
    total_time_weight_time_pos hpow hweight hle
  have ha : 0 < (inp.a_loop.run (TimeSums.init inp.start)).total_time_weight_time :=
    total_time_weight_time_pos hpow hweight hle
  exact
    { start_nonneg := hstart
      start_le_stop := hle
      d_rounds := syllables_rounds _ _ _ _ _ hle
      a_rounds := syllables_rounds _ _ _ _ _ hle
      d_divisor := hd
      a_divisor := ha
      score := by
        have hd_indicator : inp.d_indicator = some _ := if_neg hd.ne'
        have ha_indicator : inp.a_indicator = some _ := if_neg ha.ne'
        rw [FinalInput.pesq_mos, hd_indicator, ha_indicator]
        rfl }

/-- An input with a reference of 0.85 seconds. -/
noncomputable def shortInput (ref_data : ℤ → ℝ) : FinalInput ℝ :=
  { rate := rate_16k
    pow := fun x p => x ^ p
    maxNsamples := 13600
    ref_data
    frame_disturbance := fun _ => 1
    frame_disturbance_asym_add := fun _ => 1 }

/-- Signals of that length are admitted. -/
theorem admits_short : rate_16k.Admits 13600 13600 := by
  simp only [Rate.Admits, rate_16k, SEARCHBUFFER]
  omega

/-- A reference that is loud throughout. -/
theorem averages_defined_loud : (shortInput fun _ => 1000).AveragesDefined := by
  have hloud (p : ℤ) : LoudAt (fun _ => (1000 : ℝ)) p := by
    norm_num [LoudAt, CRITERIUM_FOR_SILENCE_OF_5_SAMPLES]
  exact (averages_defined_iff (shortInput fun _ => 1000) rfl admits_short rfl
    fun x p hx => Real.rpow_pos_of_pos hx p).mpr
    ⟨256, by decide, Int.dvd_refl 256, Or.inr ⟨4800, by decide, by decide, by decide, hloud _⟩,
      Or.inl (by decide)⟩

/-- A reference that is silent but for one sample. -/
noncomputable def click (i : ℤ) : ℝ := if i = 9804 then 1000 else 0

/-- Five samples of it are loud only around that sample. -/
theorem LoudAt.click_near {p : ℤ} (h : LoudAt click p) : 9800 ≤ p ∧ p ≤ 9804 := by
  by_contra hfar
  have hsilent (i : ℤ) (hi : p ≤ i) (hi' : i ≤ p + 4) : click i = 0 :=
    if_neg (by omega)
  rw [LoudAt, hsilent p (by omega) (by omega), hsilent (p + 1) (by omega) (by omega),
    hsilent (p + 2) (by omega) (by omega), hsilent (p + 3) (by omega) (by omega),
    hsilent (p + 4) (by omega) (by omega)] at h
  norm_num [CRITERIUM_FOR_SILENCE_OF_5_SAMPLES] at h

/-- The sample is on a boundary between two frames: there is no frame to average over, and the score
is not a number. -/
theorem averages_of_click :
    rate_16k.Admits 13600 13600 ∧ (shortInput click).stop < (shortInput click).start ∧
      (shortInput click).pesq_mos = none ∧ ¬(shortInput click).AveragesDefined := by
  have hlt : (shortInput click).stop < (shortInput click).start := by
    rw [← not_le]
    intro hle
    have hlong : (13600 : ℤ) ≤ 13600 := le_rfl
    obtain ⟨b, hb, ⟨k, rfl⟩, hleft, hright⟩ :=
      (start_frame_le_stop_frame_iff hlong click).mp hle
    have hsplit : 20 ≤ k := by
      rcases hleft with hbound | ⟨p, -, -, hp, hloud⟩
      · omega
      · have hnear := hloud.click_near
        omega
    rcases hright with hbound | ⟨p, hp, -, -, hloud⟩
    · omega
    · have hnear := hloud.click_near
      omega
  refine ⟨admits_short, hlt, ?_, fun hdefined => not_le.mpr hlt hdefined.start_le_stop⟩
  have hnone : (shortInput click).d_indicator = none := Lpq_weight_of_lt _ _ _ _ _ hlt
  rw [FinalInput.pesq_mos, hnone]

end TgVoipRate.Pesq
