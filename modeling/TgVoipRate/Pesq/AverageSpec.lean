import Mathlib
import TgVoipRate.Lib.Means
import TgVoipRate.Pesq.FinalAverage

/-!
# The averages are power means

With the power function of real numbers, `Lpq_weight` is a power mean of power means: over the
frames of each syllable, and over the syllables (`Lpq_weight_eq`). So the averages keep the bounds
of the disturbances, they grow with them, and they vanish only with them; and the score, which the
averages are taken off from, falls with them (`pesq_mos_anti`).
-/

namespace TgVoipRate.Pesq

open Loops (Loop)
open Means (powerMean powerMean_nonneg powerMean_congr powerMean_mono powerMean_mul_le powerMean_le
  powerMean_eq_zero_iff)

/-! ## The syllables -/

section Syllables

variable {start_frame stop_frame : ℤ} {power_syllable power_time : ℝ}
  {frame_disturbance time_weight : ℤ → ℝ}

/-- The first frame of a syllable. -/
def syllableStart (start_frame : ℤ) (k : ℕ) : ℤ := start_frame + 10 * k

/-- The number of syllables. -/
def syllableCount (start_frame stop_frame : ℤ) : ℕ := ((stop_frame - start_frame) / 10 + 1).toNat

/-- The frames of a syllable that are not behind the last frame. -/
def framesIn (start_frame stop_frame : ℤ) (k : ℕ) : Finset ℕ :=
  {i ∈ Finset.range 20 | syllableStart start_frame k + i ≤ stop_frame}

/-- The power mean of a syllable. -/
noncomputable def syllableMean (start_frame stop_frame : ℤ) (power_syllable : ℝ)
    (frame_disturbance : ℤ → ℝ) (k : ℕ) : ℝ :=
  powerMean power_syllable 20 (framesIn start_frame stop_frame k)
    fun i => frame_disturbance (syllableStart start_frame k + i)

/-- The average over a syllable is its power mean. -/
theorem syllableAverage_eq (start_frame stop_frame : ℤ) (power_syllable : ℝ)
    (frame_disturbance : ℤ → ℝ) (k : ℕ) :
    syllableAverage (fun x p => x ^ p) stop_frame power_syllable frame_disturbance
        (syllableStart start_frame k) =
      syllableMean start_frame stop_frame power_syllable frame_disturbance k := by
  have hsum : ∀ n : ℕ, (List.range n).foldl (fun (sum : ℝ) (i : ℕ) =>
      if syllableStart start_frame k + i ≤ stop_frame then
        sum + frame_disturbance (syllableStart start_frame k + i) ^ power_syllable
      else sum) 0 =
      ∑ i ∈ Finset.range n, if syllableStart start_frame k + i ≤ stop_frame then
        frame_disturbance (syllableStart start_frame k + i) ^ power_syllable else 0 := by
    intro n
    induction n with
    | zero => rfl
    | succ n ih =>
      rw [List.range_succ, List.foldl_append, ih, Finset.sum_range_succ, List.foldl_cons,
        List.foldl_nil]
      split
      · rfl
      · rw [add_zero]
  unfold syllableAverage syllableMean powerMean framesIn NUMBER_OF_PSQM_FRAMES_PER_SYLLABE
  dsimp only
  rw [hsum, Finset.sum_filter]
  norm_num

/-- The sums after some rounds of the loop. -/
theorem syllables_iterate (n : ℕ) :
    (syllables (fun x p => x ^ p) start_frame stop_frame power_syllable power_time frame_disturbance
        time_weight).body^[n] (TimeSums.init start_frame) =
      { start_frame_of_syllable := syllableStart start_frame n
        result_time := ∑ k ∈ Finset.range n, (time_weight (10 * k) *
          syllableMean start_frame stop_frame power_syllable frame_disturbance k) ^ power_time
        total_time_weight_time := ∑ k ∈ Finset.range n, time_weight (10 * k) ^ power_time } := by
  induction n with
  | zero => simp [TimeSums.init, syllableStart]
  | succ n ih =>
    have hoffset : syllableStart start_frame n - start_frame = 10 * n := by
      unfold syllableStart
      omega
    have hnext : syllableStart start_frame n + 10 = syllableStart start_frame (n + 1) := by
      unfold syllableStart
      push_cast
      omega
    rw [Function.iterate_succ_apply', ih, Finset.sum_range_succ, Finset.sum_range_succ]
    unfold syllables
    dsimp only
    rw [syllableAverage_eq, hoffset, ← hnext]
    rfl

/-- The sums after the loop. -/
theorem syllables_run (h : start_frame ≤ stop_frame) :
    (syllables (fun x p => x ^ p) start_frame stop_frame power_syllable power_time frame_disturbance
        time_weight).run (TimeSums.init start_frame) =
      (syllables (fun x p => x ^ p) start_frame stop_frame power_syllable power_time
        frame_disturbance time_weight).body^[syllableCount start_frame stop_frame]
        (TimeSums.init start_frame) := by
  obtain ⟨n, -, hends⟩ := (syllables (fun x p => x ^ p) start_frame stop_frame power_syllable
    power_time frame_disturbance time_weight).run_ends (TimeSums.init start_frame)
  have hcount : n = syllableCount start_frame stop_frame := by
    -- The guard fails after the last round, and held before it.
    have hend := hends.not_guard
    rw [← hends.iterate, syllables_iterate] at hend
    have hend : ¬syllableStart start_frame n ≤ stop_frame := hend
    have hbefore : n = 0 ∨ syllableStart start_frame (n - 1) ≤ stop_frame := by
      rcases Nat.eq_zero_or_pos n with hzero | hpos
      · exact Or.inl hzero
      · have hguard := hends.guard (n - 1) (by omega)
        rw [syllables_iterate] at hguard
        exact Or.inr hguard
    unfold syllableStart at hend hbefore
    unfold syllableCount
    omega
  rw [← hcount, hends.iterate]

variable (hweight : ∀ frame, 0 ≤ frame → frame ≤ stop_frame - start_frame → 0 < time_weight frame)

include hweight in
/-- The weights of the syllables are positive. -/
theorem syllable_weight_pos :
    ∀ k ∈ Finset.range (syllableCount start_frame stop_frame), 0 < time_weight (10 * k) := by
  intro k hk
  have hlt := Finset.mem_range.mp hk
  unfold syllableCount at hlt
  exact hweight _ (by omega) (by omega)

/-- The divisor of the average over time. -/
noncomputable def timeDivisor (start_frame stop_frame : ℤ) (power_time : ℝ) (time_weight : ℤ → ℝ) :
    ℝ :=
  ∑ k ∈ Finset.range (syllableCount start_frame stop_frame), time_weight (10 * k) ^ power_time

include hweight in
/-- The divisor is positive. -/
theorem timeDivisor_pos (power_time : ℝ) (h : start_frame ≤ stop_frame) :
    0 < timeDivisor start_frame stop_frame power_time time_weight := by
  refine Finset.sum_pos (fun k hk => Real.rpow_pos_of_pos (syllable_weight_pos hweight k hk) _)
    ⟨0, Finset.mem_range.mpr ?_⟩
  unfold syllableCount
  omega

/-- The power mean over time. -/
noncomputable def timeMean (start_frame stop_frame : ℤ) (power_syllable power_time : ℝ)
    (frame_disturbance time_weight : ℤ → ℝ) : ℝ :=
  powerMean power_time (timeDivisor start_frame stop_frame power_time time_weight)
    (Finset.range (syllableCount start_frame stop_frame)) fun k =>
      time_weight (10 * k) *
        syllableMean start_frame stop_frame power_syllable frame_disturbance k

include hweight in
/-- `Lpq_weight` is a power mean. -/
theorem Lpq_weight_eq (power_syllable power_time : ℝ) (frame_disturbance : ℤ → ℝ)
    (h : start_frame ≤ stop_frame) :
    Lpq_weight (fun x p => x ^ p) start_frame stop_frame power_syllable power_time frame_disturbance
        time_weight =
      some (timeMean start_frame stop_frame power_syllable power_time frame_disturbance
        time_weight) := by
  unfold Lpq_weight
  dsimp only
  rw [syllables_run h, syllables_iterate]
  exact if_neg (timeDivisor_pos hweight power_time h).ne'

end Syllables

/-! ## Rules for the averages -/

section Rules

variable {start_frame stop_frame : ℤ} {power_syllable power_time M : ℝ} {x y time_weight : ℤ → ℝ}
  (hps : 0 < power_syllable) (hpt : 0 < power_time) (h : start_frame ≤ stop_frame)
  (hweight : ∀ frame, 0 ≤ frame → frame ≤ stop_frame - start_frame → 0 < time_weight frame)
  (hx : ∀ frame, start_frame ≤ frame → frame ≤ stop_frame → 0 ≤ x frame)

/-- The frames of a syllable are frames that count. -/
theorem mem_framesIn {k i : ℕ} (hi : i ∈ framesIn start_frame stop_frame k) :
    start_frame ≤ syllableStart start_frame k + i ∧
      syllableStart start_frame k + i ≤ stop_frame := by
  have hle := (Finset.mem_filter.mp hi).2
  refine ⟨?_, hle⟩
  unfold syllableStart
  omega

include hx in
/-- The mean of a syllable is not negative. -/
theorem syllableMean_nonneg (k : ℕ) :
    0 ≤ syllableMean start_frame stop_frame power_syllable x k :=
  powerMean_nonneg _ (by norm_num) fun _ hi => hx _ (mem_framesIn hi).1 (mem_framesIn hi).2

include hx hweight h in
/-- The average is not negative. -/
theorem timeMean_nonneg :
    0 ≤ timeMean start_frame stop_frame power_syllable power_time x time_weight :=
  powerMean_nonneg _ (timeDivisor_pos hweight power_time h).le fun k hk =>
    mul_nonneg (syllable_weight_pos hweight k hk).le (syllableMean_nonneg hx k)

include hps hpt hx hweight h in
/-- The average keeps a bound of the disturbances. -/
theorem timeMean_le (hM : 0 ≤ M)
    (hxM : ∀ frame, start_frame ≤ frame → frame ≤ stop_frame → x frame ≤ M) :
    timeMean start_frame stop_frame power_syllable power_time x time_weight ≤ M := by
  refine powerMean_mul_le hpt (timeDivisor_pos hweight power_time h)
    (fun k hk => (syllable_weight_pos hweight k hk).le) le_rfl hM
    (fun k _ => syllableMean_nonneg hx k) fun k _ => ?_
  have hcard : ((framesIn start_frame stop_frame k).card : ℝ) ≤ 20 := by
    exact_mod_cast (Finset.card_filter_le _ _).trans (Finset.card_range 20).le
  exact powerMean_le hps (by norm_num) hcard hM
    (fun _ hi => hx _ (mem_framesIn hi).1 (mem_framesIn hi).2)
    fun _ hi => hxM _ (mem_framesIn hi).1 (mem_framesIn hi).2

include hps hpt hx hweight h in
/-- The average grows with the disturbances. -/
theorem timeMean_mono
    (hxy : ∀ frame, start_frame ≤ frame → frame ≤ stop_frame → x frame ≤ y frame) :
    timeMean start_frame stop_frame power_syllable power_time x time_weight ≤
      timeMean start_frame stop_frame power_syllable power_time y time_weight := by
  refine powerMean_mono hpt (timeDivisor_pos hweight power_time h).le
    (fun k hk => mul_nonneg (syllable_weight_pos hweight k hk).le (syllableMean_nonneg hx k))
    fun k hk => ?_
  refine mul_le_mul_of_nonneg_left ?_ (syllable_weight_pos hweight k hk).le
  exact powerMean_mono hps (by norm_num)
    (fun _ hi => hx _ (mem_framesIn hi).1 (mem_framesIn hi).2)
    fun _ hi => hxy _ (mem_framesIn hi).1 (mem_framesIn hi).2

include hps hpt hx hweight h in
/-- The average is zero exactly if there is no disturbance. -/
theorem timeMean_eq_zero_iff :
    timeMean start_frame stop_frame power_syllable power_time x time_weight = 0 ↔
      ∀ frame, start_frame ≤ frame → frame ≤ stop_frame → x frame = 0 := by
  have hsyllable (k : ℕ) : syllableMean start_frame stop_frame power_syllable x k = 0 ↔
      ∀ i ∈ framesIn start_frame stop_frame k, x (syllableStart start_frame k + i) = 0 :=
    powerMean_eq_zero_iff hps (by norm_num)
      fun _ hi => hx _ (mem_framesIn hi).1 (mem_framesIn hi).2
  refine (powerMean_eq_zero_iff hpt (timeDivisor_pos hweight power_time h) fun k hk =>
    mul_nonneg (syllable_weight_pos hweight k hk).le (syllableMean_nonneg hx k)).trans ?_
  constructor
  · intro hall frame hstart hstop
    -- Each frame is in a syllable.
    obtain ⟨d, rfl⟩ : ∃ d : ℕ, frame = start_frame + d := ⟨(frame - start_frame).toNat, by omega⟩
    have hk : d / 10 ∈ Finset.range (syllableCount start_frame stop_frame) := by
      rw [Finset.mem_range]
      unfold syllableCount
      omega
    have hframe : syllableStart start_frame (d / 10) + (d % 10 : ℕ) = start_frame + d := by
      unfold syllableStart
      omega
    have hi : d % 10 ∈ framesIn start_frame stop_frame (d / 10) :=
      Finset.mem_filter.mpr ⟨Finset.mem_range.mpr (by omega), by omega⟩
    have hzero := (mul_eq_zero.mp (hall _ hk)).resolve_left
      (syllable_weight_pos hweight _ hk).ne'
    rw [← hframe]
    exact (hsyllable _).mp hzero _ hi
  · intro hall k _
    refine mul_eq_zero_of_right _ ((hsyllable k).mpr fun i hi => ?_)
    exact hall _ (mem_framesIn hi).1 (mem_framesIn hi).2

end Rules

/-! ## The score -/

namespace FinalInput

/-- At 16 kHz, with signals that are long enough and with the power function of real numbers. -/
structure Standard (inp : FinalInput ℝ) : Prop where
  rate_eq : inp.rate = rate_16k
  long : 13600 ≤ inp.maxNsamples
  pow_eq : inp.pow = fun x p => x ^ p

/-- A frame that counts. -/
def Counts (inp : FinalInput ℝ) (frame : ℤ) : Prop := inp.start ≤ frame ∧ frame ≤ inp.stop

variable {inp inp' : FinalInput ℝ}

/-- The first frame that counts is not negative. -/
theorem Standard.start_nonneg (h : inp.Standard) : 0 ≤ inp.start := by
  rw [start, h.rate_eq, start_frame_16k h.long]
  exact Int.ediv_nonneg (samples_to_skip_le h.long _).1.1 (by decide)

/-- The weights are positive. -/
theorem Standard.weight_pos (h : inp.Standard) :
    ∀ frame, 0 ≤ frame → frame ≤ inp.stop - inp.start → 0 < inp.weight frame := by
  have hstop : inp.stop ≤ (inp.maxNsamples - 4480) / 256 - 1 := by
    have hskip := (samples_to_skip_le h.long inp.ref_data).2.1
    rw [stop, h.rate_eq, stop_frame_16k h.long]
    omega
  have hstart := h.start_nonneg
  intro frame hframe hlast
  rw [weight, h.rate_eq]
  exact time_weight_pos hstop hframe (by omega)

/-- The averages. -/
noncomputable def d_mean (inp : FinalInput ℝ) : ℝ :=
  timeMean inp.start inp.stop D_POW_S D_POW_T inp.frame_disturbance inp.weight

/-- The average of the asymmetric disturbances. -/
noncomputable def a_mean (inp : FinalInput ℝ) : ℝ :=
  timeMean inp.start inp.stop A_POW_S A_POW_T inp.frame_disturbance_asym_add inp.weight

/-- The score, from the averages. -/
theorem pesq_mos_eq (h : inp.Standard) (hle : inp.start ≤ inp.stop) :
    inp.pesq_mos = some (9 / 2 - D_WEIGHT * inp.d_mean - A_WEIGHT * inp.a_mean) := by
  have hd : inp.d_indicator = some inp.d_mean := by
    rw [d_indicator, h.pow_eq]
    exact Lpq_weight_eq h.weight_pos _ _ _ hle
  have ha : inp.a_indicator = some inp.a_mean := by
    rw [a_indicator, h.pow_eq]
    exact Lpq_weight_eq h.weight_pos _ _ _ hle
  rw [pesq_mos, hd, ha]

/-- A score that is a number is computed from a frame. -/
theorem start_le_stop_of_pesq_mos {mos : ℝ} (h : inp.pesq_mos = some mos) :
    inp.start ≤ inp.stop := by
  by_contra hlt
  have hnone : inp.d_indicator = none := Lpq_weight_of_lt _ _ _ _ _ (not_le.mp hlt)
  rw [pesq_mos, hnone] at h
  cases h

/-- The disturbances of the frames that count are in a range. -/
def Within (inp : FinalInput ℝ) (M : ℝ) : Prop :=
  ∀ frame, inp.Counts frame →
    (0 ≤ inp.frame_disturbance frame ∧ inp.frame_disturbance frame ≤ M) ∧
      0 ≤ inp.frame_disturbance_asym_add frame ∧ inp.frame_disturbance_asym_add frame ≤ M

/-- The averages keep the range. -/
theorem means_mem {M : ℝ} (h : inp.Standard) (hle : inp.start ≤ inp.stop) (hM : 0 ≤ M)
    (hwithin : inp.Within M) :
    (0 ≤ inp.d_mean ∧ inp.d_mean ≤ M) ∧ 0 ≤ inp.a_mean ∧ inp.a_mean ≤ M := by
  have hd := fun frame hstart hstop => (hwithin frame ⟨hstart, hstop⟩).1
  have ha := fun frame hstart hstop => (hwithin frame ⟨hstart, hstop⟩).2
  refine ⟨⟨?_, ?_⟩, ?_, ?_⟩
  · exact timeMean_nonneg hle h.weight_pos fun frame hs ht => (hd frame hs ht).1
  · exact timeMean_le (by norm_num [D_POW_S]) (by norm_num [D_POW_T]) hle h.weight_pos
      (fun frame hs ht => (hd frame hs ht).1) hM fun frame hs ht => (hd frame hs ht).2
  · exact timeMean_nonneg hle h.weight_pos fun frame hs ht => (ha frame hs ht).1
  · exact timeMean_le (by norm_num [A_POW_S]) (by norm_num [A_POW_T]) hle h.weight_pos
      (fun frame hs ht => (ha frame hs ht).1) hM fun frame hs ht => (ha frame hs ht).2

/-- Two inputs that are averaged alike: over the same frames, with the same weights. -/
structure AveragedAlike (inp inp' : FinalInput ℝ) : Prop where
  rate_eq : inp'.rate = inp.rate
  maxNsamples_eq : inp'.maxNsamples = inp.maxNsamples
  ref_data_eq : inp'.ref_data = inp.ref_data

/-- They start at the same frame. -/
theorem AveragedAlike.start_eq (h : AveragedAlike inp inp') : inp'.start = inp.start := by
  rw [start, h.rate_eq, h.maxNsamples_eq, h.ref_data_eq]
  rfl

/-- They stop at the same frame. -/
theorem AveragedAlike.stop_eq (h : AveragedAlike inp inp') : inp'.stop = inp.stop := by
  rw [stop, h.rate_eq, h.maxNsamples_eq, h.ref_data_eq]
  rfl

/-- They have the same weights. -/
theorem AveragedAlike.weight_eq (h : AveragedAlike inp inp') : inp'.weight = inp.weight := by
  rw [weight, h.stop_eq, h.rate_eq, h.maxNsamples_eq]
  rfl

/-- With larger disturbances the score is not higher. -/
theorem pesq_mos_anti {mos mos' : ℝ} (h : inp.Standard) (h' : inp'.Standard)
    (halike : AveragedAlike inp inp')
    (hnonneg : ∀ frame, inp.Counts frame →
      0 ≤ inp.frame_disturbance frame ∧ 0 ≤ inp.frame_disturbance_asym_add frame)
    (hle : ∀ frame, inp.Counts frame →
      inp.frame_disturbance frame ≤ inp'.frame_disturbance frame ∧
        inp.frame_disturbance_asym_add frame ≤ inp'.frame_disturbance_asym_add frame)
    (hmos : inp.pesq_mos = some mos) (hmos' : inp'.pesq_mos = some mos') : mos' ≤ mos := by
  have hframes := start_le_stop_of_pesq_mos hmos
  have hd : inp.d_mean ≤ inp'.d_mean := by
    rw [d_mean, d_mean, halike.start_eq, halike.stop_eq, halike.weight_eq]
    exact timeMean_mono (by norm_num [D_POW_S]) (by norm_num [D_POW_T]) hframes h.weight_pos
      (fun frame hs ht => (hnonneg frame ⟨hs, ht⟩).1) fun frame hs ht => (hle frame ⟨hs, ht⟩).1
  have ha : inp.a_mean ≤ inp'.a_mean := by
    rw [a_mean, a_mean, halike.start_eq, halike.stop_eq, halike.weight_eq]
    exact timeMean_mono (by norm_num [A_POW_S]) (by norm_num [A_POW_T]) hframes h.weight_pos
      (fun frame hs ht => (hnonneg frame ⟨hs, ht⟩).2) fun frame hs ht => (hle frame ⟨hs, ht⟩).2
  rw [pesq_mos_eq h hframes, Option.some.injEq] at hmos
  rw [pesq_mos_eq h' (start_le_stop_of_pesq_mos hmos'), Option.some.injEq] at hmos'
  norm_num [D_WEIGHT, A_WEIGHT] at hmos hmos'
  linarith

/-- The score is the highest one exactly if there is a frame that counts, and none has a
disturbance. -/
theorem pesq_mos_eq_highest_iff (h : inp.Standard)
    (hnonneg : ∀ frame, inp.Counts frame →
      0 ≤ inp.frame_disturbance frame ∧ 0 ≤ inp.frame_disturbance_asym_add frame) :
    inp.pesq_mos = some (9 / 2) ↔ inp.start ≤ inp.stop ∧ ∀ frame, inp.Counts frame →
      inp.frame_disturbance frame = 0 ∧ inp.frame_disturbance_asym_add frame = 0 := by
  by_cases hframes : inp.start ≤ inp.stop
  · have hd := fun frame hs ht => (hnonneg frame ⟨hs, ht⟩).1
    have ha := fun frame hs ht => (hnonneg frame ⟨hs, ht⟩).2
    have hd_nonneg : 0 ≤ inp.d_mean := timeMean_nonneg hframes h.weight_pos hd
    have ha_nonneg : 0 ≤ inp.a_mean := timeMean_nonneg hframes h.weight_pos ha
    have hd_zero : inp.d_mean = 0 ↔ _ :=
      timeMean_eq_zero_iff (by norm_num [D_POW_S]) (by norm_num [D_POW_T]) hframes h.weight_pos hd
    have ha_zero : inp.a_mean = 0 ↔ _ :=
      timeMean_eq_zero_iff (by norm_num [A_POW_S]) (by norm_num [A_POW_T]) hframes h.weight_pos ha
    rw [pesq_mos_eq h hframes, Option.some.injEq]
    norm_num [D_WEIGHT, A_WEIGHT]
    constructor
    · intro hhighest
      have hd_eq : inp.d_mean = 0 := by linarith
      have ha_eq : inp.a_mean = 0 := by linarith
      exact ⟨hframes, fun frame hcounts =>
        ⟨hd_zero.mp hd_eq frame hcounts.1 hcounts.2, ha_zero.mp ha_eq frame hcounts.1 hcounts.2⟩⟩
    · rintro ⟨-, hnone⟩
      have hd_eq := hd_zero.mpr fun frame hs ht => (hnone frame ⟨hs, ht⟩).1
      have ha_eq := ha_zero.mpr fun frame hs ht => (hnone frame ⟨hs, ht⟩).2
      rw [hd_eq, ha_eq]
      norm_num
  · exact iff_of_false (fun hmos => hframes (start_le_stop_of_pesq_mos hmos))
      fun hall => hframes hall.1

end FinalInput

end TgVoipRate.Pesq
