import TgVoipRate.Pesq.BadIntervalsExact
import TgVoipRate.Pesq.ModelAccess

/-!
# The accesses of the acoustic model are in bounds

At 16 kHz, for signals that `pesq_measure` lets pass. All bounds come from one fact about the number
of frames: the last frame ends 4480 samples before the longer signal does
(`ModelInput.stop_frame_bounds`). A delay of any size only meets clamps and guards.
-/

namespace TgVoipRate.Pesq

open Accesses (InBounds Trace when forRange inBounds_nil inBounds_cons inBounds_append inBounds_when
  inBounds_forRange)

/-! ## The constants at 16 kHz -/

theorem Nf_16k : rate_16k.Nf = 512 := rfl

theorem half_Nf_16k : rate_16k.Nf.tdiv 2 = 256 := rfl

theorem buffer_16k : rate_16k.buffer = 4800 := rfl

theorem padding_16k : rate_16k.padding = 5120 := rfl

theorem Nb_16k : rate_16k.Nb = 49 := rfl

/-! ## Functions with array arguments -/

section Functions

variable {length : ModelArray → ℤ}

/-- A frame of a signal. -/
theorem short_term_fft_inBounds {Nf start_sample : ℤ} {data : ModelArray}
    (hstart : 0 ≤ start_sample) (hstop : start_sample + Nf ≤ length data) :
    InBounds length (short_term_fft Nf data start_sample) := by
  simp only [short_term_fft, inBounds_forRange, inBounds_cons, inBounds_nil, and_true]
  omega

/-- A range. -/
theorem range_inBounds {x : ModelArray} {start stop : ℤ} (hstart : 0 ≤ start)
    (hstop : stop ≤ length x) : InBounds length (forRange start stop fun i => [(x, i)]) := by
  simp only [inBounds_forRange, inBounds_cons, inBounds_nil, and_true]
  omega

/-- The row of a frame, or what is behind its first bands. -/
theorem row_inBounds {x : ModelArray} {first frame stop_frame : ℤ}
    (hlength : length x = (stop_frame + 1) * 49) (hfirst : 0 ≤ first) (hframe : 0 ≤ frame)
    (hlast : frame ≤ stop_frame) :
    InBounds length (forRange first 49 fun band => [(x, frame * 49 + band)]) := by
  simp only [inBounds_forRange, inBounds_cons, inBounds_nil, and_true, hlength]
  omega

/-- The scan over silent samples, if all positions that it may look at are inside. -/
theorem skipAccesses_inBounds {quiet : ℤ → Bool} {bound : ℤ} {index : ℤ → ℤ → ℤ}
    (hindex : ∀ s i, 0 ≤ s → s < bound → 0 ≤ i → i < 5 →
      0 ≤ index s i ∧ index s i < length .ref_data)
    {s : ℤ} (hpos : 0 ≤ s) (hs : s < bound) :
    InBounds length (skipAccesses quiet bound index s) := by
  rw [skipAccesses, inBounds_append]
  constructor
  · simp only [inBounds_forRange, inBounds_cons, inBounds_nil, and_true]
    exact fun i hi hi' => hindex s i hpos hs hi hi'
  · split
    next hnext => exact skipAccesses_inBounds hindex (by omega) hnext.2
    next => exact inBounds_nil
termination_by (bound - s).toNat

/-- The syllables from one on. -/
theorem lpqAccesses_inBounds {disturbance : ModelArray} {start_frame stop_frame s : ℤ}
    (hd : length disturbance = stop_frame + 1) (hw : length .time_weight = stop_frame + 1)
    (hstart : 0 ≤ start_frame) (hs : start_frame ≤ s) :
    InBounds length (lpqAccesses disturbance start_frame stop_frame s) := by
  rw [lpqAccesses]
  split
  next hle =>
    rw [inBounds_append, inBounds_append]
    refine ⟨⟨?_, ?_⟩, lpqAccesses_inBounds hd hw hstart (by omega)⟩
    · simp only [inBounds_forRange, inBounds_when, inBounds_cons, inBounds_nil, and_true, hd]
      omega
    · simp only [inBounds_cons, inBounds_nil, and_true, hw]
      omega
  next => exact inBounds_nil
termination_by (stop_frame + 1 - s).toNat

/-- Going on over frames reads no flag behind the last frame. -/
theorem skipReads_inBounds {stop_frame : ℤ}
    (hlength : length .smeared_frame_is_bad = stop_frame + 1)
    (bad : ℕ → Bool) (value : Bool) (frame : ℕ) :
    InBounds length (skipReads stop_frame bad value frame) := by
  rw [skipReads]
  split
  next hle =>
    rw [inBounds_cons, hlength]
    refine ⟨by omega, ?_⟩
    split
    · exact skipReads_inBounds hlength bad value (frame + 1)
    · exact inBounds_nil
  next => exact inBounds_nil
termination_by (stop_frame + 1 - frame).toNat

/-- Neither does the collection of intervals. -/
theorem collectReads_inBounds {stop_frame : ℤ}
    (hlength : length .smeared_frame_is_bad = stop_frame + 1) (bad : ℕ → Bool) (s : Collected) :
    InBounds length (collectReads stop_frame bad s) := by
  rw [collectReads]
  split
  next hle =>
    have hlt := lt_collectStep bad hle
    rw [inBounds_append, inBounds_append, inBounds_when]
    exact ⟨⟨skipReads_inBounds hlength bad false _, fun _ => skipReads_inBounds hlength bad true _⟩,
      collectReads_inBounds hlength bad (collectStep stop_frame bad s)⟩
  next => exact inBounds_nil
termination_by (stop_frame + 1 - s.frame).toNat

end Functions

/-! ## The frames -/

variable {𝕜 : Type*} [Field 𝕜] [LinearOrder 𝕜]

/-- An input at 16 kHz whose signals `pesq_measure` lets pass. -/
structure ModelInput.Admitted (inp : ModelInput 𝕜) : Prop where
  rate_eq : inp.rate = rate_16k
  admits : rate_16k.Admits inp.ref_Nsamples inp.deg_Nsamples

namespace ModelInput

variable {inp : ModelInput 𝕜}

omit [Field 𝕜] [LinearOrder 𝕜] in
/-- The longer signal. -/
theorem Admitted.le_maxNsamples (h : inp.Admitted) : 13600 ≤ inp.maxNsamples :=
  le_max_of_le_left h.admits.le.1

/-- There are at least nine frames, and the last one ends 4480 samples before the longer signal. -/
theorem Admitted.stop_frame_bounds (h : inp.Admitted) :
    8 ≤ inp.stop_frame ∧ (inp.stop_frame + 1) * 256 ≤ inp.maxNsamples - 4480 := by
  have hskip := (samples_to_skip_le h.le_maxNsamples inp.ref_data).2.1
  have hstop := le_stop_frame h.le_maxNsamples inp.ref_data
  have heq := stop_frame_16k h.le_maxNsamples inp.ref_data
  rw [← h.rate_eq] at hstop heq hskip
  change _ ≤ inp.stop_frame at hstop
  change inp.stop_frame = _ at heq
  omega

/-- The first frame that counts is not negative. -/
theorem Admitted.start_frame_nonneg (h : inp.Admitted) : 0 ≤ inp.start_frame := by
  rw [start_frame, h.rate_eq, start_frame_16k h.le_maxNsamples]
  exact Int.ediv_nonneg (samples_to_skip_le h.le_maxNsamples _).1.1 (by decide)

/-- The lengths of the arrays. -/
theorem Admitted.length_eq (h : inp.Admitted) (x : ModelArray) :
    inp.length x =
      match x with
      | .ref_data | .deg_data | .tweaked_deg | .doubly_tweaked_deg => inp.maxNsamples + 5120
      | .pitch_pow_dens_ref | .pitch_pow_dens_deg => (inp.stop_frame + 1) * 49
      | _ => inp.stop_frame + 1 := by
  cases x <;> simp only [length, h.rate_eq, padding_16k, Nb_16k]

/-! ## The loops -/

section Loops

variable (h : inp.Admitted)

include h

/-- The scans and the powers. -/
theorem Admitted.setUp_inBounds : InBounds inp.length inp.setUp := by
  have hlong := h.le_maxNsamples
  have hhalf : inp.maxNsamples.tdiv 2 = inp.maxNsamples / 2 :=
    Int.tdiv_eq_ediv_of_nonneg (by omega)
  rw [setUp, h.rate_eq, hhalf, buffer_16k, padding_16k, inBounds_append, inBounds_append,
    inBounds_append]
  -- Each scan looks at the positions of at most half of the longer signal.
  refine ⟨⟨⟨skipAccesses_inBounds ?_ le_rfl (by omega), skipAccesses_inBounds ?_ le_rfl (by omega)⟩,
    range_inBounds (by omega) ?_⟩, range_inBounds (by omega) ?_⟩
  · intro s i hs hs' hi hi'
    have hbuffer : startIndex rate_16k s i = 4800 + s + i := rfl
    rw [hbuffer, h.length_eq]
    dsimp only
    omega
  · intro s i hs hs' hi hi'
    have hbuffer : endIndex rate_16k inp.maxNsamples s i =
        inp.maxNsamples - 4800 + 5120 - 1 - s - i := rfl
    rw [hbuffer, h.length_eq]
    dsimp only
    omega
  · rw [h.length_eq]
    dsimp only
    omega
  · rw [h.length_eq]
    dsimp only
    omega

omit [Field 𝕜] [LinearOrder 𝕜] in
/-- The sample where a frame starts. -/
theorem Admitted.start_sample_ref_eq {frame : ℤ} (hframe : 0 ≤ frame) :
    inp.start_sample_ref frame = 4800 + frame * 256 := by
  rw [start_sample_ref, h.rate_eq, buffer_16k, Nf_16k, Int.tdiv_eq_ediv_of_nonneg (by omega)]
  omega

/-- The spectra. -/
theorem Admitted.spectra_inBounds : InBounds inp.length inp.spectra := by
  obtain ⟨hmany, hend⟩ := h.stop_frame_bounds
  rw [spectra, inBounds_forRange]
  intro frame hframe hlast
  rw [h.start_sample_ref_eq hframe]
  simp only [inBounds_append, inBounds_when, freq_warping, total_audible, maximum_of, h.rate_eq,
    Nb_16k, Nf_16k, padding_16k]
  refine ⟨⟨⟨⟨⟨⟨⟨?_, ?_⟩, ?_⟩, ?_⟩, ?_⟩, ?_⟩, ?_⟩, ?_⟩
  · exact short_term_fft_inBounds (by omega) (by rw [h.length_eq]; dsimp only; omega)
  · -- The guard is what the bounds need, whatever the delay is.
    rintro ⟨hstart, hstop⟩
    exact short_term_fft_inBounds (by omega) (by rw [h.length_eq]; dsimp only; omega)
  · exact row_inBounds (h.length_eq _) le_rfl hframe (by omega)
  · exact range_inBounds le_rfl (by rw [h.length_eq]; dsimp only; omega)
  · exact row_inBounds (h.length_eq _) le_rfl hframe (by omega)
  · exact row_inBounds (h.length_eq _) (by decide) hframe (by omega)
  · exact row_inBounds (h.length_eq _) (by decide) hframe (by omega)
  · simp only [inBounds_cons, inBounds_nil, and_true, h.length_eq]
    omega

/-- The averages over all frames. -/
theorem Admitted.compensation_inBounds : InBounds inp.length inp.compensation := by
  simp only [compensation, time_avg_audible_of, freq_resp_compensation, inBounds_append,
    inBounds_forRange, inBounds_when, inBounds_cons, inBounds_nil, and_true, h.length_eq, h.rate_eq,
    Nb_16k]
  refine ⟨⟨?_, ?_⟩, ?_⟩
  · intro band hband hband' frame hframe hlast
    exact ⟨by omega, fun _ => by omega⟩
  · intro band hband hband' frame hframe hlast
    exact ⟨by omega, fun _ => by omega⟩
  · omega

/-- The disturbance of a frame. -/
theorem Admitted.disturbance_inBounds {frame : ℤ} (hframe : 0 ≤ frame)
    (hlast : frame ≤ inp.stop_frame) : InBounds inp.length (inp.disturbance frame) := by
  simp only [disturbance, total_audible, intensity_warping_of, multiply_with_asymmetry_factor,
    inBounds_append, h.rate_eq, Nb_16k]
  refine ⟨⟨⟨⟨⟨⟨⟨?_, ?_⟩, ?_⟩, ?_⟩, ?_⟩, ?_⟩, ?_⟩, ?_⟩
  · exact row_inBounds (h.length_eq _) (by decide) hframe hlast
  · exact row_inBounds (h.length_eq _) (by decide) hframe hlast
  · exact row_inBounds (h.length_eq _) le_rfl hframe hlast
  · exact row_inBounds (h.length_eq _) le_rfl hframe hlast
  · exact row_inBounds (h.length_eq _) le_rfl hframe hlast
  · simp only [inBounds_cons, inBounds_nil, and_true, h.length_eq]
    omega
  · simp only [inBounds_forRange, inBounds_cons, inBounds_nil, and_true, h.length_eq]
    omega
  · simp only [inBounds_cons, inBounds_nil, and_true, h.length_eq]
    omega

/-- The disturbances of all frames. -/
theorem Admitted.disturbances_inBounds : InBounds inp.length inp.disturbances := by
  simp only [disturbances, inBounds_append, inBounds_forRange, inBounds_cons, inBounds_nil,
    and_true, h.length_eq]
  refine ⟨fun frame hframe hlast => ⟨by omega, ?_⟩, by omega⟩
  exact h.disturbance_inBounds hframe (by omega)

/-- The frames that are skipped: the first one is not negative, and each of them is looked at. -/
theorem Admitted.skippedFrames_inBounds : InBounds inp.length inp.skippedFrames := by
  have hfirst (utt : ℤ) : 0 ≤ inp.frame1 utt := by
    unfold frame1
    dsimp only
    split_ifs <;> omega
  simp only [skippedFrames, inBounds_forRange, inBounds_when, inBounds_cons, inBounds_nil,
    and_true, h.length_eq]
  intro utt _ _ _ frame hframe _ hlast
  have hpos := hfirst utt
  omega

/-- The shifted signal. -/
theorem Admitted.tweaked_inBounds : InBounds inp.length inp.tweaked := by
  have hlong := h.le_maxNsamples
  simp only [tweaked, inBounds_append, inBounds_forRange, inBounds_cons, inBounds_nil, and_true,
    h.length_eq, h.rate_eq, buffer_16k, padding_16k]
  refine ⟨by omega, fun i hi hi' => ⟨?_, by omega⟩⟩
  -- The signal without its buffers is not empty, so that the two clamps agree.
  simp only [clampToSignal, h.rate_eq, buffer_16k]
  split_ifs <;> omega

/-! ## The bad intervals -/

/-- The flags and the runs of bad frames. -/
theorem Admitted.smearing_inBounds : InBounds inp.length inp.smearing := by
  obtain ⟨hmany, -⟩ := h.stop_frame_bounds
  have hrange : (SMEAR_RANGE : ℤ) = 2 := rfl
  rw [smearing, inBounds_append]
  refine ⟨?_, collectReads_inBounds (h.length_eq _) _ _⟩
  simp only [inBounds_append, inBounds_forRange, inBounds_cons, inBounds_nil, and_true,
    h.length_eq, hrange]
  refine ⟨⟨fun frame hframe hlast => by omega, by omega⟩, fun frame hframe hlast => ?_⟩
  exact ⟨⟨⟨by omega, fun i hi hi' => by omega⟩, fun i hi hi' => by omega⟩, by omega⟩

omit h in
/-- A bad interval has its frames among the others, and at least two behind it. -/
theorem interval_bounds {bad_interval : ℕ}
    (hi : bad_interval < inp.intervals.number_of_bad_intervals) :
    0 ≤ inp.intervals.start_frame_of_bad_interval bad_interval ∧
      inp.intervals.stop_frame_of_bad_interval bad_interval ≤ inp.stop_frame - 2 := by
  have hexact := exactIntervals_marked inp.stop_frame inp.frame_is_bad
  have hmem : (inp.intervals.start_frame_of_bad_interval bad_interval,
      inp.intervals.stop_frame_of_bad_interval bad_interval) ∈ inp.intervals.intervals :=
    List.mem_map.mpr ⟨bad_interval, List.mem_range.mpr hi, rfl⟩
  obtain ⟨rs, -, hruns⟩ := hexact.exact
  refine ⟨?_, hexact.stop_le _ hmem⟩
  rw [intervals, hruns] at hmem
  obtain ⟨r, -, hr⟩ := List.mem_map.mp hmem
  calc (0 : ℤ) ≤ r.start := Int.natCast_nonneg _
    _ = inp.intervals.start_frame_of_bad_interval bad_interval := congrArg Prod.fst hr

/-- So the samples of a bad interval end 64 samples behind the longer signal at the latest. -/
theorem Admitted.interval_samples {bad_interval : ℕ}
    (hi : bad_interval < inp.intervals.number_of_bad_intervals) :
    4800 ≤ inp.start_sample_of_bad_interval bad_interval ∧
      inp.stop_sample_of_bad_interval bad_interval ≤ inp.maxNsamples + 64 := by
  obtain ⟨hstart, hstop⟩ := interval_bounds hi
  obtain ⟨-, hend⟩ := h.stop_frame_bounds
  have hrun : (collect inp.stop_frame (smear inp.stop_frame inp.frame_is_bad)).run Collected.init =
      inp.intervals := (badIntervals_eq_run _ _).symm
  rw [start_sample_of_bad_interval, stop_sample_of_bad_interval, hrun, h.rate_eq, half_Nf_16k,
    Nf_16k, buffer_16k]
  omega

omit h in
/-- A loop over the bad intervals. -/
theorem forIntervals_inBounds {length : ModelArray → ℤ} {body : ℕ → Trace ModelArray}
    (hbody : ∀ i < inp.intervals.number_of_bad_intervals, InBounds length (body i)) :
    InBounds length (inp.forIntervals body) := by
  intro access haccess
  obtain ⟨i, hi, hmem⟩ := List.mem_flatMap.mp haccess
  exact hbody i (List.mem_range.mp hi) access hmem

/-- The copies. -/
theorem Admitted.copies_inBounds {bad_interval : ℕ}
    (hi : bad_interval < inp.intervals.number_of_bad_intervals) :
    InBounds inp.length (inp.copies bad_interval) := by
  obtain ⟨hstart, hstop⟩ := h.interval_samples hi
  have hlong := h.le_maxNsamples
  simp only [copies, inBounds_append, inBounds_forRange, inBounds_cons, inBounds_nil, and_true,
    h.length_eq, h.rate_eq, buffer_16k, padding_16k, Nf_16k]
  refine ⟨fun i hi hi' => by omega, fun i hi hi' => ?_⟩
  split_ifs <;> omega

/-- The shift, whatever the delay is. -/
theorem Admitted.shift_inBounds {bad_interval : ℕ}
    (hi : bad_interval < inp.intervals.number_of_bad_intervals) :
    InBounds inp.length (inp.shift bad_interval) := by
  obtain ⟨hstart, hstop⟩ := h.interval_samples hi
  have hlong := h.le_maxNsamples
  simp only [shift, inBounds_forRange, inBounds_cons, inBounds_nil, and_true, h.length_eq]
  -- The entry that is written may be behind the signal, but not behind its padding.
  refine fun i hi hi' => ⟨?_, by omega⟩
  split_ifs <;> omega

/-- The frames of a bad interval. -/
theorem Admitted.again_inBounds {bad_interval : ℕ}
    (hi : bad_interval < inp.intervals.number_of_bad_intervals) :
    InBounds inp.length (inp.again bad_interval) := by
  obtain ⟨hstart, hstop⟩ := interval_bounds hi
  obtain ⟨-, hend⟩ := h.stop_frame_bounds
  simp only [again, inBounds_append, inBounds_forRange, freq_warping, h.rate_eq, Nf_16k, Nb_16k]
  constructor
  · -- The copy has the length of the padded signal, and the frames are some of all frames.
    intro frame hframe hlast
    rw [h.start_sample_ref_eq (by omega)]
    refine ⟨short_term_fft_inBounds (by omega) ?_, ?_⟩
    · rw [h.length_eq]
      dsimp only
      omega
    · rw [← inBounds_forRange]
      exact row_inBounds (h.length_eq _) le_rfl (by omega) (by omega)
  · intro frame hframe hlast
    exact h.disturbance_inBounds (by omega) (by omega)

/-- The realignment of the bad intervals. -/
theorem Admitted.realignment_inBounds : InBounds inp.length inp.realignment := by
  simp only [realignment, inBounds_append, inBounds_when]
  refine ⟨⟨h.smearing_inBounds, forIntervals_inBounds fun i hi => h.copies_inBounds hi⟩,
    fun _ => ⟨⟨?_, ?_⟩, ?_⟩⟩
  · simp only [inBounds_forRange, inBounds_cons, inBounds_nil, and_true, h.length_eq, h.rate_eq,
      padding_16k]
    omega
  · exact forIntervals_inBounds fun i hi => h.shift_inBounds hi
  · exact forIntervals_inBounds fun i hi => h.again_inBounds hi

/-! ## The whole model -/

/-- The weights and the averages. -/
theorem Admitted.averages_inBounds : InBounds inp.length inp.averages := by
  have hstart := h.start_frame_nonneg
  simp only [averages, inBounds_append]
  refine ⟨⟨⟨?_, ?_⟩, ?_⟩, ?_⟩
  · exact range_inBounds le_rfl (h.length_eq .time_weight).ge
  · simp only [inBounds_forRange, inBounds_cons, inBounds_nil, and_true, h.length_eq]
    omega
  · exact lpqAccesses_inBounds (h.length_eq _) (h.length_eq _) hstart le_rfl
  · exact lpqAccesses_inBounds (h.length_eq _) (h.length_eq _) hstart le_rfl

/-- All accesses. -/
theorem Admitted.inBounds : InBounds inp.length inp.accesses := by
  simp only [ModelInput.accesses, inBounds_append, inBounds_when]
  exact ⟨⟨⟨⟨⟨⟨⟨h.setUp_inBounds, h.spectra_inBounds⟩, h.compensation_inBounds⟩,
    h.disturbances_inBounds⟩, h.skippedFrames_inBounds⟩, h.tweaked_inBounds⟩,
    fun _ => h.realignment_inBounds⟩, h.averages_inBounds⟩

end Loops

/-- No array has more entries than a padded signal. -/
theorem Admitted.length_le (h : inp.Admitted) (array : ModelArray) :
    inp.length array ≤ inp.maxNsamples + inp.rate.padding := by
  obtain ⟨hmany, hend⟩ := h.stop_frame_bounds
  rw [h.length_eq, h.rate_eq, padding_16k]
  cases array <;> dsimp only <;> omega

end ModelInput

/-- There is a frame, and every access of the model is inside its array. If the padded signals have
less than `2^30` samples, the indices fit an `int`, and so do the products that they are made of. -/
theorem accesses_inBounds (inp : ModelInput 𝕜) (hrate : inp.rate = rate_16k)
    (hadmits : rate_16k.Admits inp.ref_Nsamples inp.deg_Nsamples) :
    (0 ≤ inp.stop_frame ∧ InBounds inp.length inp.accesses) ∧
      (inp.maxNsamples + inp.rate.padding < 2^30 →
        (inp.stop_frame + 1) * inp.rate.Nf < 2^31 ∧ ∀ access ∈ inp.accesses, access.2 < 2^31) := by
  have h : inp.Admitted := ⟨hrate, hadmits⟩
  obtain ⟨hmany, hend⟩ := h.stop_frame_bounds
  refine ⟨⟨by omega, h.inBounds⟩, fun hshort => ⟨?_, fun access haccess => ?_⟩⟩
  · rw [h.rate_eq, padding_16k] at hshort
    rw [h.rate_eq, Nf_16k]
    omega
  · have hin := (h.inBounds access haccess).2
    have hlength := h.length_le access.1
    omega

/-- Signals of different lengths, with one utterance whose delay is longer than both. -/
def delayedInput : ModelInput ℚ :=
  { rate := rate_16k
    ref_Nsamples := 13600
    deg_Nsamples := 20000
    ref_data := fun _ => 1000
    err_info := { ErrorInfo.zero with Nutterances := 1, Utt_Delay := fun _ => -1000000 }
    toInt := id
    silent := fun _ => false
    there_is_a_bad_frame := true
    frame_is_bad := fun _ => true
    delay_in_samples_in_bad_interval := fun _ => 1000000 }

/-- Their accesses are inside the arrays, and their indices fit an `int`. -/
theorem accesses_inBounds_delayed :
    (0 ≤ delayedInput.stop_frame ∧ InBounds delayedInput.length delayedInput.accesses) ∧
      ∀ access ∈ delayedInput.accesses, access.2 < 2^31 := by
  have hadmits : rate_16k.Admits delayedInput.ref_Nsamples delayedInput.deg_Nsamples := by
    simp only [Rate.Admits, rate_16k, SEARCHBUFFER, delayedInput]
    omega
  obtain ⟨hin, hfits⟩ := accesses_inBounds delayedInput rfl hadmits
  exact ⟨hin, (hfits (by decide)).2⟩

end TgVoipRate.Pesq
