import Mathlib
import TgVoipRate.Pesq.Acoustic
import TgVoipRate.Pesq.AverageSpec
import TgVoipRate.Pesq.BadIntervalsExact
import TgVoipRate.Pesq.LoudnessSpec

/-!
# What the score says

The score of `pesq_psychoacoustic_model` at 16 kHz, for any two signals and any tables of
utterances. A comparison of frames is one run of `compareFrame` (`foldl_compareFrame`), and what is
known of the disturbances after the first comparison is kept by the realignment (`Settled`).

The score is in a fixed range, and it is the highest one exactly if in every frame that counts the
two signals sound equal, at first or after the realignment, or the frame is skipped. Realignment
does not lower it.
-/

namespace TgVoipRate.Pesq.Acoustic

/-! ## A run of comparisons -/

section Run

variable {𝕜 : Type*} [Field 𝕜] [LinearOrder 𝕜] (num : Numerics 𝕜) (b : Bands 𝕜)
  (store : 𝕜 → 𝕜 → 𝕜) (ref : ℤ → ℕ → 𝕜)

/-- The powers of a frame, scaled. -/
def scaledPower (scale : 𝕜) (pitch_pow_dens_deg : ℕ → 𝕜) (band : ℕ) : 𝕜 :=
  pitch_pow_dens_deg band * clamp (MIN_SCALE : 𝕜) MAX_SCALE scale

/-- A frame was compared with some scale. -/
structure ComparedAt (s s' : FrameState 𝕜) (frame : ℤ) (scale : 𝕜) : Prop where
  power : s'.pitch_pow_dens_deg frame = scaledPower scale (s.pitch_pow_dens_deg frame)
  stored : s'.frame_disturbance frame = store (s.frame_disturbance frame)
    (disturbance num b (ref frame) (s'.pitch_pow_dens_deg frame)).frame_disturbance
  stored_asym_add : s'.frame_disturbance_asym_add frame =
    store (s.frame_disturbance_asym_add frame)
      (disturbance num b (ref frame) (s'.pitch_pow_dens_deg frame)).frame_disturbance_asym_add

/-- A frame was not touched. -/
structure SameAt (s s' : FrameState 𝕜) (frame : ℤ) : Prop where
  power : s'.pitch_pow_dens_deg frame = s.pitch_pow_dens_deg frame
  kept : s'.frame_disturbance frame = s.frame_disturbance frame
  kept_asym_add : s'.frame_disturbance_asym_add frame = s.frame_disturbance_asym_add frame

variable {num b store ref} {s s' s'' : FrameState 𝕜} {frame : ℤ} {scale : 𝕜}

omit [Field 𝕜] [LinearOrder 𝕜] in
/-- What is not touched in either of two parts of a run. -/
theorem SameAt.trans (h : SameAt s s' frame) (h' : SameAt s' s'' frame) : SameAt s s'' frame :=
  ⟨h'.power.trans h.power, h'.kept.trans h.kept, h'.kept_asym_add.trans h.kept_asym_add⟩

/-- A frame that was not touched before. -/
theorem ComparedAt.of_same (h : SameAt s s' frame)
    (h' : ComparedAt num b store ref s' s'' frame scale) :
    ComparedAt num b store ref s s'' frame scale :=
  ⟨h.power ▸ h'.power, h.kept ▸ h'.stored, h.kept_asym_add ▸ h'.stored_asym_add⟩

/-- A frame that is not touched behind its comparison. -/
theorem ComparedAt.same (h : ComparedAt num b store ref s s' frame scale)
    (h' : SameAt s' s'' frame) : ComparedAt num b store ref s s'' frame scale :=
  ⟨h'.power.trans h.power, by rw [h'.kept, h'.power, h.stored],
    by rw [h'.kept_asym_add, h'.power, h.stored_asym_add]⟩

variable (num b store ref) in
/-- The body compares its frame. -/
theorem compareFrame_at (s : FrameState 𝕜) (frame : ℤ) :
    ComparedAt num b store ref s (compareFrame num b store ref s frame) frame
      (nextScale s.oldScale frame (levelRatio b (ref frame) (s.pitch_pow_dens_deg frame))) := by
  have hpower : (compareFrame num b store ref s frame).pitch_pow_dens_deg frame =
      scaledPower (nextScale s.oldScale frame
        (levelRatio b (ref frame) (s.pitch_pow_dens_deg frame))) (s.pitch_pow_dens_deg frame) :=
    Function.update_self _ _ _
  refine ⟨hpower, ?_, ?_⟩
  · rw [hpower]
    exact Function.update_self _ _ _
  · rw [hpower]
    exact Function.update_self _ _ _

/-- The body touches no other frame. -/
theorem compareFrame_of_ne (s : FrameState 𝕜) {frame other : ℤ} (h : other ≠ frame) :
    SameAt s (compareFrame num b store ref s frame) other :=
  ⟨Function.update_of_ne h _ _, Function.update_of_ne h _ _, Function.update_of_ne h _ _⟩

variable (num b store ref) in
/-- A run compares each of its frames once, and touches no other one. A property of the scales that
every step keeps holds of all of them. -/
theorem foldl_compareFrame {Q : 𝕜 → Prop} : ∀ (frames : List ℤ) (s : FrameState 𝕜),
    frames.Nodup → Q s.oldScale →
    (∀ frame ∈ frames, ∀ scale, Q scale →
      Q (nextScale scale frame (levelRatio b (ref frame) (s.pitch_pow_dens_deg frame)))) →
    (∀ frame, frame ∉ frames →
      SameAt s (frames.foldl (compareFrame num b store ref) s) frame) ∧
    ∀ frame ∈ frames, ∃ scale, Q scale ∧
      ComparedAt num b store ref s (frames.foldl (compareFrame num b store ref) s) frame scale := by
  intro frames
  induction frames with
  | nil => exact fun s _ _ _ => ⟨fun _ _ => ⟨rfl, rfl, rfl⟩, fun _ h => absurd h List.not_mem_nil⟩
  | cons first frames ih =>
    intro s hnodup hQ hstep
    obtain ⟨hfirst, hnodup⟩ := List.nodup_cons.mp hnodup
    have hother : ∀ frame ∈ frames, SameAt s (compareFrame num b store ref s first) frame :=
      fun frame hframe => compareFrame_of_ne s fun heq => hfirst (heq ▸ hframe)
    have hscale := hstep first List.mem_cons_self _ hQ
    -- The frames behind the first one are as they were when the run comes to them.
    obtain ⟨hsame, hcompared⟩ := ih (compareFrame num b store ref s first) hnodup hscale
      fun frame hframe scale hscale => by
        rw [(hother frame hframe).power]
        exact hstep frame (List.mem_cons_of_mem _ hframe) scale hscale
    refine ⟨fun frame hframe => ?_, fun frame hframe => ?_⟩
    · obtain ⟨hne, hnot⟩ := List.ne_and_not_mem_of_not_mem_cons hframe
      exact (compareFrame_of_ne s hne).trans (hsame frame hnot)
    · rcases List.mem_cons.mp hframe with rfl | hmem
      · exact ⟨_, hscale, (compareFrame_at num b store ref s frame).same (hsame frame hfirst)⟩
      · obtain ⟨scale, hQscale, hat⟩ := hcompared frame hmem
        exact ⟨scale, hQscale, hat.of_same (hother frame hmem)⟩

end Run

/-- The frames in a row. -/
theorem mem_framesFrom {start stop frame : ℤ} :
    frame ∈ framesFrom start stop ↔ start ≤ frame ∧ frame < stop := by
  unfold framesFrom
  rw [List.mem_map]
  constructor
  · rintro ⟨k, hk, rfl⟩
    have hlt := List.mem_range.mp hk
    omega
  · rintro ⟨hstart, hstop⟩
    exact ⟨(frame - start).toNat, List.mem_range.mpr (by omega), by omega⟩

/-- Each of them once. -/
theorem nodup_framesFrom (start stop : ℤ) : (framesFrom start stop).Nodup := by
  refine (List.nodup_map_iff_inj_on List.nodup_range).mpr fun i _ j _ h => ?_
  omega

/-! ## Realignment -/

/-- Keeping the smaller one is the minimum. -/
theorem keepSmaller_eq (old new : ℝ) : keepSmaller old new = min old new := by
  unfold keepSmaller
  exact (min_def_lt old new).symm

namespace AcousticInput

variable {num : Numerics ℝ} (inp : AcousticInput ℝ) {s s' s'' : FrameState ℝ} {frame : ℤ}

/-- A frame was compared again, and has kept the smaller disturbances. -/
structure RecomparedAt (num : Numerics ℝ) (s s' : FrameState ℝ) (frame : ℤ) : Prop where
  kept : s'.frame_disturbance frame = min (s.frame_disturbance frame)
    (disturbance num inp.bands (inp.pitch_pow_dens_ref num frame)
      (s'.pitch_pow_dens_deg frame)).frame_disturbance
  kept_asym_add : s'.frame_disturbance_asym_add frame = min (s.frame_disturbance_asym_add frame)
    (disturbance num inp.bands (inp.pitch_pow_dens_ref num frame)
      (s'.pitch_pow_dens_deg frame)).frame_disturbance_asym_add

variable {inp}

/-- A frame that was not touched before. -/
theorem RecomparedAt.of_same (h : SameAt s s' frame) (h' : inp.RecomparedAt num s' s'' frame) :
    inp.RecomparedAt num s s'' frame :=
  ⟨h.kept ▸ h'.kept, h.kept_asym_add ▸ h'.kept_asym_add⟩

/-- A frame that is not touched later. -/
theorem RecomparedAt.same (h : inp.RecomparedAt num s s' frame) (h' : SameAt s' s'' frame) :
    inp.RecomparedAt num s s'' frame :=
  ⟨by rw [h'.kept, h'.power, h.kept], by rw [h'.kept_asym_add, h'.power, h.kept_asym_add]⟩

variable (inp)

/-- A frame of a bad interval. -/
def InInterval (s₀ : FrameState ℝ) (bad_interval : ℕ) (frame : ℤ) : Prop :=
  (inp.badControl s₀).intervals.start_frame_of_bad_interval bad_interval ≤ frame ∧
    frame < (inp.badControl s₀).intervals.stop_frame_of_bad_interval bad_interval

/-- Realigning an interval compares its frames again, and touches no other frame. -/
theorem realignInterval_at (num : Numerics ℝ) (s₀ s : FrameState ℝ) (bad_interval : ℕ)
    (frame : ℤ) :
    (inp.InInterval s₀ bad_interval frame →
      inp.RecomparedAt num s (inp.realignInterval num s₀ s bad_interval) frame) ∧
    (¬inp.InInterval s₀ bad_interval frame →
      SameAt s (inp.realignInterval num s₀ s bad_interval) frame) := by
  unfold realignInterval InInterval
  dsimp only
  generalize (inp.badControl s₀).intervals.start_frame_of_bad_interval bad_interval = start
  generalize (inp.badControl s₀).intervals.stop_frame_of_bad_interval bad_interval = stop
  generalize hs : (FrameState.mk 1 _ s.frame_disturbance s.frame_disturbance_asym_add) = sNew
  obtain ⟨hsame, hcompared⟩ := foldl_compareFrame num inp.bands keepSmaller
    (inp.pitch_pow_dens_ref num) (Q := fun _ => True) (framesFrom start stop) sNew
    (nodup_framesFrom start stop) trivial fun _ _ _ _ => trivial
  constructor
  · intro hframe
    obtain ⟨scale, -, hat⟩ := hcompared frame (mem_framesFrom.mpr hframe)
    refine ⟨?_, ?_⟩
    · rw [hat.stored, keepSmaller_eq, ← hs]
    · rw [hat.stored_asym_add, keepSmaller_eq, ← hs]
  · intro hframe
    have hout := hsame frame fun hmem => hframe (mem_framesFrom.mp hmem)
    refine ⟨?_, ?_, ?_⟩
    · rw [hout.power, ← hs]
      exact if_neg hframe
    · rw [hout.kept, ← hs]
    · rw [hout.kept_asym_add, ← hs]

/-- Realigning intervals that do not meet compares each of their frames again once. -/
theorem foldl_realignInterval (num : Numerics ℝ) (s₀ : FrameState ℝ) (frame : ℤ) :
    ∀ (intervals : List ℕ) (s : FrameState ℝ),
    intervals.Pairwise (fun k l => ¬(inp.InInterval s₀ k frame ∧ inp.InInterval s₀ l frame)) →
    ((∃ k ∈ intervals, inp.InInterval s₀ k frame) →
      inp.RecomparedAt num s (intervals.foldl (inp.realignInterval num s₀) s) frame) ∧
    ((∀ k ∈ intervals, ¬inp.InInterval s₀ k frame) →
      SameAt s (intervals.foldl (inp.realignInterval num s₀) s) frame) := by
  intro intervals
  induction intervals with
  | nil =>
    intro s _
    refine ⟨?_, fun _ => ⟨rfl, rfl, rfl⟩⟩
    rintro ⟨k, hk, -⟩
    exact absurd hk List.not_mem_nil
  | cons first intervals ih =>
    intro s hpairwise
    obtain ⟨hfirst, hpairwise⟩ := List.pairwise_cons.mp hpairwise
    obtain ⟨hin, hout⟩ := inp.realignInterval_at num s₀ s first frame
    obtain ⟨hlater_in, hlater_out⟩ := ih (inp.realignInterval num s₀ s first) hpairwise
    refine ⟨?_, fun hnone => ?_⟩
    · rintro ⟨k, hk, hframe⟩
      by_cases hnow : inp.InInterval s₀ first frame
      · exact (hin hnow).same (hlater_out fun l hl hl_in => hfirst l hl ⟨hnow, hl_in⟩)
      · rcases List.mem_cons.mp hk with rfl | hmem
        · exact absurd hframe hnow
        · exact (hlater_in ⟨k, hmem, hframe⟩).of_same (hout hnow)
    · obtain ⟨hnot_first, hnot_later⟩ := List.forall_mem_cons.mp hnone
      exact (hout hnot_first).trans (hlater_out hnot_later)

/-- The bad intervals do not meet. -/
theorem pairwise_bad_intervals (s₀ : FrameState ℝ) (frame : ℤ) :
    (inp.bad_intervals s₀).Pairwise fun k l =>
      ¬(inp.InInterval s₀ k frame ∧ inp.InInterval s₀ l frame) := by
  have hordered := (exactIntervals_marked inp.stop_frame
    fun frame => decide (s₀.frame_disturbance frame > THRESHOLD_BAD_FRAMES)).ordered
  rw [Collected.intervals, List.pairwise_map] at hordered
  refine hordered.imp fun {k l} hlt => ?_
  rintro ⟨⟨-, hstop⟩, hstart, -⟩
  exact absurd (hstart.trans_lt hstop) (not_lt.mpr hlt.le)

/-- Realignment compares the frames of the bad intervals again, and touches no other frame. -/
theorem realign_at (num : Numerics ℝ) (s : FrameState ℝ) (frame : ℤ) :
    ((∃ k ∈ inp.bad_intervals s, inp.InInterval s k frame) →
      inp.RecomparedAt num s (inp.realign num s) frame) ∧
    ((∀ k ∈ inp.bad_intervals s, ¬inp.InInterval s k frame) →
      SameAt s (inp.realign num s) frame) :=
  inp.foldl_realignInterval num s frame _ s (inp.pairwise_bad_intervals s frame)

/-! ## The disturbances of the frames -/

/-- What is known of the disturbances of a frame. -/
structure Settled (s : FrameState ℝ) (frame : ℤ) : Prop where
  nonneg : 0 ≤ s.frame_disturbance frame
  nonneg_asym_add : 0 ≤ s.frame_disturbance_asym_add frame
  /-- Without a disturbance there is no asymmetric one. -/
  zero_asym_add : s.frame_disturbance frame = 0 → s.frame_disturbance_asym_add frame = 0

section Frames

variable (hnum : Exact num) (unset unset_asym_add : ℤ → ℝ)

/-- After the first comparison, the disturbances of a frame are those of its powers. -/
theorem compared_at (num : Numerics ℝ) (hframe : 0 ≤ frame ∧ frame ≤ inp.stop_frame) :
    (inp.compared num unset unset_asym_add).frame_disturbance frame =
      (disturbance num inp.bands (inp.pitch_pow_dens_ref num frame)
        ((inp.compared num unset unset_asym_add).pitch_pow_dens_deg frame)).frame_disturbance ∧
    (inp.compared num unset unset_asym_add).frame_disturbance_asym_add frame =
      (disturbance num inp.bands (inp.pitch_pow_dens_ref num frame)
        ((inp.compared num unset unset_asym_add).pitch_pow_dens_deg
          frame)).frame_disturbance_asym_add := by
  have hmem : frame ∈ framesFrom 0 (inp.stop_frame + 1) :=
    mem_framesFrom.mpr ⟨hframe.1, Int.lt_add_one_of_le hframe.2⟩
  obtain ⟨scale, -, hat⟩ := (foldl_compareFrame num inp.bands replace
    (inp.pitch_pow_dens_ref num) (Q := fun _ => True) _ _ (nodup_framesFrom _ _) trivial
    fun _ _ _ _ => trivial).2 frame hmem
  exact ⟨hat.stored, hat.stored_asym_add⟩

include hnum in
/-- The first comparison settles the frames. -/
theorem settled_compared (hframe : 0 ≤ frame ∧ frame ≤ inp.stop_frame) :
    Settled (inp.compared num unset unset_asym_add) frame := by
  obtain ⟨hfd, hasym⟩ := inp.compared_at unset unset_asym_add num hframe
  obtain ⟨hnonneg, hnonneg'⟩ := disturbance_nonneg hnum inp.bands
    (inp.pitch_pow_dens_ref num frame)
    ((inp.compared num unset unset_asym_add).pitch_pow_dens_deg frame)
  refine ⟨hfd ▸ hnonneg, hasym ▸ hnonneg', fun hzero => ?_⟩
  rw [hfd, frame_disturbance_eq_zero_iff hnum] at hzero
  rw [hasym]
  exact asym_add_eq_zero_of_soundsEqual hnum _ _ _ hzero

/-- Skipping keeps the frames settled. -/
theorem settled_skipFrames (h : Settled s frame) : Settled (inp.skipFrames s) frame := by
  unfold skipFrames
  refine ⟨?_, ?_, ?_⟩ <;> dsimp only <;> split
  · exact le_rfl
  · exact h.nonneg
  · exact le_rfl
  · exact h.nonneg_asym_add
  · exact fun _ => rfl
  · exact h.zero_asym_add

include hnum in
/-- A comparison that keeps the smaller disturbances keeps the frames settled. -/
theorem RecomparedAt.settled {inp : AcousticInput ℝ} (h : inp.RecomparedAt num s s' frame)
    (hs : Settled s frame) : Settled s' frame := by
  obtain ⟨hnonneg, hnonneg'⟩ := disturbance_nonneg hnum inp.bands
    (inp.pitch_pow_dens_ref num frame) (s'.pitch_pow_dens_deg frame)
  refine ⟨h.kept ▸ le_min hs.nonneg hnonneg, h.kept_asym_add ▸ le_min hs.nonneg_asym_add hnonneg',
    fun hzero => ?_⟩
  rw [h.kept] at hzero
  rw [h.kept_asym_add]
  -- The one of the two that is zero has no asymmetric part.
  rcases min_choice (s.frame_disturbance frame) (disturbance num inp.bands
    (inp.pitch_pow_dens_ref num frame) (s'.pitch_pow_dens_deg frame)).frame_disturbance with
    hold | hnew
  · rw [hs.zero_asym_add (hold ▸ hzero)]
    exact min_eq_left hnonneg'
  · have hequal := (frame_disturbance_eq_zero_iff hnum _ _ _).mp (hnew ▸ hzero)
    rw [asym_add_eq_zero_of_soundsEqual hnum _ _ _ hequal]
    exact min_eq_right hs.nonneg_asym_add

/-- A frame after the realignment is as before, or was compared again. -/
theorem same_or_recompared (num : Numerics ℝ) (s : FrameState ℝ) (frame : ℤ) :
    SameAt s (inp.realign num s) frame ∨ inp.RecomparedAt num s (inp.realign num s) frame := by
  obtain ⟨hin, hout⟩ := inp.realign_at num s frame
  by_cases hinterval : ∃ k ∈ inp.bad_intervals s, inp.InInterval s k frame
  · exact Or.inr (hin hinterval)
  · exact Or.inl (hout fun k hk hframe => hinterval ⟨k, hk, hframe⟩)

/-- In the end a frame is as it was before the realignment, or was compared again. -/
theorem disturbances_at (num : Numerics ℝ) (frame : ℤ) :
    SameAt (inp.skipFrames (inp.compared num unset unset_asym_add))
        (inp.disturbances num unset unset_asym_add) frame ∨
      inp.RecomparedAt num (inp.skipFrames (inp.compared num unset unset_asym_add))
        (inp.disturbances num unset unset_asym_add) frame := by
  unfold disturbances
  dsimp only
  split
  · exact inp.same_or_recompared num _ frame
  · exact Or.inl ⟨rfl, rfl, rfl⟩

include hnum in
/-- In the end the frames are settled. -/
theorem settled_disturbances (hframe : 0 ≤ frame ∧ frame ≤ inp.stop_frame) :
    Settled (inp.disturbances num unset unset_asym_add) frame := by
  have hskipped :=
    inp.settled_skipFrames (inp.settled_compared hnum unset unset_asym_add hframe)
  rcases inp.disturbances_at unset unset_asym_add num frame with hsame | hagain
  · exact ⟨hsame.kept ▸ hskipped.nonneg, hsame.kept_asym_add ▸ hskipped.nonneg_asym_add,
      fun hzero => hsame.kept_asym_add ▸ hskipped.zero_asym_add (hsame.kept ▸ hzero)⟩
  · exact hagain.settled hnum hskipped

/-- The realignment makes no disturbance larger. -/
theorem disturbances_le (num : Numerics ℝ) (frame : ℤ) :
    (inp.disturbances num unset unset_asym_add).frame_disturbance frame ≤
        (inp.skipFrames (inp.compared num unset unset_asym_add)).frame_disturbance frame ∧
      (inp.disturbances num unset unset_asym_add).frame_disturbance_asym_add frame ≤
        (inp.skipFrames
          (inp.compared num unset unset_asym_add)).frame_disturbance_asym_add frame := by
  rcases inp.disturbances_at unset unset_asym_add num frame with hsame | hagain
  · exact ⟨hsame.kept.le, hsame.kept_asym_add.le⟩
  · exact ⟨hagain.kept ▸ min_le_left _ _, hagain.kept_asym_add ▸ min_le_left _ _⟩

/-- A frame counts as equal: it is skipped, or the signals sound equal in it, at first or in the
end. -/
def CountsAsEqual (num : Numerics ℝ) (frame : ℤ) : Prop :=
  inp.frame_was_skipped frame = true ∨
    SoundsEqual num inp.bands (inp.pitch_pow_dens_ref num frame)
      ((inp.compared num unset unset_asym_add).pitch_pow_dens_deg frame) ∨
    SoundsEqual num inp.bands (inp.pitch_pow_dens_ref num frame)
      ((inp.disturbances num unset unset_asym_add).pitch_pow_dens_deg frame)

include hnum in
/-- In the end, the frames without a disturbance are those that count as equal. -/
theorem disturbances_eq_zero_iff (hframe : 0 ≤ frame ∧ frame ≤ inp.stop_frame) :
    (inp.disturbances num unset unset_asym_add).frame_disturbance frame = 0 ↔
      inp.CountsAsEqual unset unset_asym_add num frame := by
  have hfirst : (inp.skipFrames (inp.compared num unset unset_asym_add)).frame_disturbance frame =
      0 ↔ inp.frame_was_skipped frame = true ∨
        SoundsEqual num inp.bands (inp.pitch_pow_dens_ref num frame)
          ((inp.compared num unset unset_asym_add).pitch_pow_dens_deg frame) := by
    unfold skipFrames
    dsimp only
    split
    · rename_i hskipped
      exact iff_of_true rfl (Or.inl hskipped)
    · rename_i hskipped
      rw [or_iff_right hskipped, (inp.compared_at unset unset_asym_add num hframe).1]
      exact frame_disturbance_eq_zero_iff hnum _ _ _
  have hnonneg := (inp.settled_skipFrames
    (inp.settled_compared hnum unset unset_asym_add hframe)).nonneg
  unfold CountsAsEqual
  rw [← or_assoc, ← hfirst]
  rcases inp.disturbances_at unset unset_asym_add num frame with hsame | hagain
  · -- The powers are those of the first comparison.
    have hpower : (inp.disturbances num unset unset_asym_add).pitch_pow_dens_deg frame =
        (inp.compared num unset unset_asym_add).pitch_pow_dens_deg frame := hsame.power
    rw [hsame.kept, hpower]
    exact ⟨Or.inl, fun h => h.elim id fun hequal => hfirst.mpr (Or.inr hequal)⟩
  · have hnew := (disturbance_nonneg hnum inp.bands (inp.pitch_pow_dens_ref num frame)
      ((inp.disturbances num unset unset_asym_add).pitch_pow_dens_deg frame)).1
    rw [hagain.kept, ← frame_disturbance_eq_zero_iff hnum]
    constructor
    · intro hmin
      rcases min_choice ((inp.skipFrames
        (inp.compared num unset unset_asym_add)).frame_disturbance frame) (disturbance num inp.bands
          (inp.pitch_pow_dens_ref num frame) ((inp.disturbances num unset
            unset_asym_add).pitch_pow_dens_deg frame)).frame_disturbance with hold | hnew
      · exact Or.inl (hold ▸ hmin)
      · exact Or.inr (hnew ▸ hmin)
    · rintro (hold | hequal)
      · rw [hold]
        exact min_eq_left hnew
      · rw [hequal]
        exact min_eq_right hnonneg

end Frames

/-! ## Relative disturbances -/

section Relative

variable (hnum : Exact num) {x y : ℤ → ℝ}

/-- Audible power is not negative. -/
theorem total_audible_nonneg (b : Bands ℝ) (pitch_pow_dens : ℕ → ℝ) {factor : ℝ}
    (hfactor : 0 ≤ factor) : 0 ≤ total_audible b pitch_pow_dens factor := by
  refine Finset.sum_nonneg fun band hband => ?_
  split
  · rename_i haudible
    have hthresh := b.thresh_pos band (Finset.mem_Ico.mp hband).2
    exact (mul_nonneg hfactor hthresh.le).trans (le_of_lt haudible)
  · exact le_rfl

/-- What the disturbance of a frame is divided by. -/
noncomputable def powerWeight (num : Numerics ℝ) (frame : ℤ) : ℝ :=
  num.pow ((total_audible inp.bands (inp.pitch_pow_dens_ref num frame) 1 + (1E5 : ℚ)) / (1E7 : ℚ))
    (0.04 : ℚ)

include hnum in
/-- It is positive. -/
theorem powerWeight_pos (frame : ℤ) : 0 < inp.powerWeight num frame := by
  have hpower := total_audible_nonneg inp.bands (inp.pitch_pow_dens_ref num frame) zero_le_one
  unfold powerWeight
  rw [hnum.pow_eq]
  refine Real.rpow_pos_of_pos (div_pos ?_ (by norm_num)) _
  have hconstant : (0 : ℝ) < (1E5 : ℚ) := by norm_num
  linarith

/-- A relative disturbance is a quotient, up to a bound. -/
theorem relative_eq (num : Numerics ℝ) (x : ℤ → ℝ) (frame : ℤ) :
    inp.relative num x frame = min 45 (x frame / inp.powerWeight num frame) := by
  unfold relative powerWeight MAX_DISTURBANCE
  dsimp only
  rw [min_def_lt]
  norm_num

include hnum in
/-- A relative disturbance is in a fixed range. -/
theorem relative_mem (hx : 0 ≤ x frame) :
    0 ≤ inp.relative num x frame ∧ inp.relative num x frame ≤ 45 := by
  rw [relative_eq]
  exact ⟨le_min (by norm_num) (div_nonneg hx (inp.powerWeight_pos hnum frame).le),
    min_le_left _ _⟩

include hnum in
/-- A relative disturbance grows with the disturbance. -/
theorem relative_mono (h : x frame ≤ y frame) :
    inp.relative num x frame ≤ inp.relative num y frame := by
  rw [relative_eq, relative_eq]
  exact min_le_min_left 45 (div_le_div_of_nonneg_right h (inp.powerWeight_pos hnum frame).le)

include hnum in
/-- A relative disturbance is zero exactly if the disturbance is. -/
theorem relative_eq_zero_iff : inp.relative num x frame = 0 ↔ x frame = 0 := by
  have hweight := inp.powerWeight_pos hnum frame
  rw [relative_eq]
  constructor
  · intro hmin
    rcases min_choice 45 (x frame / inp.powerWeight num frame) with hbound | hquotient
    · rw [hbound] at hmin
      norm_num at hmin
    · rw [hquotient] at hmin
      exact (div_eq_zero_iff.mp hmin).resolve_right hweight.ne'
  · intro hzero
    rw [hzero, zero_div]
    norm_num

end Relative

end AcousticInput

end TgVoipRate.Pesq.Acoustic
