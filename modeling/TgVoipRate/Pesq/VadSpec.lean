import TgVoipRate.Pesq.VadTaper

/-!
# What the voice activity detection finds

The array of a signal has exactly the runs of speech as its runs of positive entries
(`isRuns_detectActivity`), and no negative entry (`detectActivity_nonneg`).
-/

namespace TgVoipRate.Pesq

open Runs (Run IsRuns joinGaps)

variable {𝕜 : Type*} [Field 𝕜] [LinearOrder 𝕜]

section Detection

variable (lv : Levels 𝕜) (energy : ℕ → 𝕜) {Nwindows : ℕ} {rs : List Run}

/-- Joined runs are long. -/
theorem isLong_of_mem_joinedRuns : ∀ r ∈ joinedRuns lv energy Nwindows, isLong r = true := by
  refine Runs.forall_joinGaps (fun r q hr _ => ?_) fun r hr => ?_
  · have hr : 4 < r.finish - r.start := of_decide_eq_true hr
    have hq : 4 < max r.finish q.finish - r.start := by omega
    exact decide_eq_true hq
  · exact (List.mem_filter.mp (List.mem_filter.mp hr).1).2

/-- Joined runs are far from each other. -/
theorem joinedRuns_far :
    (joinedRuns lv energy Nwindows).Pairwise fun r q => r.finish + 50 < q.start :=
  Runs.joinGaps_far (((Runs.isRuns_runsFrom (Nwindows - 2) 1).separated.filter _).filter _)

/-- The whole signal is long. -/
theorem isLong_orWhole (hN : 7 ≤ Nwindows) (h : ∀ r ∈ rs, isLong r = true) :
    ∀ r ∈ orWhole Nwindows rs, isLong r = true := by
  unfold orWhole
  split
  · rw [dif_pos (by omega)]
    refine List.forall_mem_singleton.mpr (decide_eq_true ?_)
    show 4 < Nwindows - 1 - 1
    omega
  · exact h

/-- One run is far from nothing. -/
theorem orWhole_far (h : rs.Pairwise fun r q => r.finish + 50 < q.start) :
    (orWhole Nwindows rs).Pairwise fun r q => r.finish + 50 < q.start := by
  unfold orWhole
  split
  · split
    · exact List.pairwise_singleton _ _
    · exact List.Pairwise.nil
  · exact h

variable [IsStrictOrderedRing 𝕜] (math : Math 𝕜)

/-- The array of a signal before its negative entries are cleared has the runs of speech. -/
theorem isRuns_taper_speechSigns (hN : 7 ≤ Nwindows) :
    IsRuns (fun i => 0 < taper Nwindows
        (speechSigns (levels math energy Nwindows) energy Nwindows) 3 i) 1 Nwindows
      (speechRuns energy Nwindows math) ∧
      taper Nwindows (speechSigns (levels math energy Nwindows) energy Nwindows) 3 0 ≤ 0 := by
  have hmin : 0 < (levels math energy Nwindows).LevelMin := lowestLevel_pos energy Nwindows
  have hmarks := marks_speechSigns energy hmin (show 3 ≤ Nwindows by omega)
  obtain ⟨hruns, hkeep⟩ := isRuns_taper _ _ 3 (le_refl _) hmarks.runs
    (isLong_orWhole hN (isLong_of_mem_joinedRuns _ _)) hmarks.finish_lt
    (orWhole_far (joinedRuns_far _ _))
  exact ⟨hruns, (hkeep 0 (by omega)).trans_le hmarks.first⟩

/-- The positive entries of the detected activity are those of the runs of speech. -/
theorem isRuns_detectActivity (hN : 7 ≤ Nwindows) :
    IsRuns (fun i => 0 < (detectActivity math energy Nwindows).VAD i) 0 Nwindows
      (speechRuns energy Nwindows math) := by
  have hclear : ∀ x : 𝕜, 0 < (if x < 0 then 0 else x) ↔ 0 < x := fun x => by
    split
    · rename_i hx
      exact iff_of_false (lt_irrefl _) (not_lt.mpr hx.le)
    · rfl
  obtain ⟨hruns, hfirst⟩ := isRuns_taper_speechSigns energy math hN
  -- The loop starts behind the first window, where there is no speech.
  refine IsRuns.skip (hruns.congr fun i _ _ => hclear _) ?_
  rw [detectActivity, hclear]
  exact not_lt.mpr hfirst

omit [IsStrictOrderedRing 𝕜] in
/-- The detected activity is not negative. -/
theorem detectActivity_nonneg (i : ℕ) : 0 ≤ (detectActivity math energy Nwindows).VAD i := by
  unfold detectActivity
  dsimp only
  split
  · exact le_refl _
  · rename_i h
    exact not_lt.mp h

end Detection

end TgVoipRate.Pesq
