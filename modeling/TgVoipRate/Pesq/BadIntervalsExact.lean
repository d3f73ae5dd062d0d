import TgVoipRate.Pesq.BadIntervalsSpec

/-!
# The bad intervals are exact

What `badIntervals` collects, without its loops: the maximal runs of at least five frames that have
a bad frame in reach on each side (`InReach`). The flag of the first frame is taken back before the
flags are smeared, so that frame does not count as bad (`Marked`); for flags whose first one is not
set the word means what it says (`badIntervals_exact`).
-/

namespace TgVoipRate.Pesq

open Runs (Run IsRuns)

/-! ## The statement -/

/-- A frame has a bad frame in reach on each side, and is not too close to the ends. -/
structure InReach (stop_frame : ℤ) (bad : ℕ → Prop) (frame : ℕ) : Prop where
  /-- The first frames are left out. -/
  two_le : 2 ≤ frame
  /-- The last frames are left out. -/
  lt_stop : (frame : ℤ) < stop_frame - 2
  /-- A bad frame on the left. -/
  left : ∃ i, frame ≤ i + 2 ∧ i ≤ frame ∧ bad i
  /-- A bad frame on the right. -/
  right : ∃ i, frame ≤ i ∧ i ≤ frame + 2 ∧ bad i

/-- The intervals in the tables, from a start to behind the last frame. -/
def Collected.intervals (s : Collected) : List (ℤ × ℤ) :=
  (List.range s.number_of_bad_intervals).map fun i =>
    (s.start_frame_of_bad_interval i, s.stop_frame_of_bad_interval i)

/-- The ends of a run. -/
def runEnds (r : Run) : ℤ × ℤ := (r.start, r.finish)

/-- The tables hold the maximal runs of at least five frames in reach of bad ones. -/
structure ExactIntervals (stop_frame : ℤ) (bad : ℕ → Prop) (s : Collected) : Prop where
  /-- The intervals are the runs that are long enough, in their order. -/
  exact : ∃ rs, IsRuns (InReach stop_frame bad) 0 (stop_frame + 1).toNat rs ∧
    s.intervals = (rs.filter isBadInterval).map runEnds
  /-- They come in order, and do not meet. -/
  ordered : s.intervals.Pairwise fun a b => a.2 < b.1
  /-- They are long. -/
  long : ∀ a ∈ s.intervals, a.1 + MINIMUM_NUMBER_OF_BAD_FRAMES_IN_BAD_INTERVAL ≤ a.2
  /-- They stop early enough. -/
  stop_le : ∀ a ∈ s.intervals, a.2 ≤ stop_frame - 2

/-! ## The loop -/

section Collect

variable {stop_frame : ℤ} {bad : ℕ → Bool} {N : ℕ} {r : Run} {s : Collected}

/-- The body appends the next run, if it is long enough. -/
theorem collectStep_intervals {rs : List Run} (hN : ∀ i : ℕ, i < N ↔ (i : ℤ) ≤ stop_frame)
    (h : IsRuns (fun i => bad i = true) s.frame N (r :: rs)) (hlast : r.finish < N) :
    (collectStep stop_frame bad s).intervals =
      s.intervals ++ if isBadInterval r = true then [runEnds r] else [] := by
  have hlt := r.lt
  have hstart : (r.start : ℤ) ≤ stop_frame := (hN r.start).mp (by omega)
  have hfinish : (r.finish : ℤ) ≤ stop_frame := (hN r.finish).mp hlast
  have hnumber := (collectStep_run hN h hlast).2.2
  -- The entries before the current slot are not written.
  have hkeep : ∀ T : ℕ → ℤ, ∀ x, ∀ i ∈ List.range s.number_of_bad_intervals,
      Function.update T s.number_of_bad_intervals x i = T i := fun T x i hi =>
    Function.update_of_ne (List.mem_range.mp hi).ne _ _
  have hstarts : (collectStep stop_frame bad s).start_frame_of_bad_interval =
      Function.update s.start_frame_of_bad_interval s.number_of_bad_intervals r.start := by
    unfold collectStep
    dsimp only
    rw [skip_good hN h, skip_bad hN h, if_pos hstart, if_pos hfinish]
  have hstops : (collectStep stop_frame bad s).stop_frame_of_bad_interval =
      Function.update s.stop_frame_of_bad_interval s.number_of_bad_intervals r.finish := by
    unfold collectStep
    dsimp only
    rw [skip_good hN h, skip_bad hN h, if_pos hstart, if_pos hfinish]
  have hbefore : (List.range s.number_of_bad_intervals).map (fun i =>
      ((collectStep stop_frame bad s).start_frame_of_bad_interval i,
        (collectStep stop_frame bad s).stop_frame_of_bad_interval i)) = s.intervals := by
    apply List.map_congr_left
    intro i hi
    rw [hstarts, hstops, hkeep _ _ i hi, hkeep _ _ i hi]
  unfold Collected.intervals
  rw [hnumber]
  split
  · rw [List.range_succ, List.map_append, hbefore, hstarts, hstops]
    simp only [List.map_cons, List.map_nil, Function.update_self]
    rfl
  · rw [hbefore, List.append_nil]
    rfl

/-- The loop appends the runs that are long enough, if none goes on to the last frame. -/
theorem intervals_run (hN : ∀ i : ℕ, i < N ↔ (i : ℤ) ≤ stop_frame) :
    ∀ (rs : List Run) (s : Collected),
    IsRuns (fun i => bad i = true) s.frame N rs → (∀ r ∈ rs, r.finish < N) →
      ((collect stop_frame bad).run s).intervals =
        s.intervals ++ (rs.filter isBadInterval).map runEnds
  | [], s, h, _ => by
    obtain ⟨frame, hrun⟩ := collect_run_nil hN h
    rw [hrun, List.filter_nil, List.map_nil, List.append_nil]
    rfl
  | r :: rs, s, h, hlast => by
    obtain ⟨hround, hrest⟩ := collect_run_cons hN h (hlast r List.mem_cons_self)
    rw [hround, intervals_run hN rs _ hrest fun q hq => hlast q (List.mem_cons_of_mem _ hq),
      collectStep_intervals hN h (hlast r List.mem_cons_self), List.append_assoc, List.filter_cons]
    split
    · rfl
    · rfl

end Collect

/-! ## The tables -/

variable {stop_frame : ℤ} {frame_is_bad : ℕ → Bool}

/-- Smearing leaves the frames that are in reach of marked ones. -/
theorem smear_iff_inReach {frame : ℕ} :
    smear stop_frame frame_is_bad frame = true ↔
      InReach stop_frame (Marked frame_is_bad) frame := by
  rw [smear_iff]
  constructor
  · rintro ⟨⟨htwo, hstop⟩, hleft, hright⟩
    exact ⟨htwo, by omega, hleft, hright⟩
  · rintro ⟨htwo, hstop, hleft, hright⟩
    exact ⟨⟨htwo, by omega⟩, hleft, hright⟩

/-- The intervals are the maximal runs of smeared bad frames that are long enough. -/
theorem intervals_badIntervals {rs : List Run}
    (h : IsRuns (fun frame => smear stop_frame frame_is_bad frame = true) 0
      (stop_frame + 1).toNat rs) :
    (badIntervals stop_frame frame_is_bad).intervals = (rs.filter isBadInterval).map runEnds := by
  rw [badIntervals_eq_run]
  refine intervals_run lt_toNat_iff rs _ h fun r hr => ?_
  have := finish_le_of_smeared h r hr
  omega

/-- The tables are exact, where the first frame does not count as bad. -/
theorem exactIntervals_marked (stop_frame : ℤ) (frame_is_bad : ℕ → Bool) :
    ExactIntervals stop_frame (Marked frame_is_bad) (badIntervals stop_frame frame_is_bad) := by
  have hruns := isRuns_smearedRuns stop_frame frame_is_bad
  have hintervals := intervals_badIntervals hruns
  have hkept : ∀ r ∈ (smearedRuns stop_frame frame_is_bad).filter isBadInterval,
      r ∈ smearedRuns stop_frame frame_is_bad ∧ r.start + 5 ≤ r.finish := fun r hr =>
    ⟨(List.mem_filter.mp hr).1, isBadInterval_iff.mp (List.mem_filter.mp hr).2⟩
  refine ⟨⟨_, hruns.congr fun i _ _ => smear_iff_inReach.symm, hintervals⟩, ?_, ?_, ?_⟩
  · rw [hintervals]
    refine List.pairwise_map.mpr ((hruns.separated.filter _).imp fun {r q} hrq => ?_)
    show (r.finish : ℤ) < q.start
    exact_mod_cast hrq
  · rw [hintervals]
    intro a ha
    obtain ⟨r, hr, rfl⟩ := List.mem_map.mp ha
    have := (hkept r hr).2
    show (r.start : ℤ) + 5 ≤ r.finish
    omega
  · rw [hintervals]
    intro a ha
    obtain ⟨r, hr, rfl⟩ := List.mem_map.mp ha
    exact finish_le_of_smeared hruns r (hkept r hr).1

/-- The number of intervals. -/
theorem number_badIntervals (stop_frame : ℤ) (frame_is_bad : ℕ → Bool) :
    (badIntervals stop_frame frame_is_bad).number_of_bad_intervals =
      (smearedRuns stop_frame frame_is_bad).countP isBadInterval := by
  have hlength := congrArg List.length
    (intervals_badIntervals (isRuns_smearedRuns stop_frame frame_is_bad))
  rwa [Collected.intervals, List.length_map, List.length_range, List.length_map,
    ← List.countP_eq_length_filter] at hlength

/-- If fewer intervals are found than the tables have entries, every entry that is written is in the
tables. -/
theorem written_lt_of_number
    (hroom : (badIntervals stop_frame frame_is_bad).number_of_bad_intervals <
      MAX_NUMBER_OF_BAD_INTERVALS) :
    ∀ i ∈ (badIntervals stop_frame frame_is_bad).written, i < MAX_NUMBER_OF_BAD_INTERVALS := by
  apply (written_lt_iff (Nat.zero_lt_succ 999) (isRuns_smearedRuns stop_frame frame_is_bad)).mpr
  calc (smearedRuns stop_frame frame_is_bad).dropLast.countP isBadInterval
      ≤ (smearedRuns stop_frame frame_is_bad).countP isBadInterval :=
        (List.dropLast_sublist _).countP_le
    _ < MAX_NUMBER_OF_BAD_INTERVALS := number_badIntervals stop_frame frame_is_bad ▸ hroom

/-- The loop ends, it stays in the tables as long as fewer intervals are found than they have
entries, and the tables then hold exactly the long maximal runs of frames in reach of bad ones. The
first frame does not count as bad; where its flag is not set, bad frames are those with a flag. -/
theorem badIntervals_exact (stop_frame : ℤ) (frame_is_bad : ℕ → Bool)
    (hroom : (badIntervals stop_frame frame_is_bad).number_of_bad_intervals <
      MAX_NUMBER_OF_BAD_INTERVALS) :
    (∃ n s, (collect stop_frame (smear stop_frame frame_is_bad)).Ends Collected.init s n ∧
        badIntervals stop_frame frame_is_bad = s) ∧
      (∀ i ∈ (badIntervals stop_frame frame_is_bad).written, i < MAX_NUMBER_OF_BAD_INTERVALS) ∧
      ExactIntervals stop_frame (Marked frame_is_bad) (badIntervals stop_frame frame_is_bad) ∧
      (frame_is_bad 0 = false → ExactIntervals stop_frame (fun frame => frame_is_bad frame = true)
        (badIntervals stop_frame frame_is_bad)) := by
  have hexact := exactIntervals_marked stop_frame frame_is_bad
  refine ⟨?_, written_lt_of_number hroom, hexact, fun hzero => ?_⟩
  · obtain ⟨n, -, hends⟩ :=
      (collect stop_frame (smear stop_frame frame_is_bad)).run_ends Collected.init
    exact ⟨n, _, hends, badIntervals_eq_run stop_frame frame_is_bad⟩
  · have hbad : Marked frame_is_bad = fun frame => frame_is_bad frame = true := by
      funext frame
      refine propext (and_iff_right_of_imp fun hflag hframe => ?_)
      rw [hframe, hzero] at hflag
      exact Bool.false_ne_true hflag
    rwa [hbad] at hexact

/-- The first frame and eight frames further on are bad. -/
def firstAndEight (frame : ℕ) : Bool := decide (frame = 0 ∨ 3 ≤ frame ∧ frame ≤ 10)

/-- One interval is found. -/
theorem number_firstAndEight :
    (badIntervals 20 firstAndEight).number_of_bad_intervals < MAX_NUMBER_OF_BAD_INTERVALS := by
  rw [number_badIntervals]
  decide

/-- It is exact, where the first frame does not count. -/
theorem badIntervals_exact_eight :
    ExactIntervals 20 (Marked firstAndEight) (badIntervals 20 firstAndEight) :=
  (badIntervals_exact 20 firstAndEight number_firstAndEight).2.2.1

/-- Where the first frame counts, nine frames are in reach of bad ones. -/
theorem inReach_firstAndEight_iff {frame : ℕ} :
    InReach 20 (fun frame => firstAndEight frame = true) frame ↔ 2 ≤ frame ∧ frame < 11 := by
  unfold firstAndEight
  simp only [decide_eq_true_iff]
  constructor
  · rintro ⟨htwo, -, -, i, hi, hi', hbad⟩
    exact ⟨htwo, by omega⟩
  · rintro ⟨htwo, hlt⟩
    refine ⟨htwo, by omega, ?_, max 3 frame, by omega, by omega, by omega⟩
    by_cases h : frame = 2
    · exact ⟨0, by omega, by omega, by omega⟩
    · exact ⟨frame, by omega, le_refl _, by omega⟩

/-- The interval is not exact, where the first frame counts: it starts at frame 3, although frame 2
has a bad frame in reach on each side. -/
theorem badIntervals_leaves_second :
    (badIntervals 20 firstAndEight).number_of_bad_intervals < MAX_NUMBER_OF_BAD_INTERVALS ∧
      ¬ExactIntervals 20 (fun frame => firstAndEight frame = true)
        (badIntervals 20 firstAndEight) := by
  refine ⟨number_firstAndEight, fun hexact => ?_⟩
  obtain ⟨rs, hruns, hclaimed⟩ := hexact.exact
  have hnine : IsRuns (InReach 20 fun frame => firstAndEight frame = true) 0 21
      [⟨2, 11, by omega⟩] :=
    Runs.isRuns_singleton (Nat.zero_le 2) (show 11 ≤ 21 by omega)
      fun _ _ _ => inReach_firstAndEight_iff
  have hfound := intervals_badIntervals (isRuns_smearedRuns 20 firstAndEight)
  rw [hclaimed, hruns.unique hnine] at hfound
  exact absurd hfound (by decide)

end TgVoipRate.Pesq
