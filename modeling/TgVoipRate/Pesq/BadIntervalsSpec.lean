import Mathlib.Data.List.Nodup
import Mathlib.Data.List.Perm.Subperm
import TgVoipRate.Lib.Runs
import TgVoipRate.Pesq.BadIntervals

/-!
# The tables of bad intervals

Which entries of the two tables are written, for all flags of frames. The loop takes the maximal
runs of smeared bad frames one after another (`written_run`), and an entry is used again until a run
is long enough. So the tables overflow exactly if 1000 runs that are long enough come before another
run (`badIntervals_fit_iff`), and nothing keeps the recording from having these.
-/

namespace TgVoipRate.Pesq

open Runs

/-! ## Smeared flags -/

/-- The largest flag is set if one of them is. -/
theorem maxFlag_eq (frame_is_bad : ℕ → Bool) : ∀ (frames : List ℕ) (itself : Bool),
    maxFlag frame_is_bad itself frames = (itself || frames.any frame_is_bad)
  | [], itself => (Bool.or_false itself).symm
  | frame :: frames, itself => by
    have hmax : (if itself < frame_is_bad frame then frame_is_bad frame else itself) =
        (itself || frame_is_bad frame) := by
      cases itself <;> cases frame_is_bad frame <;> rfl
    have ih := maxFlag_eq frame_is_bad frames (itself || frame_is_bad frame)
    unfold maxFlag at ih ⊢
    rw [List.foldl_cons, hmax, ih, List.any_cons, Bool.or_assoc]

/-- The frame was found to be bad, and is not the first one. -/
def Marked (frame_is_bad : ℕ → Bool) (frame : ℕ) : Prop := frame ≠ 0 ∧ frame_is_bad frame = true

/-- The first flag is taken back before smearing. -/
theorem update_zero_iff {frame_is_bad : ℕ → Bool} {frame : ℕ} :
    Function.update frame_is_bad 0 false frame = true ↔ Marked frame_is_bad frame := by
  unfold Marked
  by_cases h : frame = 0
  · subst h
    simp
  · simp [h]

/-- The largest flag on one side: some frame in reach is marked. -/
theorem maxFlag_reach {frame_is_bad : ℕ → Bool} {first frame : ℕ} (hfirst : first ≤ frame)
    (hframe : frame ≤ first + SMEAR_RANGE) :
    maxFlag (Function.update frame_is_bad 0 false) (Function.update frame_is_bad 0 false frame)
        ((List.range (SMEAR_RANGE + 1)).map fun i => first + i) = true ↔
      ∃ i, first ≤ i ∧ i ≤ first + SMEAR_RANGE ∧ Marked frame_is_bad i := by
  rw [maxFlag_eq, Bool.or_eq_true, update_zero_iff, List.any_eq_true]
  constructor
  · rintro (hmarked | ⟨i, hi, hmarked⟩)
    · exact ⟨frame, hfirst, hframe, hmarked⟩
    · obtain ⟨k, hk, rfl⟩ := List.mem_map.mp hi
      have hk := List.mem_range.mp hk
      exact ⟨first + k, Nat.le_add_right first k, by omega, update_zero_iff.mp hmarked⟩
  · rintro ⟨i, hi, hreach, hmarked⟩
    refine Or.inr ⟨i, List.mem_map.mpr ⟨i - first, List.mem_range.mpr (by omega), ?_⟩,
      update_zero_iff.mpr hmarked⟩
    omega

/-- A frame is bad after smearing if it has a marked one in reach on each side. -/
theorem smear_iff {stop_frame : ℤ} {frame_is_bad : ℕ → Bool} {frame : ℕ} :
    smear stop_frame frame_is_bad frame = true ↔
      (2 ≤ frame ∧ (frame : ℤ) + 2 < stop_frame) ∧
        (∃ i, frame ≤ i + 2 ∧ i ≤ frame ∧ Marked frame_is_bad i) ∧
        ∃ i, frame ≤ i ∧ i ≤ frame + 2 ∧ Marked frame_is_bad i := by
  have hmin : ∀ left right : Bool, (if left > right then right else left) = (left && right) := by
    decide
  have hrange : (2 ≤ frame ∧ (frame : ℤ) + 2 < stop_frame) ↔
      SMEAR_RANGE ≤ frame ∧ (frame : ℤ) < stop_frame - SMEAR_RANGE := by
    unfold SMEAR_RANGE
    omega
  rw [hrange]
  unfold smear
  dsimp only
  rw [hmin]
  split
  · rename_i hinside
    have hleft : (∃ i, frame ≤ i + 2 ∧ i ≤ frame ∧ Marked frame_is_bad i) ↔
        ∃ i, frame - SMEAR_RANGE ≤ i ∧ i ≤ frame - SMEAR_RANGE + SMEAR_RANGE ∧
          Marked frame_is_bad i := by
      rw [Nat.sub_add_cancel hinside.1]
      simp only [Nat.sub_le_iff_le_add]
      rfl
    rw [Bool.and_eq_true, maxFlag_reach (Nat.sub_le frame SMEAR_RANGE)
      (Nat.le_of_eq (Nat.sub_add_cancel hinside.1).symm),
      maxFlag_reach (Nat.le_refl frame) (Nat.le_add_right frame SMEAR_RANGE), ← hleft]
    exact (and_iff_right hinside).symm
  · rename_i hinside
    exact iff_of_false Bool.false_ne_true fun h => hinside h.1

/-- Two runs of at least two smeared bad frames have three frames between them: the frames on the
sides of the gap are marked, and a shorter gap would be smeared over. -/
theorem smear_gap {stop_frame : ℤ} {frame_is_bad : ℕ → Bool} {e s : ℕ}
    (hlast : smear stop_frame frame_is_bad e = true)
    (hgap : ¬smear stop_frame frame_is_bad (e + 2) = true) (hes : e + 2 < s)
    (hfirst : smear stop_frame frame_is_bad s = true)
    (hfirst' : smear stop_frame frame_is_bad (s + 1) = true) : e + 5 ≤ s := by
  rw [smear_iff] at hlast hgap hfirst hfirst'
  obtain ⟨⟨hrange, -⟩, -, i, hi, hi', hmarked⟩ := hlast
  obtain ⟨⟨-, hrange'⟩, ⟨j, hj, hj', hleft⟩, -⟩ := hfirst
  obtain ⟨-, ⟨l, hl, hl', hleft'⟩, -⟩ := hfirst'
  -- There is a marked frame on the left of the gap, so there is none in it.
  have hnone : ∀ m, e + 2 ≤ m → m ≤ e + 4 → ¬Marked frame_is_bad m := fun m hm hm' hmarked' =>
    hgap ⟨⟨by omega, by omega⟩, ⟨i, by omega, by omega, hmarked⟩, ⟨m, hm, by omega, hmarked'⟩⟩
  have houtside : ∀ m, Marked frame_is_bad m → m < e + 2 ∨ e + 4 < m := fun m hmarked' => by
    by_contra hm
    exact hnone m (by omega) (by omega) hmarked'
  have := houtside j hleft
  have := houtside l hleft'
  omega

/-- The maximal runs of bad frames, after smearing. -/
def smearedRuns (stop_frame : ℤ) (frame_is_bad : ℕ → Bool) : List Run :=
  runsFrom (fun frame => smear stop_frame frame_is_bad frame = true) 0 (stop_frame + 1).toNat

/-- The runs are long enough for the tables of bad intervals. -/
def isBadInterval (r : Run) : Bool :=
  decide (MINIMUM_NUMBER_OF_BAD_FRAMES_IN_BAD_INTERVAL ≤ r.length)

/-! ## Going from run to run -/

section Collect

variable {stop_frame : ℤ} {bad : ℕ → Bool}

/-- Going on stops at the first frame that has another value or is behind the last one. -/
theorem skip_eq {value : Bool} {frame behind : ℕ} (hle : frame ≤ behind)
    (hvalue : ∀ i, frame ≤ i → i < behind → (i : ℤ) ≤ stop_frame ∧ bad i = value)
    (hbehind : (behind : ℤ) ≤ stop_frame → bad behind ≠ value) :
    skip stop_frame bad value frame = behind := by
  rcases Nat.eq_or_lt_of_le hle with rfl | hlt
  · rw [skip, if_neg fun h => hbehind h.1 h.2]
  · rw [skip, if_pos (hvalue frame (Nat.le_refl frame) hlt)]
    exact skip_eq hlt (fun i hi => hvalue i (Nat.le_of_succ_le hi)) hbehind
termination_by behind - frame

variable {N frame : ℕ} {r : Run} {rs : List Run}

/-- From in front of a run, going on over good frames stops at its start. -/
theorem skip_good (hN : ∀ i : ℕ, i < N ↔ (i : ℤ) ≤ stop_frame)
    (h : IsRuns (fun i => bad i = true) frame N (r :: rs)) :
    skip stop_frame bad false frame = r.start := by
  have hb := h.bounds r List.mem_cons_self
  have hlt := r.lt
  refine skip_eq hb.1 (fun i hi his => ⟨(hN i).mp (by omega), ?_⟩) fun _ => ?_
  · exact Bool.eq_false_of_not_eq_true (h.before hi his)
  · rw [h.inside ⟨Nat.le_refl r.start, hlt⟩]
    exact Bool.noConfusion

/-- From the start of a run, going on over bad frames stops behind it. -/
theorem skip_bad (hN : ∀ i : ℕ, i < N ↔ (i : ℤ) ≤ stop_frame)
    (h : IsRuns (fun i => bad i = true) frame N (r :: rs)) :
    skip stop_frame bad true r.start = r.finish := by
  have hb := h.bounds r List.mem_cons_self
  have hlt := r.lt
  refine skip_eq (Nat.le_of_lt hlt) (fun i hi hif => ⟨(hN i).mp (by omega), ?_⟩) fun hlast => ?_
  · exact h.inside ⟨hi, hif⟩
  · exact h.not_finish ((hN r.finish).mpr hlast)

/-- Without a run, going on over good frames leaves the range. -/
theorem skip_none (hN : ∀ i : ℕ, i < N ↔ (i : ℤ) ≤ stop_frame) (hframe : frame ≤ N)
    (h : IsRuns (fun i => bad i = true) frame N []) : skip stop_frame bad false frame = N := by
  refine skip_eq hframe (fun i hi hiN => ⟨(hN i).mp hiN, ?_⟩) fun hlast => ?_
  · exact Bool.eq_false_of_not_eq_true (isRuns_nil_iff.mp h i hi hiN)
  · exact absurd ((hN N).mpr hlast) (Nat.lt_irrefl N)

variable {s : Collected}

/-- Without a run the loop only moves on, and is over. -/
theorem collect_run_nil (hN : ∀ i : ℕ, i < N ↔ (i : ℤ) ≤ stop_frame)
    (h : IsRuns (fun i => bad i = true) s.frame N []) :
    ∃ frame, (collect stop_frame bad).run s = { s with frame } := by
  by_cases hguard : (s.frame : ℤ) ≤ stop_frame
  · have hbehind : ¬(N : ℤ) ≤ stop_frame := fun hle => Nat.lt_irrefl N ((hN N).mpr hle)
    have hstep : collectStep stop_frame bad s = { s with frame := N } := by
      unfold collectStep
      dsimp only
      rw [skip_none hN (Nat.le_of_lt ((hN s.frame).mpr hguard)) h, if_neg hbehind]
    have hround : (collect stop_frame bad).run s =
        (collect stop_frame bad).run (collectStep stop_frame bad s) :=
      (collect stop_frame bad).run_of_guard hguard
    refine ⟨N, ?_⟩
    rw [hround, hstep, (collect stop_frame bad).run_of_not_guard
      (s := { s with frame := N }) hbehind]
  · exact ⟨s.frame, (collect stop_frame bad).run_of_not_guard hguard⟩

/-- The body takes the next run. -/
theorem collectStep_run (hN : ∀ i : ℕ, i < N ↔ (i : ℤ) ≤ stop_frame)
    (h : IsRuns (fun i => bad i = true) s.frame N (r :: rs)) (hlast : r.finish < N) :
    let s' := collectStep stop_frame bad s
    s'.frame = r.finish ∧ s'.written = s.written ++ [s.number_of_bad_intervals,
      s.number_of_bad_intervals] ∧
      s'.number_of_bad_intervals = if isBadInterval r = true then s.number_of_bad_intervals + 1
        else s.number_of_bad_intervals := by
  have hlt := r.lt
  have hstart : (r.start : ℤ) ≤ stop_frame := (hN r.start).mp (by omega)
  have hfinish : (r.finish : ℤ) ≤ stop_frame := (hN r.finish).mp hlast
  have hlong : isBadInterval r = true ↔
      (r.finish : ℤ) - r.start ≥ MINIMUM_NUMBER_OF_BAD_FRAMES_IN_BAD_INTERVAL := by
    unfold isBadInterval Run.length
    rw [decide_eq_true_iff]
    omega
  unfold collectStep
  dsimp only
  rw [skip_good hN h, skip_bad hN h, if_pos hstart, if_pos hfinish, Function.update_self,
    Function.update_self]
  refine ⟨rfl, rfl, ?_⟩
  simp only [hlong]

/-- In front of a run the loop makes a round, and then stands behind the run. -/
theorem collect_run_cons (hN : ∀ i : ℕ, i < N ↔ (i : ℤ) ≤ stop_frame)
    (h : IsRuns (fun i => bad i = true) s.frame N (r :: rs)) (hlast : r.finish < N) :
    (collect stop_frame bad).run s =
        (collect stop_frame bad).run (collectStep stop_frame bad s) ∧
      IsRuns (fun i => bad i = true) (collectStep stop_frame bad s).frame N rs := by
  have hb := h.bounds r List.mem_cons_self
  have hlt := r.lt
  have hguard : (s.frame : ℤ) ≤ stop_frame := (hN s.frame).mp (by omega)
  have hframe := (collectStep_run hN h hlast).1
  exact ⟨(collect stop_frame bad).run_of_guard hguard, hframe ▸ h.after⟩

/-- The entries that the loop writes, if no run goes on to the last frame. -/
theorem written_run (hN : ∀ i : ℕ, i < N ↔ (i : ℤ) ≤ stop_frame) :
    ∀ (rs : List Run) (s : Collected),
    IsRuns (fun i => bad i = true) s.frame N rs → (∀ r ∈ rs, r.finish < N) →
      ((collect stop_frame bad).run s).written =
        s.written ++ (slots isBadInterval rs s.number_of_bad_intervals).flatMap fun n => [n, n]
  | [], s, h, _ => by
    obtain ⟨frame, hrun⟩ := collect_run_nil hN h
    rw [hrun, slots, List.flatMap_nil, List.append_nil]
  | r :: rs, s, h, hlast => by
    obtain ⟨-, hwritten, hnumber⟩ := collectStep_run hN h (hlast r List.mem_cons_self)
    obtain ⟨hround, hrest⟩ := collect_run_cons hN h (hlast r List.mem_cons_self)
    rw [hround, written_run hN rs _ hrest fun q hq => hlast q (List.mem_cons_of_mem _ hq),
      hwritten, hnumber, slots, List.append_assoc, List.flatMap_cons]

/-- Every interval that is kept ends at a frame of the recording. -/
def EndsInside (stop_frame : ℤ) (s : Collected) : Prop :=
  ∀ i < s.number_of_bad_intervals, s.stop_frame_of_bad_interval i ≤ stop_frame

/-- The body keeps intervals that end inside. -/
theorem collectStep_endsInside (h : EndsInside stop_frame s) :
    EndsInside stop_frame (collectStep stop_frame bad s) := by
  unfold collectStep
  dsimp only
  split
  · split
    · rename_i hfinish
      intro i hi
      dsimp only at hi ⊢
      by_cases hn : i = s.number_of_bad_intervals
      · rw [hn, Function.update_self]
        exact hfinish
      · rw [Function.update_of_ne hn]
        apply h i
        split at hi <;> omega
    · exact h
  · exact h

/-- Intervals that end inside are not taken back. -/
theorem foldl_clampStep_eq (h : EndsInside stop_frame s) : ∀ intervals : List ℕ,
    (∀ i ∈ intervals, i < s.number_of_bad_intervals) →
      intervals.foldl (clampStep stop_frame) s = s
  | [], _ => rfl
  | i :: intervals, hi => by
    have hinside : ¬s.stop_frame_of_bad_interval i > stop_frame :=
      Int.not_lt.mpr (h i (hi i List.mem_cons_self))
    rw [List.foldl_cons, clampStep, if_neg hinside]
    exact foldl_clampStep_eq h intervals fun j hj => hi j (List.mem_cons_of_mem _ hj)

end Collect

/-! ## The tables -/

section Tables

variable {stop_frame : ℤ} {frame_is_bad : ℕ → Bool} {rs : List Run}

/-- The frames up to the last one. -/
theorem lt_toNat_iff (i : ℕ) : i < (stop_frame + 1).toNat ↔ (i : ℤ) ≤ stop_frame := by
  omega

/-- The variables before the loop. -/
def Collected.init : Collected where
  frame := 0
  number_of_bad_intervals := 0
  start_frame_of_bad_interval _ := 0
  stop_frame_of_bad_interval _ := 0
  written := []

/-- Smearing leaves no bad frame at the end, so a run is always over before the array is. -/
theorem finish_le_of_smeared
    (h : IsRuns (fun frame => smear stop_frame frame_is_bad frame = true) 0
      (stop_frame + 1).toNat rs) : ∀ r ∈ rs, (r.finish : ℤ) ≤ stop_frame - 2 := by
  intro r hr
  have hlt := r.lt
  have hinside : r.Contains (r.finish - 1) := ⟨by omega, by omega⟩
  have hb := h.bounds r hr
  have hrange := smear_iff.mp ((h.mem_iff (r.finish - 1) (Nat.zero_le _) (by omega)).mpr
    ⟨r, hr, hinside⟩)
  have := hrange.1.2
  omega

/-- No interval is taken back behind the loop. -/
theorem badIntervals_eq_run (stop_frame : ℤ) (frame_is_bad : ℕ → Bool) :
    badIntervals stop_frame frame_is_bad =
      (collect stop_frame (smear stop_frame frame_is_bad)).run Collected.init := by
  have hends := (collect stop_frame (smear stop_frame frame_is_bad)).run_invariant
    (I := EndsInside stop_frame) (fun s _ hs => collectStep_endsInside hs)
    (s := Collected.init) fun i hi => absurd hi (Nat.not_lt_zero i)
  exact foldl_clampStep_eq hends _ fun i hi => List.mem_range.mp hi

/-- The entries that are written, in terms of the runs. -/
theorem written_badIntervals
    (h : IsRuns (fun frame => smear stop_frame frame_is_bad frame = true) 0
      (stop_frame + 1).toNat rs) :
    (badIntervals stop_frame frame_is_bad).written =
      (slots isBadInterval rs 0).flatMap fun n => [n, n] := by
  rw [badIntervals_eq_run]
  refine written_run lt_toNat_iff rs _ h fun r hr => ?_
  have := finish_le_of_smeared h r hr
  omega

/-- The tables have room for what is written exactly if few enough of the runs before the last one
are kept. -/
theorem written_lt_iff {size : ℕ} (hsize : 0 < size)
    (h : IsRuns (fun frame => smear stop_frame frame_is_bad frame = true) 0
      (stop_frame + 1).toNat rs) :
    (∀ i ∈ (badIntervals stop_frame frame_is_bad).written, i < size) ↔
      rs.dropLast.countP isBadInterval < size := by
  rw [written_badIntervals h, ← slots_lt_iff hsize]
  simp

/-- The maximal runs are computed. -/
theorem isRuns_smearedRuns (stop_frame : ℤ) (frame_is_bad : ℕ → Bool) :
    IsRuns (fun frame => smear stop_frame frame_is_bad frame = true) 0 (stop_frame + 1).toNat
      (smearedRuns stop_frame frame_is_bad) := by
  have h := isRuns_runsFrom (p := fun frame => smear stop_frame frame_is_bad frame = true)
    (stop_frame + 1).toNat 0
  rwa [Nat.zero_add] at h

end Tables

/-! ## How many frames it takes -/

section Crowded

/-- A run that is kept has at least five frames. -/
theorem isBadInterval_iff {r : Run} : isBadInterval r = true ↔ r.start + 5 ≤ r.finish := by
  have hlt := r.lt
  unfold isBadInterval MINIMUM_NUMBER_OF_BAD_FRAMES_IN_BAD_INTERVAL Run.length
  rw [decide_eq_true_iff]
  omega

variable {stop_frame : ℤ} {frame_is_bad : ℕ → Bool} {N : ℕ} {rs : List Run}

/-- Two kept runs have three frames between them. -/
theorem separated_isBadInterval
    (h : IsRuns (fun frame => smear stop_frame frame_is_bad frame = true) 0 N rs) :
    rs.Pairwise fun r q => r.finish < q.start ∧
      (isBadInterval r = true → isBadInterval q = true → r.finish + 3 ≤ q.start) := by
  refine h.separated.imp_of_mem fun {r q} hr hq hrq => ⟨hrq, fun hkept hkept' => ?_⟩
  have hr' := isBadInterval_iff.mp hkept
  have hq' := isBadInterval_iff.mp hkept'
  have hb := h.bounds r hr
  have hb' := h.bounds q hq
  have inside : ∀ {r : Run} {i : ℕ}, r ∈ rs → r.Contains i →
      smear stop_frame frame_is_bad i = true := fun {r i} hr hi =>
    (h.mem_iff i (Nat.zero_le i) (Nat.lt_of_lt_of_le hi.2 (h.bounds r hr).2)).mpr ⟨r, hr, hi⟩
  have hlast := inside hr (i := r.finish - 2) ⟨by omega, by omega⟩
  have hgap : ¬smear stop_frame frame_is_bad (r.finish - 2 + 2) = true := by
    rw [Nat.sub_add_cancel (by omega)]
    exact h.not_finish_of_mem hr (by omega)
  have hfirst := inside hq ⟨Nat.le_refl _, q.lt⟩
  have hfirst' := inside hq (i := q.start + 1) ⟨Nat.le_succ _, by omega⟩
  have := smear_gap hlast hgap (by omega) hfirst hfirst'
  omega

/-- A kept run and the gap behind it take eight frames, so the last run is far from the start. -/
theorem far_of_countP : ∀ (rs : List Run) (r : Run) {a : ℕ},
    ((r :: rs).Pairwise fun r q => r.finish < q.start ∧
      (isBadInterval r = true → isBadInterval q = true → r.finish + 3 ≤ q.start)) →
    (∀ q ∈ r :: rs, a ≤ q.start + 2 ∧ (isBadInterval q = true → a ≤ q.start)) →
      ∃ q ∈ r :: rs, a + 8 * (r :: rs).dropLast.countP isBadInterval ≤ q.start + 2
  | [], r, a, _, ha => ⟨r, List.mem_cons_self, (ha r List.mem_cons_self).1⟩
  | q :: rs, r, a, hsep, ha => by
    obtain ⟨hr, hsep⟩ := List.pairwise_cons.mp hsep
    rw [List.dropLast_cons_cons, List.countP_cons]
    by_cases hkept : isBadInterval r = true
    · have hlong := isBadInterval_iff.mp hkept
      have hstart := (ha r List.mem_cons_self).2 hkept
      obtain ⟨p, hp, hfar⟩ := far_of_countP (a := a + 8) rs q hsep fun p hp => by
        have hbehind := hr p hp
        exact ⟨by omega, fun hkept' => by have := hbehind.2 hkept hkept'; omega⟩
      refine ⟨p, List.mem_cons_of_mem r hp, ?_⟩
      rw [if_pos hkept]
      omega
    · obtain ⟨p, hp, hfar⟩ := far_of_countP (a := a) rs q hsep fun p hp =>
        ha p (List.mem_cons_of_mem r hp)
      refine ⟨p, List.mem_cons_of_mem r hp, ?_⟩
      rwa [if_neg hkept]

/-- In a short recording there is no room for many kept runs. -/
theorem countP_lt_of_short {size : ℕ} (hsize : 0 < size) (hshort : stop_frame < 8 * size + 3)
    (h : IsRuns (fun frame => smear stop_frame frame_is_bad frame = true) 0 N rs) :
    rs.dropLast.countP isBadInterval < size := by
  cases rs with
  | nil => exact hsize
  | cons r rs =>
    have hbad : ∀ q ∈ r :: rs, smear stop_frame frame_is_bad q.start = true := fun q hq =>
      (h.mem_iff _ (Nat.zero_le _) (Nat.lt_of_lt_of_le q.lt (h.bounds q hq).2)).mpr
        ⟨q, hq, Nat.le_refl _, q.lt⟩
    have hrange : ∀ q ∈ r :: rs, 2 ≤ q.start ∧ (q.start : ℤ) + 2 < stop_frame := fun q hq =>
      (smear_iff.mp (hbad q hq)).1
    obtain ⟨q, hq, hfar⟩ := far_of_countP (a := 2) rs r (separated_isBadInterval h) fun q hq =>
      ⟨by omega, fun _ => (hrange q hq).1⟩
    have := (hrange q hq).2
    omega

/-- Five of eight frames are bad, up to a frame behind the last ones of these. -/
def crowded (size frame : ℕ) : Bool :=
  decide (2 ≤ frame ∧ frame ≤ 8 * size + 2 ∧ (frame - 2) % 8 < 5)

/-- The frames that are marked. -/
theorem marked_crowded_iff {size frame : ℕ} :
    Marked (crowded size) frame ↔ 2 ≤ frame ∧ frame ≤ 8 * size + 2 ∧ (frame - 2) % 8 < 5 := by
  unfold Marked crowded
  rw [decide_eq_true_iff]
  exact and_iff_right_of_imp fun h => by omega

/-- The five frames of a period. -/
def crowdedRun (k : ℕ) : Run := ⟨8 * k + 2, 8 * k + 7, by omega⟩

variable {size : ℕ}

/-- The five frames of each period are a run after smearing. -/
theorem crowdedRun_mem (hlong : 8 * size + 3 ≤ stop_frame) {k : ℕ} (hk : k < size)
    (h : IsRuns (fun frame => smear stop_frame (crowded size) frame = true) 0 N rs)
    (hN : 8 * size < N) : crowdedRun k ∈ rs := by
  refine h.mem_of_maximal (Nat.succ_pos _) ?_ ?_ ?_ ?_
  · show 8 * k + 7 < N
    omega
  · intro i hi
    have hi : 8 * k + 2 ≤ i ∧ i < 8 * k + 7 := hi
    have hmarked : Marked (crowded size) i := marked_crowded_iff.mpr (by omega)
    exact smear_iff.mpr ⟨by omega, ⟨i, by omega, Nat.le_refl i, hmarked⟩, i, Nat.le_refl i,
      by omega, hmarked⟩
  · show ¬smear stop_frame (crowded size) (8 * k + 2 - 1) = true
    intro hbad
    obtain ⟨-, ⟨i, hi, hi', hmarked⟩, -⟩ := smear_iff.mp hbad
    have := marked_crowded_iff.mp hmarked
    omega
  · show ¬smear stop_frame (crowded size) (8 * k + 7) = true
    intro hbad
    obtain ⟨-, -, i, hi, hi', hmarked⟩ := smear_iff.mp hbad
    have := marked_crowded_iff.mp hmarked
    omega

/-- In a long enough recording the crowded frames give many kept runs before the last run. -/
theorem size_le_countP_crowded (hlong : 8 * size + 3 ≤ stop_frame)
    (h : IsRuns (fun frame => smear stop_frame (crowded size) frame = true) 0 N rs)
    (hN : 8 * size < N) : size ≤ rs.dropLast.countP isBadInterval := by
  rcases Nat.eq_zero_or_pos size with rfl | hsize
  · exact Nat.zero_le _
  -- One more frame is bad, between the marked frames on its sides.
  have hbad : smear stop_frame (crowded size) (8 * size) = true :=
    smear_iff.mpr ⟨by omega,
      ⟨8 * size - 2, by omega, by omega, marked_crowded_iff.mpr (by omega)⟩,
      8 * size + 2, by omega, by omega, marked_crowded_iff.mpr (by omega)⟩
  obtain ⟨q, hq, hstart, hfinish⟩ := (h.mem_iff _ (Nat.zero_le _) hN).mp hbad
  have hsplit := List.dropLast_concat_getLast (List.ne_nil_of_mem hq)
  have hsep := h.separated
  rw [← hsplit] at hsep hq
  have hbefore := (List.pairwise_append.mp hsep).2.2
  have hmem : (List.range size).map crowdedRun ⊆ rs.dropLast.filter isBadInterval := by
    intro r hr
    obtain ⟨k, hk, rfl⟩ := List.mem_map.mp hr
    have hk := List.mem_range.mp hk
    have hr := crowdedRun_mem hlong hk h hN
    rw [← hsplit] at hr
    refine List.mem_filter.mpr ⟨?_, isBadInterval_iff.mpr (Nat.le_refl _)⟩
    rcases List.mem_append.mp hr with hr | hr
    · exact hr
    · -- It is not the last run, since the frame found above comes later.
      have hlast := List.mem_singleton.mp hr
      have hfinish' : (crowdedRun k).finish = 8 * k + 7 := rfl
      have hstart' : (crowdedRun k).start = 8 * k + 2 := rfl
      rcases List.mem_append.mp hq with hq | hq
      · have := hbefore q hq _ List.mem_cons_self
        rw [← hlast] at this
        omega
      · rw [List.mem_singleton.mp hq, ← hlast] at hfinish
        omega
  have hnodup : ((List.range size).map crowdedRun).Nodup :=
    List.Nodup.map (fun j k hjk => by
      have hstarts : 8 * j + 2 = 8 * k + 2 := congrArg Run.start hjk
      omega) List.nodup_range
  calc size = ((List.range size).map crowdedRun).length := by
        rw [List.length_map, List.length_range]
    _ ≤ (rs.dropLast.filter isBadInterval).length := (hnodup.subperm hmem).length_le
    _ = rs.dropLast.countP isBadInterval := List.countP_eq_length_filter.symm

end Crowded

/-- Nothing is written outside the tables of bad intervals exactly if, before the last run of
smeared bad frames, there are fewer runs that are long enough than the tables have entries. All
flags of a recording are safe exactly if its last frame has a small number. -/
theorem badIntervals_fit_iff (stop_frame : ℤ) :
    (∀ frame_is_bad : ℕ → Bool,
      (∀ i ∈ (badIntervals stop_frame frame_is_bad).written, i < MAX_NUMBER_OF_BAD_INTERVALS) ↔
        (smearedRuns stop_frame frame_is_bad).dropLast.countP isBadInterval <
          MAX_NUMBER_OF_BAD_INTERVALS) ∧
      ((∀ frame_is_bad : ℕ → Bool, ∀ i ∈ (badIntervals stop_frame frame_is_bad).written,
          i < MAX_NUMBER_OF_BAD_INTERVALS) ↔
        stop_frame < 8 * MAX_NUMBER_OF_BAD_INTERVALS + 3) := by
  have hsize : 0 < MAX_NUMBER_OF_BAD_INTERVALS := Nat.zero_lt_succ 999
  have hiff := fun frame_is_bad : ℕ → Bool =>
    written_lt_iff hsize (isRuns_smearedRuns stop_frame frame_is_bad)
  refine ⟨hiff, fun hfit => ?_, fun hshort frame_is_bad => ?_⟩
  · by_contra hlong
    have hmany := size_le_countP_crowded (Int.not_lt.mp hlong) (isRuns_smearedRuns stop_frame _)
      (by omega)
    exact Nat.not_lt.mpr hmany ((hiff _).mp (hfit _))
  · exact (hiff frame_is_bad).mpr (countP_lt_of_short hsize hshort (isRuns_smearedRuns _ _))

/-- Crowded bad intervals overflow the tables, in a recording of 8004 frames. -/
theorem badIntervals_overflow :
    ¬∀ i ∈ (badIntervals 8003 (crowded 1000)).written, i < MAX_NUMBER_OF_BAD_INTERVALS := by
  have hruns := isRuns_smearedRuns 8003 (crowded 1000)
  have hmany : 1000 ≤ (smearedRuns 8003 (crowded 1000)).dropLast.countP isBadInterval :=
    size_le_countP_crowded (by omega) hruns (by omega)
  intro hfit
  exact Nat.not_lt.mpr hmany ((written_lt_iff (Nat.zero_lt_succ 999) hruns).mp hfit)

end TgVoipRate.Pesq
