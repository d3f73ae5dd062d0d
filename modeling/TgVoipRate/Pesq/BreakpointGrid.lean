import Mathlib.Data.Rat.Floor
import Mathlib.Tactic.IntervalCases
import TgVoipRate.Pesq.SplitAlignSpec

/-!
# The points that `split_align` tries

The loop of `split_align` that fills `Utt_BPs`, with `N_BPs` and the entries that it writes. Its
points are those of a grid from the first one on, as long as they are not too close to the end of
the speech and there are at most 40 (`setPoints_sweeps`); they are the points of the list that the
rest of `split_align` goes through (`breakpoints_eq`).

40 steps are meant to reach beyond the last point of the grid. They do not for 17 lengths of speech
(`lengthsCutShort`): the distance from the ends is rounded down, and the steps are rounded up as one
does with integers, where 0.801 of the length is none. Then the last point of the grid is left out
(`breakpoints_wholeGrid_iff`).
-/

namespace TgVoipRate.Pesq

open Loops (Loop)

variable {𝕜 : Type*}

/-! ## The loop -/

/-- The variables of the loop that sets the points. -/
structure PointScan where
  N_BPs : ℕ
  Utt_BPs : ℕ → ℤ
  /-- The entries of `Utt_BPs` that were written so far. -/
  written : List ℕ

/-- The first point is set before the loop. -/
def firstPoint (Utt_BPs : ℕ → ℤ) (Utt_BP : ℤ) : PointScan where
  N_BPs := 0
  Utt_BPs := Function.update Utt_BPs 0 Utt_BP
  written := [0]

/-- The body of the loop: sets the point behind the last one. -/
def nextPoint (Step : ℤ) (s : PointScan) : PointScan where
  N_BPs := s.N_BPs + 1
  Utt_BPs := Function.update s.Utt_BPs (s.N_BPs + 1) (s.Utt_BPs s.N_BPs + Step)
  written := s.written ++ [s.N_BPs + 1]

/-- The loop, from the first test of its condition on. -/
def pointLoop (Step last : ℤ) : Loop PointScan where
  guard s := s.Utt_BPs s.N_BPs ≤ last ∧ s.N_BPs < 40
  body := nextPoint Step
  variant s := 40 - s.N_BPs
  decreases s hguard := by
    have hroom := hguard.2
    show 40 - (s.N_BPs + 1) < 40 - s.N_BPs
    omega

/-- `N_BPs` and `Utt_BPs` after the loop. The body is run once before the condition is tested. -/
def setPoints (rate : Rate) (Utt_BPs : ℕ → ℤ) (a : SplitArgs 𝕜) : PointScan :=
  let Step := breakpointStep rate a.Utt_Len
  let Pad := breakpointPad a.Utt_Len
  (pointLoop Step (a.Utt_SpeechEnd - Pad)).run
    (nextPoint Step (firstPoint Utt_BPs (a.Utt_SpeechStart + Pad)))

/-! ## What it sets -/

/-- Where the condition is tested, the points up to the next one are on the grid, and those that are
counted are not too close to the end, the first one apart. -/
structure Sweeps (Utt_BP Step last : ℤ) (s : PointScan) : Prop where
  entries : ∀ i ≤ s.N_BPs, s.Utt_BPs i = Utt_BP + i * Step
  started : 0 < s.N_BPs
  room : s.N_BPs ≤ 40
  counted : ∀ i < s.N_BPs, 0 < i → Utt_BP + i * Step ≤ last
  written : ∀ i ∈ s.written, i ≤ s.N_BPs

/-- The first two points. -/
theorem sweeps_first (Utt_BPs : ℕ → ℤ) (Utt_BP Step last : ℤ) :
    Sweeps Utt_BP Step last (nextPoint Step (firstPoint Utt_BPs Utt_BP)) where
  entries i hi := by
    have hcases : i = 0 ∨ i = 1 := by
      have hle : i ≤ 1 := hi
      omega
    rcases hcases with rfl | rfl <;> simp [nextPoint, firstPoint]
  started := Nat.one_pos
  room := by
    show 1 ≤ 40
    omega
  counted i hi hpos := by
    have hlt : i < 1 := hi
    omega
  written i hi := by
    show i ≤ 1
    simp only [nextPoint, firstPoint, List.cons_append, List.nil_append, List.mem_cons,
      List.not_mem_nil, or_false] at hi
    omega

/-- A round goes on along the grid. -/
theorem Sweeps.next {Utt_BP Step last : ℤ} {s : PointScan} (h : Sweeps Utt_BP Step last s)
    (hguard : (pointLoop Step last).guard s) :
    Sweeps Utt_BP Step last ((pointLoop Step last).body s) where
  entries i hi := by
    show Function.update s.Utt_BPs (s.N_BPs + 1) (s.Utt_BPs s.N_BPs + Step) i = _
    rcases Nat.le_succ_iff.mp hi with hbefore | rfl
    · rw [Function.update_of_ne (by omega), h.entries i hbefore]
    · rw [Function.update_self, h.entries _ le_rfl]
      push_cast
      ring
  started := Nat.succ_pos _
  room := hguard.2
  counted i hi hpos := by
    rcases Nat.lt_succ_iff_lt_or_eq.mp hi with hbefore | rfl
    · exact h.counted i hbefore hpos
    · rw [← h.entries _ le_rfl]
      exact hguard.1
  written i hi := by
    show i ≤ s.N_BPs + 1
    rcases List.mem_append.mp hi with hbefore | hnew
    · exact (h.written i hbefore).trans (Nat.le_succ _)
    · exact (List.mem_singleton.mp hnew).le

/-- The points that the loop sets: it ends without room or behind the last point of the grid. -/
theorem setPoints_sweeps (rate : Rate) (Utt_BPs : ℕ → ℤ) (a : SplitArgs 𝕜) :
    let Utt_BP := a.Utt_SpeechStart + breakpointPad a.Utt_Len
    let Step := breakpointStep rate a.Utt_Len
    let last := a.Utt_SpeechEnd - breakpointPad a.Utt_Len
    let s := setPoints rate Utt_BPs a
    Sweeps Utt_BP Step last s ∧ (s.N_BPs = 40 ∨ last < Utt_BP + s.N_BPs * Step) := by
  intro Utt_BP Step last s
  have hsweeps : Sweeps Utt_BP Step last s :=
    (pointLoop Step last).run_invariant (fun _ hguard h => h.next hguard)
      (sweeps_first Utt_BPs Utt_BP Step last)
  refine ⟨hsweeps, ?_⟩
  have hover : ¬(s.Utt_BPs s.N_BPs ≤ last ∧ s.N_BPs < 40) := (pointLoop Step last).not_guard_run _
  rw [hsweeps.entries _ le_rfl] at hover
  have hroom := hsweeps.room
  omega

/-! ## The list of the points -/

/-- The points that are still to come when the condition is tested. -/
def pointsBehind (Step last : ℤ) (s : PointScan) : List ℤ :=
  if s.Utt_BPs s.N_BPs ≤ last then
    breakpointsFrom Step last (40 - s.N_BPs) (s.Utt_BPs s.N_BPs)
  else []

/-- A round takes the first one of the points to come. -/
theorem pointsBehind_next {Step last : ℤ} {s : PointScan} (hguard : (pointLoop Step last).guard s) :
    (List.range (s.N_BPs + 1)).map (nextPoint Step s).Utt_BPs ++
        pointsBehind Step last (nextPoint Step s) =
      (List.range s.N_BPs).map s.Utt_BPs ++ pointsBehind Step last s := by
  obtain ⟨hlast, hroom⟩ := hguard
  have hkept : ∀ i ≤ s.N_BPs, (nextPoint Step s).Utt_BPs i = s.Utt_BPs i := fun i hi =>
    Function.update_of_ne (by omega) _ _
  have hset : (nextPoint Step s).Utt_BPs (nextPoint Step s).N_BPs = s.Utt_BPs s.N_BPs + Step :=
    Function.update_self _ _ _
  have hleft : 40 - s.N_BPs = 40 - (nextPoint Step s).N_BPs + 1 := by
    show 40 - s.N_BPs = 40 - (s.N_BPs + 1) + 1
    omega
  have hfront : (List.range s.N_BPs).map (nextPoint Step s).Utt_BPs =
      (List.range s.N_BPs).map s.Utt_BPs :=
    List.map_congr_left fun i hi => hkept i (List.mem_range.mp hi).le
  rw [List.range_succ, List.map_append, hfront, List.append_assoc]
  congr 1
  show [(nextPoint Step s).Utt_BPs s.N_BPs] ++ _ = _
  unfold pointsBehind
  rw [if_pos hlast, hset, hkept _ le_rfl, hleft]
  rfl

/-- The loop sets the points of the list that `split_align` goes through. -/
theorem breakpoints_eq (rate : Rate) (Utt_BPs : ℕ → ℤ) (a : SplitArgs 𝕜) :
    breakpoints rate a =
      (List.range (setPoints rate Utt_BPs a).N_BPs).map (setPoints rate Utt_BPs a).Utt_BPs := by
  obtain ⟨hsweeps, hend⟩ := setPoints_sweeps rate Utt_BPs a
  have hlist :
      (List.range (setPoints rate Utt_BPs a).N_BPs).map (setPoints rate Utt_BPs a).Utt_BPs ++
        pointsBehind (breakpointStep rate a.Utt_Len) (a.Utt_SpeechEnd - breakpointPad a.Utt_Len)
          (setPoints rate Utt_BPs a) = breakpoints rate a := by
    refine (pointLoop _ _).run_invariant (I := fun s =>
      (List.range s.N_BPs).map s.Utt_BPs ++ pointsBehind _ _ s = breakpoints rate a)
      (fun s hguard h => (pointsBehind_next hguard).trans h) ?_
    simp [pointsBehind, nextPoint, firstPoint, breakpoints, breakpointsFrom]
  have hnone : pointsBehind (breakpointStep rate a.Utt_Len)
      (a.Utt_SpeechEnd - breakpointPad a.Utt_Len) (setPoints rate Utt_BPs a) = [] := by
    unfold pointsBehind
    rcases hend with hfull | hbehind
    · rw [hfull]
      split <;> rfl
    · rw [if_neg]
      rw [hsweeps.entries _ le_rfl]
      exact not_le.mpr hbehind
  rw [← hlist, hnone, List.append_nil]

/-! ## The grid -/

/-- A point of the grid that starts at the first point, and is not too close to the end of the
speech. -/
def OnGrid (Utt_BP Step last point : ℤ) : Prop :=
  ∃ i : ℕ, point = Utt_BP + i * Step ∧ point ≤ last

/-- The points that are counted are the first 40 of the grid. -/
theorem Sweeps.counted_iff {Utt_BP Step last : ℤ} {s : PointScan} (h : Sweeps Utt_BP Step last s)
    (hend : s.N_BPs = 40 ∨ last < Utt_BP + s.N_BPs * Step) (hStep : 0 < Step)
    (hfirst : Utt_BP ≤ last) (point : ℤ) :
    (∃ bp < s.N_BPs, s.Utt_BPs bp = point) ↔
      ∃ i < 40, point = Utt_BP + (i : ℕ) * Step ∧ point ≤ last := by
  constructor
  · rintro ⟨bp, hbp, rfl⟩
    have hentry := h.entries bp hbp.le
    refine ⟨bp, hbp.trans_le h.room, hentry, ?_⟩
    rw [hentry]
    cases bp with
    | zero => simpa using hfirst
    | succ bp => exact h.counted _ hbp (Nat.succ_pos bp)
  · rintro ⟨i, hi, rfl, hlast⟩
    have hcounted : i < s.N_BPs := by
      by_contra hbehind
      rcases hend with hfull | hover
      · omega
      · -- The points grow with their numbers.
        have hgrow : (s.N_BPs : ℤ) * Step ≤ i * Step :=
          mul_le_mul_of_nonneg_right (by omega) hStep.le
        omega
    exact ⟨i, hcounted, h.entries i hcounted.le⟩

/-- The points that are counted are all points of the grid exactly if 40 steps lead beyond its last
one. -/
theorem Sweeps.wholeGrid_iff {Utt_BP Step last : ℤ} {s : PointScan} (h : Sweeps Utt_BP Step last s)
    (hend : s.N_BPs = 40 ∨ last < Utt_BP + s.N_BPs * Step) (hStep : 0 < Step)
    (hfirst : Utt_BP ≤ last) :
    (∀ point, (∃ bp < s.N_BPs, s.Utt_BPs bp = point) ↔ OnGrid Utt_BP Step last point) ↔
      last < Utt_BP + 40 * Step := by
  constructor
  · intro hwhole
    by_contra hcut
    obtain ⟨i, hi, hpoint, -⟩ := (h.counted_iff hend hStep hfirst _).mp
      ((hwhole (Utt_BP + 40 * Step)).mpr ⟨40, rfl, not_lt.mp hcut⟩)
    have hsame : (40 : ℤ) = i := mul_right_cancel₀ hStep.ne' (by omega)
    omega
  · intro hlast point
    rw [h.counted_iff hend hStep hfirst]
    constructor
    · rintro ⟨i, -, hpoint⟩
      exact ⟨i, hpoint⟩
    · rintro ⟨i, rfl, hle⟩
      refine ⟨i, ?_, rfl, hle⟩
      have hlt : (i : ℤ) * Step < 40 * Step := by omega
      exact_mod_cast lt_of_mul_lt_mul_right hlt hStep.le

/-! ## The lengths of speech -/

/-- For both sample rates the distance of two points is four windows for each 160 that fit into
0.801 of the length and 159 more. -/
theorem breakpointStep_eq {rate : Rate} (hrate : rate = rate_16k ∨ rate = rate_8k) {Utt_Len : ℤ}
    (h : 0 ≤ Utt_Len) :
    breakpointStep rate Utt_Len = (801 * Utt_Len + 159000) / 160000 * 4 := by
  have hstep : breakpointStep rate Utt_Len = (801 * Utt_Len + 159000).tdiv 160000 * 4 := by
    rcases hrate with rfl | rfl <;> rfl
  rw [hstep, Int.tdiv_eq_ediv_of_nonneg (by omega)]

/-- This is what the formula of the code gives with the rational number 0.801. -/
theorem breakpointStep_eq_floor {rate : Rate} (hrate : rate = rate_16k ∨ rate = rate_8k)
    {Utt_Len : ℤ} (h : 0 ≤ Utt_Len) :
    breakpointStep rate Utt_Len =
      ⌊((801 / 1000 * Utt_Len + 40 * 4 - 1) / (40 * 4) : ℚ)⌋ * 4 := by
  have hquotient : ((801 / 1000 * Utt_Len + 40 * 4 - 1) / (40 * 4) : ℚ) =
      ((801 * Utt_Len + 159000 : ℤ) : ℚ) / ((160000 : ℕ) : ℚ) := by
    push_cast
    ring
  calc breakpointStep rate Utt_Len = (801 * Utt_Len + 159000) / (160000 : ℕ) * 4 :=
        breakpointStep_eq hrate h
    _ = ⌊((801 * Utt_Len + 159000 : ℤ) : ℚ) / ((160000 : ℕ) : ℚ)⌋ * 4 := by
        rw [Rat.floor_intCast_div_natCast]
    _ = _ := by rw [hquotient]

/-- The lengths of speech for which 40 steps end at the last point of the grid or one window before
it. -/
def lengthsCutShort : List ℤ :=
  [798, 799, 800, 998, 999, 1198, 1199, 1398, 1399, 1598, 1599, 1798, 1799, 1998, 2198, 2398, 2598]

/-- For all other lengths, and only for them, 40 steps lead beyond the last point. -/
theorem steps_reach_iff {Utt_Len : ℤ} (h : 200 ≤ Utt_Len) :
    Utt_Len - 2 * breakpointPad Utt_Len < 40 * ((801 * Utt_Len + 159000) / 160000 * 4) ↔
      Utt_Len ∉ lengthsCutShort := by
  constructor
  · intro hreach hmem
    have hcut : ∀ short ∈ lengthsCutShort,
        ¬short - 2 * breakpointPad short < 40 * ((801 * short + 159000) / 160000 * 4) := by
      decide
    exact hcut Utt_Len hmem hreach
  · intro hmem
    by_contra hcut
    have hpad : (breakpointPad Utt_Len = 75 ∧ Utt_Len < 750) ∨
        (breakpointPad Utt_Len = Utt_Len / 10 ∧ 750 ≤ Utt_Len) := by
      unfold breakpointPad
      rw [Int.tdiv_eq_ediv_of_nonneg (by omega)]
      split <;> omega
    obtain ⟨m, hm⟩ : ∃ m, m = (801 * Utt_Len + 159000) / 160000 := ⟨_, rfl⟩
    rw [← hm] at hcut
    -- A length of 3000 gains 3 windows by the 0.001; more than that is not lost.
    have hshort : 1 ≤ m ∧ m ≤ 15 := by omega
    obtain ⟨hone, hfifteen⟩ := hshort
    refine hmem ?_
    simp only [lengthsCutShort, List.mem_cons, List.not_mem_nil, or_false]
    interval_cases m <;> omega

/-! ## The points tried -/

/-- The points are apart, those that are tried are the points of the grid, and nothing is written
behind the entry 40 of `Utt_BPs`, nor of the arrays with an entry for each point. -/
structure TestsWholeGrid (rate : Rate) (a : SplitArgs 𝕜) (s : PointScan) : Prop where
  Step_pos : 0 < breakpointStep rate a.Utt_Len
  tested : ∀ point, (∃ bp < s.N_BPs, s.Utt_BPs bp = point) ↔
    OnGrid (a.Utt_SpeechStart + breakpointPad a.Utt_Len) (breakpointStep rate a.Utt_Len)
      (a.Utt_SpeechEnd - breakpointPad a.Utt_Len) point
  written : ∀ i ∈ s.written, i ≤ 40
  room : s.N_BPs ≤ 40

section Rates

variable {rate : Rate} (hrate : rate = rate_16k ∨ rate = rate_8k) (Utt_BPs : ℕ → ℤ)
  {a : SplitArgs 𝕜} (hlong : 200 ≤ a.Utt_Len)
include hrate hlong

/-- The whole grid is tried exactly if 40 steps lead beyond its last point. -/
theorem testsWholeGrid_iff_steps :
    TestsWholeGrid rate a (setPoints rate Utt_BPs a) ↔
      a.Utt_Len - 2 * breakpointPad a.Utt_Len < 40 * breakpointStep rate a.Utt_Len := by
  obtain ⟨hsweeps, hend⟩ := setPoints_sweeps rate Utt_BPs a
  have hStep : 0 < breakpointStep rate a.Utt_Len := by
    rw [breakpointStep_eq hrate (by omega)]
    omega
  have hlen : a.Utt_Len = a.Utt_SpeechEnd - a.Utt_SpeechStart := rfl
  have hpad : 2 * breakpointPad a.Utt_Len ≤ a.Utt_Len := by
    unfold breakpointPad
    rw [Int.tdiv_eq_ediv_of_nonneg (by omega)]
    split <;> omega
  have hgrid := hsweeps.wholeGrid_iff hend hStep (by omega)
  constructor
  · intro h
    have hlast := hgrid.mp h.tested
    omega
  · intro h
    exact
      { Step_pos := hStep
        tested := hgrid.mpr (by omega)
        written := fun i hi => (hsweeps.written i hi).trans hsweeps.room
        room := hsweeps.room }

/-- For both sample rates, every start and every length from 200 on, the points that are tried are
those of the whole grid unless the length is one of 17. -/
theorem breakpoints_wholeGrid_iff :
    TestsWholeGrid rate a (setPoints rate Utt_BPs a) ↔ a.Utt_Len ∉ lengthsCutShort := by
  rw [testsWholeGrid_iff_steps hrate Utt_BPs hlong, breakpointStep_eq hrate (by omega),
    steps_reach_iff hlong]

end Rates

/-- Speech of some length from the first window on that can be speech. -/
def longSpeech (Utt_Len : ℤ) : SplitArgs ℚ where
  Utt_Start := 75
  Utt_SpeechStart := 75
  Utt_SpeechEnd := 75 + Utt_Len
  Utt_End := 75 + Utt_Len
  Utt_DelayEst := 0
  Utt_DelayConf := 0

/-- For a speech of 1000 windows the whole grid is tried. -/
theorem breakpoints_wholeGrid_thousand :
    TestsWholeGrid rate_16k (longSpeech 1000) (setPoints rate_16k (fun _ => 0) (longSpeech 1000)) :=
  (breakpoints_wholeGrid_iff (.inl rfl) (fun _ => 0) (by decide)).mpr (by decide)

/-- For a speech of 800 windows, which are 3.2 seconds, the last point of the grid is left out: it
is 40 steps of 16 windows behind the first one. -/
theorem breakpoints_leave_last :
    ¬TestsWholeGrid rate_16k (longSpeech 800) (setPoints rate_16k (fun _ => 0) (longSpeech 800)) :=
  fun h => absurd ((testsWholeGrid_iff_steps (.inl rfl) (fun _ => 0) (by decide)).mp h) (by decide)

end TgVoipRate.Pesq
