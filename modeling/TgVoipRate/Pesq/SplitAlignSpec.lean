import Mathlib
import TgVoipRate.Pesq.SplitAlign

/-!
# The passes of `split_align` share their histograms rightly

The frames that are allowed for a point are the first ones of a sequence (`forward_frames`,
`backward_frames`), and a later point of a pass allows more of them. So the histogram that a point
takes over from an earlier one with the same estimated delay holds what it would hold after the
frames taken so far, and each point gets what a cleared histogram and exactly its own frames give
(`passes_fromScratch`).
-/

namespace TgVoipRate.Pesq

open Loops (Loop Shared)

variable {𝕜 : Type*} [Field 𝕜] [LinearOrder 𝕜]

/-! ## The points -/

/-- The points grow from the first one on. -/
theorem breakpointsFrom_pairwise {Step : ℤ} (hStep : 0 < Step) (last : ℤ) :
    ∀ (room : ℕ) (Utt_BP : ℤ), (breakpointsFrom Step last room Utt_BP).Pairwise (· < ·) ∧
      ∀ x ∈ breakpointsFrom Step last room Utt_BP, Utt_BP ≤ x := by
  intro room
  induction room with
  | zero => exact fun _ => ⟨List.Pairwise.nil, by simp [breakpointsFrom]⟩
  | succ room ih =>
    intro Utt_BP
    obtain ⟨hpairwise, hfrom⟩ := ih (Utt_BP + Step)
    unfold breakpointsFrom
    split
    · refine ⟨List.pairwise_cons.mpr ⟨fun x hx => ?_, hpairwise⟩, fun x hx => ?_⟩
      · have hx' := hfrom x hx
        omega
      · rcases List.mem_cons.mp hx with rfl | hx
        · exact le_rfl
        · have hx' := hfrom x hx
          omega
    · exact ⟨List.pairwise_singleton _ _, fun x hx => (List.mem_singleton.mp hx).ge⟩

omit [Field 𝕜] [LinearOrder 𝕜] in
/-- For a speech of at least two windows the points are apart. -/
theorem AlignSignals.breakpointStep_pos (sig : AlignSignals 𝕜) {Utt_Len : ℤ} (h : 2 ≤ Utt_Len) :
    0 < breakpointStep sig.rate Utt_Len := by
  have hDelta := sig.Delta_pos
  unfold breakpointStep
  dsimp only
  generalize sig.rate.Align_Nfft.tdiv (4 * sig.rate.Downsample) = Delta at *
  have hcount : 1 ≤ (801 * Utt_Len + 1000 * (40 * Delta - 1)).tdiv (1000 * (40 * Delta)) :=
    Int.le_tdiv_of_mul_le (by omega) (by omega)
  exact mul_pos (by omega) hDelta

omit [Field 𝕜] [LinearOrder 𝕜] in
/-- There is a point to try. -/
theorem breakpoints_length_pos (rate : Rate) (a : SplitArgs 𝕜) :
    0 < (breakpoints rate a).length := by
  unfold breakpoints breakpointsFrom
  exact Nat.succ_pos _

omit [Field 𝕜] [LinearOrder 𝕜] in
/-- The points that `split_align` tries get larger. -/
theorem breakpoints_strictMonoOn (sig : AlignSignals 𝕜) {a : SplitArgs 𝕜} (h : 2 ≤ a.Utt_Len) :
    StrictMonoOn (breakpointAt sig.rate a) (Set.Iio (breakpoints sig.rate a).length) := by
  intro i hi j hj hij
  have hpairwise := (breakpointsFrom_pairwise (sig.breakpointStep_pos h)
    (a.Utt_SpeechEnd - breakpointPad a.Utt_Len) 40
    (a.Utt_SpeechStart + breakpointPad a.Utt_Len)).1
  have hlt := List.pairwise_iff_getElem.mp hpairwise i j hi hj hij
  unfold breakpointAt
  rw [List.getD_eq_getElem _ _ hi, List.getD_eq_getElem _ _ hj]
  exact hlt

/-! ## From scratch -/

/-- The votes of a number of frames in a cleared histogram. -/
def votes (sig : AlignSignals 𝕜) (hop startr startd : ℤ) (n : ℕ) : Histogram 𝕜 :=
  (List.range n).foldl
    (fun hist (k : ℕ) => sig.vote (startr + k * hop) (startd + k * hop) hist) Histogram.clear

/-- The result of a part from scratch: of the frames from a start on exactly those vote that are
allowed. -/
def FromScratch (sig : AlignSignals 𝕜) (hop : ℤ) (allowed : ℤ → ℤ → Prop) (start : FrameScan 𝕜)
    (estdelay : ℤ) (r : Aligned 𝕜) : Prop :=
  ∃ n : ℕ, (∀ k : ℕ, allowed (start.startr + k * hop) (start.startd + k * hop) ↔ k < n) ∧
    r = evaluate sig estdelay { start with hist := votes sig hop start.startr start.startd n }

/-- A frame ends before a point, and in the degraded signal. -/
def AllowedBefore (sig : AlignSignals 𝕜) (Utt_BP startr startd : ℤ) : Prop :=
  startd + sig.rate.Align_Nfft ≤ sig.deg_Nsamples ∧
    startr + sig.rate.Align_Nfft ≤ Utt_BP * sig.rate.Downsample

/-- A frame starts behind a point, and in the degraded signal. -/
def AllowedBehind (sig : AlignSignals 𝕜) (Utt_BP startr startd : ℤ) : Prop :=
  0 ≤ startd ∧ Utt_BP * sig.rate.Downsample ≤ startr

/-- The result of the part before a point, from scratch. -/
def BeforePoint (sig : AlignSignals 𝕜) (Utt_Start Utt_BP estdelay : ℤ) (r : Aligned 𝕜) : Prop :=
  FromScratch sig sig.quarter (AllowedBefore sig Utt_BP) (forwardStart sig Utt_Start estdelay)
    estdelay r

/-- The result of the part behind a point, from scratch. -/
def BehindPoint (sig : AlignSignals 𝕜) (Utt_End Utt_BP estdelay : ℤ) (r : Aligned 𝕜) : Prop :=
  FromScratch sig (-sig.quarter) (AllowedBehind sig Utt_BP) (backwardStart sig Utt_End estdelay)
    estdelay r

omit [LinearOrder 𝕜] in
/-- Some frames from a cleared histogram on. -/
theorem addFrame_iterate (sig : AlignSignals 𝕜) (hop : ℤ) {start : FrameScan 𝕜}
    (hclear : start.hist = Histogram.clear) (n : ℕ) :
    (addFrame sig hop)^[n] start =
      { startr := start.startr + n * hop
        startd := start.startd + n * hop
        hist := votes sig hop start.startr start.startd n } := by
  induction n with
  | zero => simp [votes, ← hclear]
  | succ n ih =>
    have hnext : ∀ x : ℤ, x + (n : ℤ) * hop + hop = x + ((n + 1 : ℕ) : ℤ) * hop := fun x => by
      push_cast
      ring
    rw [Function.iterate_succ_apply', ih]
    unfold addFrame votes
    simp only [hnext, List.range_succ, List.foldl_append, List.foldl_cons, List.foldl_nil]

/-- A loop over frames whose guard says which ones are allowed computes from scratch, if a frame is
allowed wherever the next one is. -/
theorem frames_fromScratch {sig : AlignSignals 𝕜} {hop estdelay : ℤ} {allowed : ℤ → ℤ → Prop}
    {start : FrameScan 𝕜} {frames : Loop (FrameScan 𝕜)} (hbody : frames.body = addFrame sig hop)
    (hguard : ∀ s, frames.guard s ↔ allowed s.startr s.startd)
    (hprev : ∀ r d, allowed (r + hop) (d + hop) → allowed r d)
    (hclear : start.hist = Histogram.clear) :
    FromScratch sig hop allowed start estdelay (evaluate sig estdelay (frames.run start)) := by
  obtain ⟨n, -, hends⟩ := frames.run_ends start
  have hstate : ∀ k, frames.body^[k] start =
      { startr := start.startr + k * hop
        startd := start.startd + k * hop
        hist := votes sig hop start.startr start.startd k } :=
    fun k => by rw [hbody, addFrame_iterate sig hop hclear k]
  -- From the end of the loop on no frame is allowed.
  have hover : ∀ k, n ≤ k → ¬allowed (start.startr + k * hop) (start.startd + k * hop) := by
    intro k hk
    induction k, hk using Nat.le_induction with
    | base =>
      have hnot := hends.not_guard
      rwa [← hends.iterate, hstate, hguard] at hnot
    | succ k _ ih =>
      intro hnext
      refine ih (hprev _ _ ?_)
      have hshift : ∀ x : ℤ, x + (k : ℤ) * hop + hop = x + ((k + 1 : ℕ) : ℤ) * hop := fun x => by
        push_cast
        ring
      rwa [hshift, hshift]
  refine ⟨n, fun k => ⟨fun hk => ?_, fun hk => ?_⟩, ?_⟩
  · by_contra hlt
    exact hover k (not_lt.mp hlt) hk
  · have hbefore := hends.guard k hk
    rwa [hstate, hguard] at hbefore
  · rw [← hends.iterate, hstate]
    rfl

/-! ## The two passes -/

omit [LinearOrder 𝕜] in
/-- Where the frames start, the histogram is cleared. -/
theorem forwardStart_hist (sig : AlignSignals 𝕜) (Utt_Start estdelay : ℤ) :
    (forwardStart sig Utt_Start estdelay).hist = Histogram.clear := by
  unfold forwardStart
  dsimp only
  split <;> rfl

omit [LinearOrder 𝕜] in
/-- Where the frames start, the histogram is cleared. -/
theorem backwardStart_hist (sig : AlignSignals 𝕜) (Utt_End estdelay : ℤ) :
    (backwardStart sig Utt_End estdelay).hist = Histogram.clear := by
  unfold backwardStart
  dsimp only
  split <;> rfl

variable [IsStrictOrderedRing 𝕜]

section Passes

variable (sig : AlignSignals 𝕜) (N_BPs : ℕ) (Utt_BPs : ℕ → ℤ)

/-- A point alone computes from scratch. -/
theorem forward_pass_alone (Utt_Start : ℤ) (Utt_ED1 : ℕ → ℤ) (bp : ℕ) :
    BeforePoint sig Utt_Start (Utt_BPs bp) (Utt_ED1 bp)
      ((forward_pass sig Utt_Start N_BPs Utt_BPs Utt_ED1).alone bp) := by
  have hquarter := sig.quarter_le
  refine frames_fromScratch rfl (fun s => Iff.rfl) (fun r d h => ?_) (forwardStart_hist _ _ _)
  obtain ⟨hd, hr⟩ := h
  exact ⟨by omega, by omega⟩

/-- A point alone computes from scratch. -/
theorem backward_pass_alone (Utt_End : ℤ) (Utt_ED2 : ℕ → ℤ) (bp : ℕ) :
    BehindPoint sig Utt_End (Utt_BPs bp) (Utt_ED2 bp)
      ((backward_pass sig Utt_End N_BPs Utt_BPs Utt_ED2).alone bp) := by
  have hquarter := sig.quarter_le
  refine frames_fromScratch rfl (fun s => Iff.rfl) (fun r d h => ?_) (backwardStart_hist _ _ _)
  obtain ⟨hd, hr⟩ := h
  exact ⟨by omega, by omega⟩

variable {N_BPs Utt_BPs}

/-- A later point allows more frames before it. -/
theorem forward_pass_grows (hBPs : StrictMonoOn Utt_BPs (Set.Iio N_BPs)) (Utt_Start : ℤ)
    (Utt_ED1 : ℕ → ℤ) :
    (forward_pass sig Utt_Start N_BPs Utt_BPs Utt_ED1).Grows := by
  refine List.pairwise_lt_range.imp_of_mem fun {i j} hi hj hij _ => ⟨rfl, fun s hs => ⟨hs.1, ?_⟩⟩
  have hBP : Utt_BPs i ≤ Utt_BPs j := (hBPs (List.mem_range.mp hi) (List.mem_range.mp hj) hij).le
  exact hs.2.trans (mul_le_mul_of_nonneg_right hBP sig.Downsample_pos.le)

/-- An earlier point allows more frames behind it. -/
theorem backward_pass_grows (hBPs : StrictMonoOn Utt_BPs (Set.Iio N_BPs)) (Utt_End : ℤ)
    (Utt_ED2 : ℕ → ℤ) :
    (backward_pass sig Utt_End N_BPs Utt_BPs Utt_ED2).Grows := by
  apply List.pairwise_reverse.mpr
  refine List.pairwise_lt_range.imp_of_mem fun {i j} hi hj hij _ => ⟨rfl, fun s hs => ⟨hs.1, ?_⟩⟩
  have hBP : Utt_BPs i ≤ Utt_BPs j := (hBPs (List.mem_range.mp hi) (List.mem_range.mp hj) hij).le
  exact (mul_le_mul_of_nonneg_right hBP sig.Downsample_pos.le).trans hs.2

end Passes

/-- What the first pass gives to a point. -/
theorem firstParts_eq (sig : AlignSignals 𝕜) (Utt_Start : ℤ) {N_BPs : ℕ}
    {Utt_BPs : ℕ → ℤ} (hBPs : StrictMonoOn Utt_BPs (Set.Iio N_BPs)) (Utt_ED1 Utt_D1 : ℕ → ℤ)
    {bp : ℕ} (hbp : bp < N_BPs) :
    firstParts sig Utt_Start N_BPs Utt_BPs Utt_ED1 Utt_D1 bp =
      (forward_pass sig Utt_Start N_BPs Utt_BPs Utt_ED1).alone bp := by
  have hopen : (forward_pass sig Utt_Start N_BPs Utt_BPs Utt_ED1).isOpen
      (forwardInit Utt_D1 bp) := le_refl (-2 : 𝕜)
  unfold firstParts
  rw [Shared.fill_run_eq (forward_pass_grows sig hBPs Utt_Start Utt_ED1) _
    (List.mem_range.mpr hbp), if_pos hopen]

/-- What the second pass gives to a point: those whose first part is not aligned with more
confidence than the whole utterance are left out. -/
theorem secondParts_eq (sig : AlignSignals 𝕜) (Utt_End : ℤ) (Utt_DelayConf : 𝕜)
    (first : ℕ → Aligned 𝕜) {N_BPs : ℕ} {Utt_BPs : ℕ → ℤ}
    (hBPs : StrictMonoOn Utt_BPs (Set.Iio N_BPs)) (Utt_ED2 Utt_D2 : ℕ → ℤ) {bp : ℕ}
    (hbp : bp < N_BPs) :
    secondParts sig Utt_End Utt_DelayConf first N_BPs Utt_BPs Utt_ED2 Utt_D2 bp =
      if (first bp).DC > Utt_DelayConf then
        (backward_pass sig Utt_End N_BPs Utt_BPs Utt_ED2).alone bp
      else { D := Utt_D2 bp, DC := 0 } := by
  have hopen : (backward_pass sig Utt_End N_BPs Utt_BPs Utt_ED2).isOpen
      (backwardInit Utt_DelayConf first Utt_D2 bp) ↔ (first bp).DC > Utt_DelayConf := by
    show (if (first bp).DC > Utt_DelayConf then (-2 : 𝕜) else 0) ≤ -2 ↔ _
    split
    · rename_i hconf
      exact iff_of_true le_rfl hconf
    · rename_i hconf
      exact iff_of_false (not_le.mpr (neg_lt_zero.mpr two_pos)) hconf
  unfold secondParts
  rw [Shared.fill_run_eq (backward_pass_grows sig hBPs Utt_End Utt_ED2) _
    (List.mem_reverse.mpr (List.mem_range.mpr hbp))]
  by_cases hconf : (first bp).DC > Utt_DelayConf
  · rw [if_pos (hopen.mpr hconf), if_pos hconf]
  · rw [if_neg fun h => hconf (hopen.mp h), if_neg hconf]
    unfold backwardInit
    rw [if_neg hconf]

/-- The first part at a point. -/
theorem alignPoints_first (sig : AlignSignals 𝕜) (unset : Unset) {a : SplitArgs 𝕜}
    (hlong : 2 ≤ a.Utt_Len) (Utt_ED1 Utt_ED2 : ℕ → ℤ) {bp : ℕ}
    (hbp : bp < (breakpoints sig.rate a).length) :
    (alignPoints sig unset a Utt_ED1 Utt_ED2).first bp =
      evaluate sig (Utt_ED1 bp) ((forwardFrames sig (breakpointAt sig.rate a bp)).run
        (forwardStart sig a.Utt_Start (Utt_ED1 bp))) :=
  firstParts_eq sig a.Utt_Start (breakpoints_strictMonoOn sig hlong) Utt_ED1 unset.Utt_D1 hbp

/-- The second part at a point, which may be left out. -/
theorem alignPoints_second (sig : AlignSignals 𝕜) (unset : Unset) {a : SplitArgs 𝕜}
    (hlong : 2 ≤ a.Utt_Len) (Utt_ED1 Utt_ED2 : ℕ → ℤ) {bp : ℕ}
    (hbp : bp < (breakpoints sig.rate a).length) :
    (alignPoints sig unset a Utt_ED1 Utt_ED2).second bp =
      if ((alignPoints sig unset a Utt_ED1 Utt_ED2).first bp).DC > a.Utt_DelayConf then
        evaluate sig (Utt_ED2 bp) ((backwardFrames sig (breakpointAt sig.rate a bp)).run
          (backwardStart sig a.Utt_End (Utt_ED2 bp)))
      else { D := unset.Utt_D2 bp, DC := 0 } :=
  secondParts_eq sig a.Utt_End a.Utt_DelayConf _ (breakpoints_strictMonoOn sig hlong) Utt_ED2
    unset.Utt_D2 hbp

/-- Both passes end, and they give each point what a cleared histogram and exactly the frames that
are allowed for the point give: the first pass to every point, the second one to every point whose
first part is aligned with more confidence than the whole utterance. -/
theorem passes_fromScratch (sig : AlignSignals 𝕜) (Utt_Start Utt_End : ℤ) (Utt_DelayConf : 𝕜)
    (N_BPs : ℕ) (Utt_BPs Utt_ED1 Utt_ED2 Utt_D1 Utt_D2 : ℕ → ℤ)
    (hBPs : StrictMonoOn Utt_BPs (Set.Iio N_BPs)) :
    let first := firstParts sig Utt_Start N_BPs Utt_BPs Utt_ED1 Utt_D1
    let second := secondParts sig Utt_End Utt_DelayConf first N_BPs Utt_BPs Utt_ED2 Utt_D2
    (∃ n ≤ N_BPs, (forward_pass sig Utt_Start N_BPs Utt_BPs Utt_ED1).fill.Ends
        (forwardInit Utt_D1) first n) ∧
      (∃ n ≤ N_BPs, (backward_pass sig Utt_End N_BPs Utt_BPs Utt_ED2).fill.Ends
        (backwardInit Utt_DelayConf first Utt_D2) second n) ∧
      (∀ bp < N_BPs, BeforePoint sig Utt_Start (Utt_BPs bp) (Utt_ED1 bp) (first bp)) ∧
      ∀ bp < N_BPs, (first bp).DC > Utt_DelayConf →
        BehindPoint sig Utt_End (Utt_BPs bp) (Utt_ED2 bp) (second bp) := by
  refine ⟨?_, ?_, fun bp hbp => ?_, fun bp hbp hconf => ?_⟩
  · exact Shared.fill_ends _ _ (by simp [forward_pass])
  · exact Shared.fill_ends _ _ (by simp [backward_pass])
  · rw [firstParts_eq sig Utt_Start hBPs Utt_ED1 Utt_D1 hbp]
    exact forward_pass_alone sig N_BPs Utt_BPs Utt_Start Utt_ED1 bp
  · rw [secondParts_eq sig Utt_End Utt_DelayConf _ hBPs Utt_ED2 Utt_D2 hbp, if_pos hconf]
    exact backward_pass_alone sig N_BPs Utt_BPs Utt_End Utt_ED2 bp

/-- Signals whose frames all vote for a shift by one sample. -/
def shiftedSignals : AlignSignals ℚ :=
  AlignSignals.at_16k (fun _ => 1) 40000 40000 (fun _ _ count => if count = 1 then 1 else 0) id

/-- Two points to try. -/
def twoPoints (bp : ℕ) : ℤ := 200 + 100 * bp

/-- The second one of two points that share an estimated delay. -/
theorem passes_fromScratch_two :
    BeforePoint shiftedSignals 75 (twoPoints 1) 0
      (firstParts shiftedSignals 75 2 twoPoints (fun _ => 0) (fun _ => 0) 1) := by
  have hBPs : StrictMonoOn twoPoints (Set.Iio 2) := fun i _ j _ hij => by
    unfold twoPoints
    omega
  exact (passes_fromScratch shiftedSignals 75 500 (1 / 2) 2 twoPoints (fun _ => 0) (fun _ => 0)
    (fun _ => 0) (fun _ => 0) hBPs).2.2.1 1 (by decide)

end TgVoipRate.Pesq
