import TgVoipRate.Pesq.VotesAgree
import TgVoipRate.Pesq.WindowAligned

/-!
# The delays and confidences of the utterances

The votes of some frames say how far the delay is from the estimate, by half a frame at most, and
the confidence is the share of the votes at the peak. So it is between 0 and 1, whether an utterance
is aligned as a whole (`time_align`) or as a part of a longer one (`split_align`). The tables keep
this while utterances are moved and split: it holds for the utterances of every state of the loop,
and of the tables in the end (`delays_refined`). As in `Utterances`, a run with more utterances than
`MAXNUTTERANCES` is one of the functions here, and is undefined in the source.
-/

namespace TgVoipRate.Pesq.Acoustic

open Loops (Loop)

/-! ## What votes say -/

/-- An estimated delay, the delay and the confidence: the delay is within half a frame of the
estimate. -/
structure IsRefined (slot : ℤ × ℤ × ℝ) : Prop where
  delay : slot.2.1 - slot.1 ∈ Set.Ico (-512) 512
  conf : slot.2.2 ∈ Set.Icc 0 1

section Frames

variable (num : Numerics ℝ) (Window : ℕ → ℝ) (ref deg : Signal ℝ)

/-- What votes say, if none of them is above their sum. -/
theorem evaluate_isRefined {sig : AlignSignals ℝ} (hNfft : sig.rate.Align_Nfft = 1024)
    {s : FrameScan ℝ} (hnonneg : 0 ≤ s.hist.Hsum) (h : ∀ i < 1024, s.hist.H i ≤ s.hist.Hsum)
    (estdelay : ℤ) :
    IsRefined (estdelay, (evaluate sig estdelay s).D, (evaluate sig estdelay s).DC) := by
  have hsize : (1024 : ℤ).toNat = 1024 := rfl
  have hhalf : (1024 : ℤ).tdiv 2 = 512 := rfl
  obtain ⟨hle, hlow, hhigh⟩ := histogramPeak_le (by norm_num) hnonneg h
  refine ⟨?_, evaluate_DC_nonneg sig estdelay s, ?_⟩
  · unfold evaluate
    dsimp only
    rw [hNfft, hsize, hhalf, add_sub_cancel_left]
    split
    · exact ⟨by omega, by omega⟩
    · exact ⟨by omega, by omega⟩
  · unfold evaluate
    dsimp only
    rw [hNfft, hsize]
    split
    · exact div_le_one_of_le₀ hle hnonneg
    · exact zero_le_one

/-- What spread votes say. -/
theorem SpreadOf.isRefined {single s : FrameScan ℝ} (h : SpreadOf single s) {estdelay : ℤ}
    {part : Aligned ℝ} (hpart : part = evaluate (windowSignals num Window ref deg) estdelay s) :
    IsRefined (estdelay, part.D, part.DC) := by
  rw [hpart]
  refine evaluate_isRefined rfl ?_ (fun i hi => ?_) estdelay
  · rcases h.Hsum_cases with hpos | ⟨hzero, -⟩
    · exact hpos.le
    · exact hzero.ge
  · rw [h.H i hi, h.Hsum]
    exact (spread_mem h.nonneg i).2

variable {num} (hnum : Exact num)

include hnum

/-- Any frames from a cleared histogram on have spread votes. -/
theorem exists_spreadOf {hop : ℤ} (frames : Loop (FrameScan ℝ)) {start : FrameScan ℝ}
    (hbody : frames.body = addFrame (windowSignals num Window ref deg) hop)
    (hclear : start.hist = Histogram.clear) : ∃ single, SpreadOf single (frames.run start) := by
  refine frames.run_invariant (I := fun s => ∃ single, SpreadOf single s) (fun s _ h => ?_)
    ⟨start, SpreadOf.clear hclear⟩
  obtain ⟨single, h⟩ := h
  rw [hbody]
  exact ⟨_, h.step Window ref deg hnum hop⟩

/-- What `time_align` finds. -/
theorem time_align_isRefined (err : ErrorInfo ℝ) (Utt_id : ℤ) :
    IsRefined (err.Utt_DelayEst Utt_id,
      time_align (transforms num ref deg) (alignSignals num ref deg) err Utt_id) := by
  have hspread := spreadOf_forwardFrames (alignWindow num) ref deg hnum (err.UttSearch_End Utt_id)
    (err.UttSearch_Start Utt_id) (err.Utt_DelayEst Utt_id)
  rw [time_align_eq num hnum ref deg err Utt_id]
  exact hspread.isRefined num (alignWindow num) ref deg rfl

variable {N_BPs bp : ℕ} {Utt_BPs : ℕ → ℤ}

/-- The part before a point. -/
theorem firstParts_isRefined (Utt_Start : ℤ) (hBPs : StrictMonoOn Utt_BPs (Set.Iio N_BPs))
    (hbp : bp < N_BPs) (Utt_ED1 Utt_D1 : ℕ → ℤ) {part : Aligned ℝ}
    (hpart : firstParts (windowSignals num Window ref deg) Utt_Start N_BPs Utt_BPs Utt_ED1 Utt_D1
      bp = part) : IsRefined (Utt_ED1 bp, part.D, part.DC) := by
  obtain ⟨single, h⟩ := exists_spreadOf Window ref deg hnum
    (forwardFrames (windowSignals num Window ref deg) (Utt_BPs bp)) rfl
    (forwardStart_hist _ Utt_Start (Utt_ED1 bp))
  exact h.isRefined num Window ref deg (hpart.symm.trans (firstParts_eq _ _ hBPs _ _ hbp))

/-- The part behind a point whose first part is aligned with more confidence than the whole. -/
theorem secondParts_isRefined (Utt_End : ℤ) {Utt_DelayConf : ℝ} {first : ℕ → Aligned ℝ}
    (hBPs : StrictMonoOn Utt_BPs (Set.Iio N_BPs)) (hbp : bp < N_BPs)
    (hconf : (first bp).DC > Utt_DelayConf) (Utt_ED2 Utt_D2 : ℕ → ℤ) {part : Aligned ℝ}
    (hpart : secondParts (windowSignals num Window ref deg) Utt_End Utt_DelayConf first N_BPs
      Utt_BPs Utt_ED2 Utt_D2 bp = part) : IsRefined (Utt_ED2 bp, part.D, part.DC) := by
  obtain ⟨single, h⟩ := exists_spreadOf Window ref deg hnum
    (backwardFrames (windowSignals num Window ref deg) (Utt_BPs bp)) rfl
    (backwardStart_hist _ Utt_End (Utt_ED2 bp))
  have hsecond := secondParts_eq (windowSignals num Window ref deg) Utt_End Utt_DelayConf first hBPs
    Utt_ED2 Utt_D2 hbp
  rw [if_pos hconf] at hsecond
  exact h.isRefined num Window ref deg (hpart.symm.trans hsecond)

/-! ## The choice of a point -/

omit hnum in
/-- Either no point was chosen, or the best one is one of the points, and both of its parts are
aligned with more confidence than the whole. -/
theorem foldl_choose_eq (rate : Rate) (Utt_DelayConf : ℝ) (pts : Points ℝ) (best : Best ℝ) (n : ℕ) :
    (List.range n).foldl (choose rate Utt_DelayConf pts) best = best ∨
      ∃ bp < n, (pts.first bp).DC > Utt_DelayConf ∧
        (List.range n).foldl (choose rate Utt_DelayConf pts) best =
          { Best_ED1 := pts.Utt_ED1 bp
            Best_D1 := (pts.first bp).D
            Best_DC1 := (pts.first bp).DC
            Best_ED2 := pts.Utt_ED2 bp
            Best_D2 := (pts.second bp).D
            Best_DC2 := (pts.second bp).DC
            Best_BP := pts.Utt_BPs bp } := by
  induction n with
  | zero => exact Or.inl rfl
  | succ n ih =>
    rw [List.range_succ, List.foldl_append, List.foldl_cons, List.foldl_nil]
    generalize (List.range n).foldl (choose rate Utt_DelayConf pts) best = best' at ih ⊢
    unfold choose
    split
    · rename_i hbetter
      exact Or.inr ⟨n, n.lt_succ_self, hbetter.2.2.1, rfl⟩
    · rcases ih with ih | ⟨bp, hbp, hbest⟩
      · exact Or.inl ih
      · exact Or.inr ⟨bp, by omega, hbest⟩

/-- If `split_align` finds parts that are aligned with more confidence than the whole, both have
delays that votes have found. -/
theorem split_align_isRefined (al : Aligner ℝ) (locals : SplitLocals) (unset : Unset)
    (err : ErrorInfo ℝ) {a : SplitArgs ℝ} (hlong : 2 ≤ a.Utt_Len) (hconf : 0 ≤ a.Utt_DelayConf)
    {res : SplitResult ℝ}
    (hres : split_align al (windowSignals num Window ref deg) locals unset err a = res)
    (hbetter : res.isBetter a) :
    IsRefined (res.Best_ED1, res.Best_D1, res.Best_DC1) ∧
      IsRefined (res.Best_ED2, res.Best_D2, res.Best_DC2) := by
  have hBPs := breakpoints_strictMonoOn (windowSignals num Window ref deg) hlong
  subst hres
  unfold split_align at hbetter ⊢
  generalize estimates al (windowSignals num Window ref deg) unset err a = e at hbetter ⊢
  rcases foldl_choose_eq (windowSignals num Window ref deg).rate a.Utt_DelayConf
    (alignPoints (windowSignals num Window ref deg) unset a e.Utt_ED1 e.Utt_ED2)
    { locals with Best_DC1 := 0, Best_DC2 := 0 }
    (breakpoints (windowSignals num Window ref deg).rate a).length with
    hnone | ⟨bp, hbp, hfirst, hbest⟩
  · -- The confidence 0 of no point does not exceed that of the whole.
    have hpos : (0 : ℝ) > a.Utt_DelayConf := by
      have hDC1 := hbetter.1
      dsimp only at hDC1
      rwa [hnone] at hDC1
    exact absurd hpos (not_lt.mpr hconf)
  · dsimp only
    rw [hbest]
    exact ⟨firstParts_isRefined Window ref deg hnum _ hBPs hbp _ _ rfl,
      secondParts_isRefined Window ref deg hnum _ hBPs hbp hfirst _ _ rfl⟩

end Frames

/-! ## The tables -/

/-- What the tables have about the delay of an utterance. -/
def slotOf (err : ErrorInfo ℝ) (Utt_id : ℤ) : ℤ × ℤ × ℝ :=
  (err.Utt_DelayEst Utt_id, err.Utt_Delay Utt_id, err.Utt_DelayConf Utt_id)

/-- The delays of all utterances are within half a frame of the estimates, with confidences between
0 and 1. -/
def AllRefined (err : ErrorInfo ℝ) : Prop :=
  ∀ Utt_id, 0 ≤ Utt_id → Utt_id < err.Nutterances → IsRefined (slotOf err Utt_id)

/-- `id_utterances` keeps what is known about the delays. -/
theorem slotOf_id_utterances (sig : Signals ℝ) (err : ErrorInfo ℝ) :
    slotOf (id_utterances sig err).err = slotOf err := by
  have hscan : slotOf (scan record_start record_end sig err).err = slotOf err :=
    scan_frame slotOf (fun _ _ _ => rfl) fun _ _ _ => rfl
  have hseparate : ∀ (err : ErrorInfo ℝ) u, slotOf (separate sig err u) = slotOf err :=
    fun err u => by
      unfold separate
      dsimp only
      split <;> rfl
  have hclamp : ∀ err : ErrorInfo ℝ, slotOf (clampEnd sig (clampStart sig err)) = slotOf err :=
    fun err => by
      unfold clampEnd clampStart
      dsimp only
      split <;> split <;> rfl
  show slotOf ((utterancesFrom 1 err).foldl (separate sig) _) = _
  rw [foldl_frame slotOf (separate sig) hseparate, hclamp, foldl_frame slotOf meet fun _ _ => rfl]
  exact hscan

/-- The entries of the parts in the tables. -/
theorem insertParts_slot {T₁ T₂ : ℤ → ℤ} {T₃ : ℤ → ℝ} {N Utt_id : ℤ} {x y : ℤ × ℤ × ℝ} (i : ℤ) :
    (insertParts T₁ N Utt_id x.1 y.1 i, insertParts T₂ N Utt_id x.2.1 y.2.1 i,
      insertParts T₃ N Utt_id x.2.2 y.2.2 i) =
        insertParts (fun i => (T₁ i, T₂ i, T₃ i)) N Utt_id x y i := by
  unfold insertParts
  split
  · rfl
  split
  · rfl
  split <;> rfl

/-- A split keeps what is known about the delays, and has that of the parts. -/
theorem AllRefined.split {err : ErrorInfo ℝ} (h : AllRefined err) (sig : Signals ℝ)
    {res : SplitResult ℝ} {Utt_id : ℤ} (hid : 0 ≤ Utt_id) (hlast : Utt_id < err.Nutterances)
    (hfirst : IsRefined (res.Best_ED1, res.Best_D1, res.Best_DC1))
    (hsecond : IsRefined (res.Best_ED2, res.Best_D2, res.Best_DC2)) :
    AllRefined (split sig res Utt_id err) := by
  intro i hi hiN
  rw [split_Nutterances] at hiN
  obtain ⟨hEst, hDelay, hConf⟩ := split_insertParts sig res hlast
  unfold slotOf
  rw [hEst, hDelay, hConf, insertParts_slot (x := (res.Best_ED1, res.Best_D1, res.Best_DC1))
    (y := (res.Best_ED2, res.Best_D2, res.Best_DC2)) i]
  exact insertParts_forall hfirst hsecond h hid hlast hi (by omega)

/-- The slot that `split_align` uses for itself is not that of an utterance. -/
theorem AllRefined.useTestSlot {err : ErrorInfo ℝ} (h : AllRefined err)
    (hroom : err.Nutterances < MAXNUTTERANCES) (res : SplitResult ℝ) :
    AllRefined (useTestSlot res err) := by
  intro i hi hiN
  change i < err.Nutterances at hiN
  have hne : i ≠ MAXNUTTERANCES - 1 := by omega
  have hkeep : slotOf (Pesq.useTestSlot res err) i = slotOf err i := by
    unfold slotOf Pesq.useTestSlot
    dsimp only
    rw [Function.update_of_ne hne, Function.update_of_ne hne]
  rw [hkeep]
  exact h i hi hiN

/-- The tables with an estimate by `crude_align`. -/
def withEstimate (al : Aligner ℝ) (err : ErrorInfo ℝ) (Utt_id : ℤ) : ErrorInfo ℝ :=
  { err with Utt_DelayEst := Function.update err.Utt_DelayEst Utt_id (al.crude_align err Utt_id) }

/-- The utterance whose delay is found. -/
theorem slotOf_align_self (al : Aligner ℝ) (err : ErrorInfo ℝ) (Utt_id : ℤ) :
    slotOf (align al err Utt_id) Utt_id =
      ((withEstimate al err Utt_id).Utt_DelayEst Utt_id,
        al.time_align (withEstimate al err Utt_id) Utt_id) :=
  Prod.ext rfl (Prod.ext (Function.update_self ..) (Function.update_self ..))

/-- The other utterances. -/
theorem slotOf_align_of_ne (al : Aligner ℝ) (err : ErrorInfo ℝ) {Utt_id i : ℤ} (hi : i ≠ Utt_id) :
    slotOf (align al err Utt_id) i = slotOf err i :=
  Prod.ext (Function.update_of_ne hi ..)
    (Prod.ext (Function.update_of_ne hi ..) (Function.update_of_ne hi ..))

section Run

variable {num : Numerics ℝ} (ref deg : Signal ℝ) (hnum : Exact num)

include hnum

/-- Finding the delay of an utterance gives it one that votes have found, and keeps the others. -/
theorem slotOf_align (err : ErrorInfo ℝ) (Utt_id i : ℤ)
    (h : i = Utt_id ∨ IsRefined (slotOf err i)) :
    IsRefined (slotOf
      (align (aligner (transforms num ref deg) (alignSignals num ref deg)) err Utt_id) i) := by
  by_cases hi : i = Utt_id
  · rw [hi, slotOf_align_self]
    exact time_align_isRefined ref deg hnum (withEstimate
      (aligner (transforms num ref deg) (alignSignals num ref deg)) err Utt_id) Utt_id
  · rw [slotOf_align_of_ne _ _ hi]
    exact h.resolve_left hi

/-- The delays of some utterances. -/
theorem slotOf_foldl_align (i : ℤ) : ∀ (Utt_ids : List ℤ) (err : ErrorInfo ℝ),
    i ∈ Utt_ids ∨ IsRefined (slotOf err i) → IsRefined (slotOf (Utt_ids.foldl
      (align (aligner (transforms num ref deg) (alignSignals num ref deg))) err) i) := by
  intro Utt_ids
  induction Utt_ids with
  | nil => exact fun err h => h.resolve_left List.not_mem_nil
  | cons Utt_id Utt_ids ih =>
    intro err h
    refine ih _ ?_
    rcases h with hmem | hrefined
    · rcases List.mem_cons.mp hmem with hi | hlater
      · exact Or.inr (slotOf_align ref deg hnum err Utt_id i (Or.inl hi))
      · exact Or.inl hlater
    · exact Or.inr (slotOf_align ref deg hnum err Utt_id i (Or.inr hrefined))

/-- Before utterances are split, all of their delays are found. -/
theorem locate_allRefined (err : ErrorInfo ℝ) :
    AllRefined (locate (aligner (transforms num ref deg) (alignSignals num ref deg))
      (alignSignals num ref deg).toSignals err).err := by
  intro i hi hiN
  rw [locate_Nutterances] at hiN
  unfold locate
  rw [slotOf_id_utterances]
  exact slotOf_foldl_align ref deg hnum i _ _ (Or.inl (mem_utterancesFrom.mpr ⟨hi, hiN⟩))

/-- One step of the loop that splits utterances. -/
theorem AllRefined.step (locals : SplitLocals) (unset : Unset) {s : SplitState ℝ}
    (h : AllRefined s.err) (hid : 0 ≤ s.Utt_id) (hrunning : s.Running) :
    AllRefined (splitStep (split_align_on num ref deg locals unset)
      (alignSignals num ref deg).toSignals s).err := by
  obtain ⟨hlast, hroom⟩ := hrunning
  unfold splitStep
  dsimp only
  split
  · rename_i hlong
    split
    · rename_i hbetter
      have hconf : 0 ≤ s.err.Utt_DelayConf s.Utt_id := (h s.Utt_id hid hlast).conf.1
      obtain ⟨hfirst, hsecond⟩ := split_align_isRefined _ ref deg hnum
        (aligner (transforms num ref deg) (alignSignals num ref deg)) locals unset s.err
        (le_trans (by norm_num) hlong) hconf rfl hbetter
      exact (h.useTestSlot hroom _).split _ hid hlast hfirst hsecond
    · exact h.useTestSlot hroom _
  · exact h

/-- The whole loop. -/
theorem splitLoop_allRefined (locals : SplitLocals) (unset : Unset) (s : SplitState ℝ)
    (h : AllRefined s.err) (hid : 0 ≤ s.Utt_id) :
    AllRefined (splitLoop (split_align_on num ref deg locals unset)
      (alignSignals num ref deg).toSignals s).err := by
  induction s using splitLoop.induct (split_align_on num ref deg locals unset)
    (alignSignals num ref deg).toSignals with
  | case1 s hrunning ih =>
    rw [splitLoop, if_pos hrunning]
    refine ih (h.step ref deg hnum locals unset hid hrunning) ?_
    rcases splitStep_counters _ _ s with ⟨heq, -⟩ | ⟨heq, -⟩
    · rw [heq]
      exact hid
    · rw [heq]
      exact Int.le_add_one hid
  | case2 s hdone =>
    rw [splitLoop, if_neg hdone]
    exact h

/-- The delay of every utterance that is found is within half a frame of its estimate, and the
confidence in it is between 0 and 1. -/
theorem delays_refined (around : Surroundings ℝ) :
    AllRefined (findUtterances num around ref deg) :=
  splitLoop_allRefined ref deg hnum around.locals around.unset _
    (locate_allRefined ref deg hnum _) le_rfl

end Run

/-- A click and a louder one. -/
theorem delays_refined_click :
    AllRefined (findUtterances realNumerics zeroSurroundings click (click.amplify 2)) :=
  delays_refined click (click.amplify 2) exact_realNumerics zeroSurroundings

end TgVoipRate.Pesq.Acoustic
