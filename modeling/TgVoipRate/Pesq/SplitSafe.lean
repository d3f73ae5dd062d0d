import TgVoipRate.Pesq.SplitAlignSpec
import TgVoipRate.Pesq.SplitFrame
import TgVoipRate.Pesq.SplitTrace

/-!
# `utterance_split` is safe

The loop of `utterance_split` with its local variables: those that `split_align` sets only if it
finds a point keep their values from round to round, and the arrays of `split_align` are new in each
call (`splitRounds`). How the frames vote may differ between the calls. What a local variable holds
before it is set is unknown. It never matters, because a part is taken only if its confidence is
larger than that of the utterance, which is not negative (`utterance_split_unset_eq`). The loop
ends, it stays in the tables, and no utterance is in the slot that `split_align` uses for itself
(`utterance_split_safe`).
-/

namespace TgVoipRate.Pesq

open Loops (Loop Shared)

variable {𝕜 : Type*} [Field 𝕜] [LinearOrder 𝕜] [IsStrictOrderedRing 𝕜]

/-! ## The loop with its local variables -/

/-- The variables of the loop. -/
structure SplitRun (𝕜 : Type*) extends SplitState 𝕜 where
  /-- What the last call of `split_align` left in the variables that it sets. -/
  locals : SplitLocals
  /-- The number of rounds so far. -/
  rounds : ℕ

/-- What a call of `split_align` leaves in the variables of `utterance_split`. -/
def SplitResult.locals (res : SplitResult 𝕜) : SplitLocals where
  Best_ED1 := res.Best_ED1
  Best_D1 := res.Best_D1
  Best_ED2 := res.Best_ED2
  Best_D2 := res.Best_D2
  Best_BP := res.Best_BP

/-- One round, with what the arrays of `split_align` hold before they are set. -/
def splitRound (al : Aligner 𝕜) (sig : AlignSignals 𝕜) (votes : CallVotes 𝕜) (unset : ℕ → Unset)
    (s : SplitRun 𝕜) : SplitRun 𝕜 where
  toSplitState := splitStep (split_align_calls al sig votes s.locals (unset s.rounds))
    sig.toSignals s.toSplitState
  locals :=
    if (s.args sig.toSignals).Utt_Len ≥ 200 then
      (split_align_calls al sig votes s.locals (unset s.rounds) s.err
        (s.args sig.toSignals)).locals
    else s.locals
  rounds := s.rounds + 1

/-- The loop of `utterance_split`. -/
def splitRounds (al : Aligner 𝕜) (sig : AlignSignals 𝕜) (votes : CallVotes 𝕜)
    (unset : ℕ → Unset) : Loop (SplitRun 𝕜) where
  guard s := s.Running
  body := splitRound al sig votes unset
  variant s := 2 * (MAXNUTTERANCES - s.err.Nutterances).toNat + (s.err.Nutterances - s.Utt_id).toNat
  decreases s hrunning := by
    obtain ⟨hid, hN⟩ := hrunning
    have hcounters := splitStep_counters (split_align_calls al sig votes s.locals (unset s.rounds))
      sig.toSignals s.toSplitState
    show 2 * (MAXNUTTERANCES - (splitStep _ _ s.toSplitState).err.Nutterances).toNat +
        ((splitStep _ _ s.toSplitState).err.Nutterances -
          (splitStep _ _ s.toSplitState).Utt_id).toNat < _
    omega

/-- The variables before the loop. -/
def SplitRun.init (err : ErrorInfo 𝕜) (locals : SplitLocals) : SplitRun 𝕜 where
  err
  Utt_id := 0
  locals
  rounds := 0

/-- `utterance_split`, with what is not set before it is used. -/
def utterance_split_unset (al : Aligner 𝕜) (sig : AlignSignals 𝕜) (votes : CallVotes 𝕜)
    (locals : SplitLocals) (unset : ℕ → Unset) (err : ErrorInfo 𝕜) : ErrorInfo 𝕜 :=
  setLargest ((splitRounds al sig votes unset).run (SplitRun.init err locals)).err

/-- The slots of the tables that a round reads or writes. -/
def splitRound_touched (al : Aligner 𝕜) (sig : AlignSignals 𝕜) (votes : CallVotes 𝕜)
    (unset : ℕ → Unset) (s : SplitRun 𝕜) : List ℤ :=
  (Traced.round al sig votes s.locals (unset s.rounds) s.Utt_id
    { err := s.err, touched := [] }).touched

/-- They are recorded along with the tables of the round. -/
theorem splitRound_err (al : Aligner 𝕜) (sig : AlignSignals 𝕜) (votes : CallVotes 𝕜)
    (unset : ℕ → Unset) (s : SplitRun 𝕜) :
    Traced.round al sig votes s.locals (unset s.rounds) s.Utt_id { err := s.err, touched := [] } =
      { err := (splitRound al sig votes unset s).err
        touched := splitRound_touched al sig votes unset s } := by
  have herr : _ = (splitRound al sig votes unset s).err :=
    Traced.round_err al sig votes s.locals (unset s.rounds) s.toSplitState []
  rw [← herr]
  rfl

/-! ## Where a round reads and writes -/

/-- A state of the loop: it is at an utterance or behind the last one, and the tables have room for
the utterances. -/
structure InTables (s : SplitState 𝕜) : Prop where
  /-- The index is not negative. -/
  nonneg : 0 ≤ s.Utt_id
  /-- There are not more utterances than slots. -/
  count_le : s.err.Nutterances ≤ MAXNUTTERANCES

omit [IsStrictOrderedRing 𝕜] in
/-- A step of the loop stays in the tables. -/
theorem InTables.step {s : SplitState 𝕜} (h : InTables s) (hrunning : s.Running)
    (f : SplitAlign 𝕜) (sig : Signals 𝕜) : InTables (splitStep f sig s) := by
  have hid := h.nonneg
  have hN := hrunning.2
  have hcounters := splitStep_counters f sig s
  exact ⟨by omega, by omega⟩

/-- A round reads and writes slots of the tables. -/
theorem touched_mem {al : Aligner 𝕜} {sig : AlignSignals 𝕜} {votes : CallVotes 𝕜}
    {unset : ℕ → Unset} {s : SplitRun 𝕜} (h : InTables s.toSplitState) (hrunning : s.Running) :
    ∀ i ∈ splitRound_touched al sig votes unset s, 0 ≤ i ∧ i < MAXNUTTERANCES := by
  have hstart : ({ err := s.err, touched := [] } : Traced 𝕜).Within :=
    fun i hi => absurd hi List.not_mem_nil
  exact hstart.round al sig votes s.locals (unset s.rounds) h.nonneg hrunning.1 hrunning.2

/-! ## What is not set is not used -/

section Unset

variable (al : Aligner 𝕜) (sig : AlignSignals 𝕜)

omit [Field 𝕜] [LinearOrder 𝕜] [IsStrictOrderedRing 𝕜] in
/-- The estimates for the points do not depend on what the arrays held before. -/
theorem foldl_estimate_agree (a : SplitArgs 𝕜) (Utt_BPs : ℕ → ℤ) : ∀ (bps : List ℕ)
    (e e' : Estimates 𝕜), e.err = e'.err →
      (bps.foldl (estimate al a Utt_BPs) e).err = (bps.foldl (estimate al a Utt_BPs) e').err ∧
        ∀ bp, (bp ∈ bps ∨ e.Utt_ED1 bp = e'.Utt_ED1 bp ∧ e.Utt_ED2 bp = e'.Utt_ED2 bp) →
          (bps.foldl (estimate al a Utt_BPs) e).Utt_ED1 bp =
              (bps.foldl (estimate al a Utt_BPs) e').Utt_ED1 bp ∧
            (bps.foldl (estimate al a Utt_BPs) e).Utt_ED2 bp =
              (bps.foldl (estimate al a Utt_BPs) e').Utt_ED2 bp := by
  -- Induction on the points: an estimate is set when its point is reached, and a later point does
  -- not change it.
  intro bps
  induction bps with
  | nil =>
    intro e e' herr
    exact ⟨herr, fun bp h => h.elim (fun hmem => by cases hmem) id⟩
  | cons next bps ih =>
    intro e e' herr
    have hnext : (estimate al a Utt_BPs e next).err = (estimate al a Utt_BPs e' next).err := by
      unfold estimate
      rw [herr]
    obtain ⟨herr', hagree⟩ := ih _ _ hnext
    refine ⟨herr', fun bp hbp => hagree bp ?_⟩
    by_cases hlater : bp ∈ bps
    · exact Or.inl hlater
    · right
      unfold estimate
      dsimp only
      rw [herr]
      by_cases heq : bp = next
      · subst heq
        simp only [Function.update_self, and_self]
      · rw [Function.update_of_ne heq, Function.update_of_ne heq, Function.update_of_ne heq,
          Function.update_of_ne heq]
        exact hbp.resolve_left fun hmem => (List.mem_cons.mp hmem).elim heq hlater

/-- What is known about the points, up to the second delay of a point that the second pass leaves
out. -/
structure Points.Agree (Utt_DelayConf : 𝕜) (N_BPs : ℕ) (pts pts' : Points 𝕜) : Prop where
  /-- The points. -/
  Utt_BPs : pts.Utt_BPs = pts'.Utt_BPs
  /-- The estimates for the first parts. -/
  Utt_ED1 : ∀ bp < N_BPs, pts.Utt_ED1 bp = pts'.Utt_ED1 bp
  /-- The estimates for the second parts. -/
  Utt_ED2 : ∀ bp < N_BPs, pts.Utt_ED2 bp = pts'.Utt_ED2 bp
  /-- The first parts. -/
  first : ∀ bp < N_BPs, pts.first bp = pts'.first bp
  /-- The second parts: they are equal, or left out and not good enough. -/
  second : ∀ bp < N_BPs, pts.second bp = pts'.second bp ∨
    ¬(pts.second bp).DC > Utt_DelayConf ∧ ¬(pts'.second bp).DC > Utt_DelayConf

/-- The best points so far are equal, or there is none yet. -/
def Best.Agree (best best' : Best 𝕜) : Prop :=
  best = best' ∨ (best.Best_DC1 = 0 ∧ best.Best_DC2 = 0) ∧ best'.Best_DC1 = 0 ∧ best'.Best_DC2 = 0

omit [LinearOrder 𝕜] [IsStrictOrderedRing 𝕜] in
/-- Best points that agree have the same confidences. -/
theorem Best.Agree.confidences {best best' : Best 𝕜} (h : best.Agree best') :
    best.Best_DC1 = best'.Best_DC1 ∧ best.Best_DC2 = best'.Best_DC2 := by
  rcases h with rfl | ⟨⟨h₁, h₂⟩, h₁', h₂'⟩
  · exact ⟨rfl, rfl⟩
  · exact ⟨h₁.trans h₁'.symm, h₂.trans h₂'.symm⟩

omit [IsStrictOrderedRing 𝕜] in
/-- The choice looks at the confidences before it takes a delay. -/
theorem choose_agree {rate : Rate} {Utt_DelayConf : 𝕜} {N_BPs : ℕ} {pts pts' : Points 𝕜}
    (hpts : pts.Agree Utt_DelayConf N_BPs pts') {best best' : Best 𝕜} (h : best.Agree best')
    {bp : ℕ} (hbp : bp < N_BPs) :
    (choose rate Utt_DelayConf pts best bp).Agree (choose rate Utt_DelayConf pts' best' bp) := by
  obtain ⟨hDC1, hDC2⟩ := h.confidences
  have hfirst := hpts.first bp hbp
  unfold choose
  rcases hpts.second bp hbp with hsecond | ⟨hnot, hnot'⟩
  · -- The test reads confidences only, and those of the points are equal.
    have hbetter : pts.isBetter rate Utt_DelayConf best bp ↔
        pts'.isBetter rate Utt_DelayConf best' bp := by
      unfold Points.isBetter
      rw [hfirst, hsecond, hDC1, hDC2]
    by_cases htake : pts.isBetter rate Utt_DelayConf best bp
    · rw [if_pos htake, if_pos (hbetter.mp htake)]
      left
      rw [hfirst, hsecond, hpts.Utt_ED1 bp hbp, hpts.Utt_ED2 bp hbp, hpts.Utt_BPs]
    · rw [if_neg htake, if_neg fun h => htake (hbetter.mpr h)]
      exact h
  · -- The second pass has left the point out, so neither choice takes it.
    rw [if_neg fun htake => hnot htake.2.2.2, if_neg fun htake => hnot' htake.2.2.2]
    exact h

omit [IsStrictOrderedRing 𝕜] in
/-- The choice among the points. -/
theorem foldl_choose_agree (rate : Rate) {Utt_DelayConf : 𝕜} {N_BPs : ℕ} {pts pts' : Points 𝕜}
    (hpts : pts.Agree Utt_DelayConf N_BPs pts') : ∀ (bps : List ℕ), (∀ bp ∈ bps, bp < N_BPs) →
      ∀ best best' : Best 𝕜, best.Agree best' →
        (bps.foldl (choose rate Utt_DelayConf pts) best).Agree
          (bps.foldl (choose rate Utt_DelayConf pts') best') := by
  intro bps
  induction bps with
  | nil => exact fun _ _ _ h => h
  | cons bp bps ih =>
    intro hbps best best' h
    obtain ⟨hbp, hlater⟩ := List.forall_mem_cons.mp hbps
    exact ih hlater _ _ (choose_agree hpts h hbp)

/-- Two results of `split_align` that differ at most where the utterance is not split. -/
def SplitResult.Agree (a : SplitArgs 𝕜) (res res' : SplitResult 𝕜) : Prop :=
  res = res' ∨ (¬res.isBetter a ∧ ¬res'.isBetter a) ∧
    res.test_DelayEst = res'.test_DelayEst ∧ res.test_Delay = res'.test_Delay ∧
    res.test_Start = res'.test_Start ∧ res.test_End = res'.test_End

/-- The passes give every point that they reach a result that depends on its estimates only. -/
theorem alignPoints_agree {a : SplitArgs 𝕜} (hlong : 2 ≤ a.Utt_Len) (hconf : 0 ≤ a.Utt_DelayConf)
    (unset unset' : Unset) {ED1 ED1' ED2 ED2' : ℕ → ℤ}
    (hED1 : ∀ bp < (breakpoints sig.rate a).length, ED1 bp = ED1' bp)
    (hED2 : ∀ bp < (breakpoints sig.rate a).length, ED2 bp = ED2' bp) :
    (alignPoints sig unset a ED1 ED2).Agree a.Utt_DelayConf (breakpoints sig.rate a).length
      (alignPoints sig unset' a ED1' ED2') := by
  have hfirst : ∀ bp < (breakpoints sig.rate a).length,
      (alignPoints sig unset a ED1 ED2).first bp =
        (alignPoints sig unset' a ED1' ED2').first bp := by
    intro bp hbp
    rw [alignPoints_first sig unset hlong ED1 ED2 hbp,
      alignPoints_first sig unset' hlong ED1' ED2' hbp, hED1 bp hbp]
  refine ⟨rfl, hED1, hED2, hfirst, fun bp hbp => ?_⟩
  rw [alignPoints_second sig unset hlong ED1 ED2 hbp,
    alignPoints_second sig unset' hlong ED1' ED2' hbp, hfirst bp hbp, hED2 bp hbp]
  split
  · exact Or.inl rfl
  · exact Or.inr ⟨not_lt.mpr hconf, not_lt.mpr hconf⟩

/-- `split_align` splits with the same result, whatever its variables hold before they are set. -/
theorem split_align_agree (locals locals' : SplitLocals) (unset unset' : Unset) (err : ErrorInfo 𝕜)
    {a : SplitArgs 𝕜} (hlong : 2 ≤ a.Utt_Len) (hconf : 0 ≤ a.Utt_DelayConf) :
    (split_align al sig locals unset err a).Agree a (split_align al sig locals' unset' err a) := by
  obtain ⟨herr, hED⟩ := foldl_estimate_agree al a (breakpointAt sig.rate a)
    (List.range (breakpoints sig.rate a).length)
    { err, Utt_ED1 := unset.Utt_ED1, Utt_ED2 := unset.Utt_ED2 }
    { err, Utt_ED1 := unset'.Utt_ED1, Utt_ED2 := unset'.Utt_ED2 } rfl
  have hpts := alignPoints_agree sig hlong hconf unset unset'
    (fun bp hbp => (hED bp (Or.inl (List.mem_range.mpr hbp))).1)
    (fun bp hbp => (hED bp (Or.inl (List.mem_range.mpr hbp))).2)
  have hbest := foldl_choose_agree sig.rate hpts
    (List.range (breakpoints sig.rate a).length) (fun bp hbp => List.mem_range.mp hbp)
    { locals with Best_DC1 := 0, Best_DC2 := 0 } { locals' with Best_DC1 := 0, Best_DC2 := 0 }
    (Or.inr ⟨⟨rfl, rfl⟩, rfl, rfl⟩)
  unfold split_align estimates SplitResult.Agree
  dsimp only
  rw [herr]
  rcases hbest with hbest | ⟨⟨hDC, -⟩, hDC', -⟩
  · left
    rw [hbest]
  · refine Or.inr ⟨⟨fun hbetter => ?_, fun hbetter => ?_⟩, rfl, rfl, rfl, rfl⟩
    · -- No point was chosen: a confidence of 0 does not beat that of the utterance.
      exact absurd hbetter.1 (not_lt.mpr (hDC.trans_le hconf))
    · exact absurd hbetter.1 (not_lt.mpr (hDC'.trans_le hconf))

end Unset

/-! ## Confidences -/

/-- The confidences in the first slots are not negative. -/
def ConfNonneg (M : ℤ) (err : ErrorInfo 𝕜) : Prop :=
  ∀ i, 0 ≤ i → i < M → 0 ≤ err.Utt_DelayConf i

omit [IsStrictOrderedRing 𝕜] in
/-- A step of the loop keeps the confidences from being negative: in the slots of the utterances,
and in any number of slots. -/
theorem ConfNonneg.step {s : SplitState 𝕜} (f : SplitAlign 𝕜) (sig : Signals 𝕜)
    (hlive : ConfNonneg s.err.Nutterances s.err) (hid : 0 ≤ s.Utt_id) (hrunning : s.Running) :
    ConfNonneg (splitStep f sig s).err.Nutterances (splitStep f sig s).err ∧
      ∀ M, ConfNonneg M s.err → ConfNonneg M (splitStep f sig s).err := by
  have hlast := hrunning.1
  by_cases hsplits : Splits f sig s
  · -- Both parts are more confident than the utterance was, and its confidence is not negative.
    rw [splitStep_of_splits hsplits]
    have hpos := hlive s.Utt_id hid hlast
    obtain ⟨hDC1, hDC2⟩ := hsplits.2
    generalize f s.err (s.args sig) = res at *
    have hconf : (split sig res s.Utt_id (useTestSlot res s.err)).Utt_DelayConf =
        insertParts s.err.Utt_DelayConf s.err.Nutterances s.Utt_id res.Best_DC1 res.Best_DC2 :=
      (split_insertParts sig res
        (show s.Utt_id < (useTestSlot res s.err).Nutterances from hlast)).2.2
    have hx := (hpos.trans_lt hDC1).le
    have hy := (hpos.trans_lt hDC2).le
    constructor
    · intro i hi hiN
      rw [split_Nutterances] at hiN
      change i < s.err.Nutterances + 1 at hiN
      rw [hconf]
      exact insertParts_forall hx hy hlive hid hlast hi (by omega)
    · intro M hall i hi hiM
      rw [hconf]
      exact insertParts_forall hx hy hall hid hlast hi (Or.inl hiM)
  · have hkeep : (splitStep f sig s).err.Utt_DelayConf = s.err.Utt_DelayConf ∧
        (splitStep f sig s).err.Nutterances = s.err.Nutterances := by
      unfold splitStep
      dsimp only
      split
      · rename_i hlong
        rw [if_neg fun hbetter => hsplits ⟨hlong, hbetter⟩]
        exact ⟨rfl, rfl⟩
      · exact ⟨rfl, rfl⟩
    unfold ConfNonneg
    rw [hkeep.1, hkeep.2]
    exact ⟨hlive, fun _ hall => hall⟩

/-! ## The whole loop -/

omit [IsStrictOrderedRing 𝕜] in
/-- Two functions whose results agree at a state make the same step there. -/
theorem splitStep_congr {f g : SplitAlign 𝕜} {sig : Signals 𝕜} {s : SplitState 𝕜}
    (h : (s.args sig).Utt_Len ≥ 200 →
      (f s.err (s.args sig)).Agree (s.args sig) (g s.err (s.args sig))) :
    splitStep f sig s = splitStep g sig s := by
  unfold splitStep
  dsimp only
  split
  · rename_i hlong
    rcases h hlong with heq | ⟨⟨hnot, hnot'⟩, hEst, hDelay, hstart, hend⟩
    · rw [heq]
    · rw [if_neg hnot, if_neg hnot']
      unfold useTestSlot
      rw [hEst, hDelay, hstart, hend]
  · rfl

omit [IsStrictOrderedRing 𝕜] in
/-- A loop that goes on makes a step. -/
theorem splitLoop_of_running {f : SplitAlign 𝕜} {sig : Signals 𝕜} {s : SplitState 𝕜}
    (h : s.Running) : splitLoop f sig s = splitLoop f sig (splitStep f sig s) := by
  rw [splitLoop, if_pos h]

/-- What holds along the loop. -/
structure SplitInvariant (s : SplitState 𝕜) : Prop extends InTables s where
  /-- The confidences of the utterances are not negative. -/
  confNonneg : ConfNonneg s.err.Nutterances s.err

omit [IsStrictOrderedRing 𝕜] in
/-- A step keeps the invariant. -/
theorem SplitInvariant.step {s : SplitState 𝕜} (h : SplitInvariant s) (hrunning : s.Running)
    (f : SplitAlign 𝕜) (sig : Signals 𝕜) : SplitInvariant (splitStep f sig s) where
  toInTables := h.toInTables.step hrunning f sig
  confNonneg := (ConfNonneg.step f sig h.confNonneg h.nonneg hrunning).1

variable {al : Aligner 𝕜} {sig : AlignSignals 𝕜} {votes : CallVotes 𝕜} {unset : ℕ → Unset}

/-- The loop with its local variables does what the loop without them does, for any values of what
is not set. -/
theorem splitRounds_eq (locals : SplitLocals) (unset₀ : Unset) (s : SplitRun 𝕜)
    (h : SplitInvariant s.toSplitState) :
    ((splitRounds al sig votes unset).run s).toSplitState =
      splitLoop (split_align_calls al sig votes locals unset₀) sig.toSignals s.toSplitState := by
  refine (splitRounds al sig votes unset).run_induction
    (P := fun s s' => SplitInvariant s.toSplitState →
      s'.toSplitState = splitLoop _ sig.toSignals s.toSplitState) ?_ ?_ s h
  · intro s hover _
    rw [splitLoop, if_neg (show ¬s.Running from hover)]
  · intro s s' hrunning ih hinv
    have hconf := hinv.confNonneg s.Utt_id hinv.nonneg hrunning.1
    -- In this round the results agree at least as far as the step reads them.
    have hstep : splitStep (split_align_calls al sig votes s.locals (unset s.rounds)) sig.toSignals
        s.toSplitState = splitStep
          (split_align_calls al sig votes locals unset₀) sig.toSignals s.toSplitState :=
      splitStep_congr fun hlong =>
        split_align_agree al (sig.inCall votes s.err (s.args sig.toSignals)) s.locals locals
          (unset s.rounds) unset₀ s.err (by omega) hconf
    calc s'.toSplitState
        = splitLoop _ sig.toSignals (splitStep _ sig.toSignals s.toSplitState) :=
          ih (hinv.step hrunning _ _)
      _ = splitLoop _ sig.toSignals s.toSplitState := by
          rw [splitLoop_of_running hrunning, ← hstep]

/-- What the variables hold before they are set does not matter: the function is the one that was
given `split_align` with any fixed values for them. -/
theorem utterance_split_unset_eq {err : ErrorInfo 𝕜} (hmax : err.Nutterances ≤ MAXNUTTERANCES)
    (hconf : ConfNonneg err.Nutterances err) (locals locals₀ : SplitLocals) (unset₀ : Unset) :
    utterance_split_unset al sig votes locals unset err =
      utterance_split (split_align_calls al sig votes locals₀ unset₀) sig.toSignals err := by
  have hloop : ((splitRounds al sig votes unset).run (SplitRun.init err locals)).toSplitState = _ :=
    splitRounds_eq locals₀ unset₀ _ ⟨⟨le_refl 0, hmax⟩, hconf⟩
  unfold utterance_split_unset utterance_split
  rw [hloop]
  rfl

/-- The utterances are the slots from 0 on. -/
def IsLive (err : ErrorInfo 𝕜) (i : ℤ) : Prop := 0 ≤ i ∧ i < err.Nutterances

/-- `utterance_split` ends with at most as many utterances as slots and with confidences that are
not negative. On the way it touches only slots of the tables, and no utterance is in the slot that
`split_align` uses for itself. The tables do not depend on what is used without being set. -/
theorem utterance_split_safe (al : Aligner 𝕜) (sig : AlignSignals 𝕜) (votes : CallVotes 𝕜)
    (locals : SplitLocals) (unset : ℕ → Unset) (err : ErrorInfo 𝕜)
    (hmax : err.Nutterances ≤ MAXNUTTERANCES) (hconf : ConfNonneg err.Nutterances err) :
    (∃ n s, (splitRounds al sig votes unset).Ends (SplitRun.init err locals) s n ∧
      utterance_split_unset al sig votes locals unset err = setLargest s.err ∧
      (∀ k < n, ∀ t, t = (splitRounds al sig votes unset).body^[k] (SplitRun.init err locals) →
        (∀ i ∈ splitRound_touched al sig votes unset t, 0 ≤ i ∧ i < MAXNUTTERANCES) ∧
          ¬IsLive t.err Utt_Test) ∧
      (∀ i ∈ utterancesFrom 0 s.err, 0 ≤ i ∧ i < MAXNUTTERANCES) ∧
      s.err.Nutterances ≤ MAXNUTTERANCES ∧
      ConfNonneg s.err.Nutterances s.err ∧
      (ConfNonneg MAXNUTTERANCES err → ConfNonneg MAXNUTTERANCES s.err)) ∧
    ∀ (locals' : SplitLocals) (unset' : ℕ → Unset),
      utterance_split_unset al sig votes locals' unset' err =
        utterance_split_unset al sig votes locals unset err := by
  have hstart : SplitInvariant (SplitRun.init err locals).toSplitState :=
    ⟨⟨le_refl 0, hmax⟩, hconf⟩
  obtain ⟨n, -, hends⟩ := (splitRounds al sig votes unset).run_ends (SplitRun.init err locals)
  have hinv := hends.invariant (I := fun t => SplitInvariant t.toSplitState)
    (fun t hrunning h => h.step (show t.Running from hrunning) _ _) hstart
  have hfinal : SplitInvariant
      ((splitRounds al sig votes unset).run (SplitRun.init err locals)).toSplitState :=
    hends.iterate ▸ hinv n le_rfl
  refine ⟨⟨n, _, hends, rfl, ?_, ?_, hfinal.count_le, hfinal.confNonneg, ?_⟩, ?_⟩
  · rintro k hk t rfl
    have hrunning := hends.guard k hk
    refine ⟨touched_mem (hinv k hk.le).toInTables hrunning, fun hlive => ?_⟩
    -- The guard of the loop keeps the last slot free.
    have hroom := hrunning.2
    have hslot : Utt_Test = MAXNUTTERANCES - 1 := rfl
    have := hlive.2
    omega
  · intro i hi
    obtain ⟨k, hk, rfl⟩ := List.mem_map.mp hi
    have hk' := (List.mem_range'_1.mp hk).2
    have := hfinal.count_le
    exact ⟨by omega, by omega⟩
  · intro hall
    have hboth := hends.invariant
      (I := fun t => SplitInvariant t.toSplitState ∧ ConfNonneg MAXNUTTERANCES t.err)
      (fun t hguard h => by
        have hrunning : t.Running := hguard
        exact ⟨h.1.step hrunning _ _,
          (ConfNonneg.step _ _ h.1.confNonneg h.1.nonneg hrunning).2 _ h.2⟩) ⟨hstart, hall⟩
    exact hends.iterate ▸ (hboth n le_rfl).2
  · intro locals' unset'
    calc utterance_split_unset al sig votes locals' unset' err
        = utterance_split (split_align_calls al sig votes locals (unset 0)) sig.toSignals err :=
          utterance_split_unset_eq hmax hconf locals' locals (unset 0)
      _ = utterance_split_unset al sig votes locals unset err :=
          (utterance_split_unset_eq hmax hconf locals locals (unset 0)).symm

/-! ## A split -/

/-- An aligner that finds no delay. -/
def noDelay : Aligner ℚ where
  crude_align _ _ := 0
  time_align _ _ := (0, 1 / 2)

/-- Variables that all hold a value. -/
def filled (x : ℤ) : SplitLocals := ⟨x, x, x, x, x⟩

/-- Arrays that all hold a value. -/
def filledArrays (x : ℤ) : Unset := ⟨fun _ => x, fun _ => x, fun _ => x, fun _ => x⟩

/-- The votes for one delay. -/
def votesFor (delay : ℕ) : Histogram ℚ where
  H count := if count = delay then 1 else 0
  Hsum := 1

/-- The delay grows by 100 samples at window 150 of the reference. -/
def delayGrows : CallVotes ℚ := fun _ _ startr _ _ =>
  if startr < 9600 then votesFor 0 else votesFor 100

/-- The delay with the most votes. -/
theorem histogramPeak_votesFor (delay n : ℕ) :
    histogramPeak n (votesFor delay).H = if delay < n then (1, (delay : ℤ)) else (0, 0) := by
  unfold histogramPeak
  induction n with
  | zero => rfl
  | succ n ih =>
    have hvotes : (votesFor delay).H n = if n = delay then 1 else 0 := rfl
    rw [List.range_succ, List.foldl_append, ih, List.foldl_cons, List.foldl_nil]
    rcases lt_trichotomy delay n with hlt | rfl | hgt
    · simp [hvotes, hlt, hlt.ne', hlt.trans (Nat.lt_succ_self n)]
    · simp [hvotes]
    · simp [hvotes, hgt.ne, hgt.not_gt, show ¬delay < n + 1 by omega]

/-- What a part says whose frames have voted so. -/
theorem evaluate_votesFor {sig : AlignSignals ℚ} (hsig : sig.rate = rate_16k) {s : FrameScan ℚ}
    {delay : ℕ} (hdelay : delay < 512) (h : s.hist = votesFor delay) :
    evaluate sig 0 s = { D := delay, DC := 1 } := by
  have hpeak : histogramPeak rate_16k.Align_Nfft.toNat (votesFor delay).H = (1, (delay : ℤ)) :=
    (histogramPeak_votesFor delay 1024).trans (if_pos (by omega))
  have hlow : ¬(delay : ℤ) ≥ rate_16k.Align_Nfft.tdiv 2 := by
    show ¬(delay : ℤ) ≥ 512
    omega
  have hsum : (votesFor delay).Hsum = 1 := rfl
  unfold evaluate
  rw [h, hsig, hpeak, hsum]
  dsimp only
  rw [if_neg hlow, if_pos zero_lt_one, zero_add, div_one]

/-- A run of frames that all vote for one delay. -/
theorem run_votesFor {loop : Loop (FrameScan ℚ)} {delay : ℕ}
    (hvote : ∀ s, loop.guard s → (loop.body s).hist = votesFor delay) {s : FrameScan ℚ}
    (hs : loop.guard s) : (loop.run s).hist = votesFor delay := by
  rw [loop.run_of_guard hs]
  exact loop.run_invariant (I := fun s => s.hist = votesFor delay) (fun s h _ => hvote s h)
    (hvote s hs)

/-- Where the first one of two utterances is to be split. -/
def firstArgs : SplitArgs ℚ where
  Utt_Start := 75
  Utt_SpeechStart := 75
  Utt_SpeechEnd := 401
  Utt_End := 400
  Utt_DelayEst := 0
  Utt_DelayConf := 1 / 2

/-- All of it is speech. -/
theorem args_first : SplitState.args shiftedSignals.toSignals
    { err := twoUtterances 335 765, Utt_id := 0 } = firstArgs := by
  have hspeech : ∀ i : ℤ, ¬shiftedSignals.VAD i.toNat ≤ 0 :=
    fun i => not_le.mpr (zero_lt_one (α := ℚ))
  have hstart : speechStart shiftedSignals.VAD 400 75 = 75 := by
    rw [speechStart, if_neg fun h => hspeech 75 h.2]
  have hend : speechEnd shiftedSignals.VAD 75 400 = 400 := by
    rw [speechEnd, if_neg fun h => hspeech 400 h.2]
  show SplitArgs.mk 75 (speechStart shiftedSignals.VAD 400 75)
    (speechEnd shiftedSignals.VAD 75 400 + 1) 400 0 (1 / 2) = firstArgs
  rw [hstart, hend]
  rfl

/-- The signals in the first call. -/
abbrev firstCall : AlignSignals ℚ :=
  shiftedSignals.inCall delayGrows (twoUtterances 335 765) firstArgs

/-- The estimates are zero. -/
theorem estimates_noDelay (sig : AlignSignals ℚ) (err : ErrorInfo ℚ) (a : SplitArgs ℚ) (bp : ℕ) :
    (estimates noDelay sig (filledArrays 0) err a).Utt_ED1 bp = 0 ∧
      (estimates noDelay sig (filledArrays 0) err a).Utt_ED2 bp = 0 := by
  have hdelay (Utt_DelayEst Start End : ℤ) (err : ErrorInfo ℚ) :
      (testAlign noDelay Utt_DelayEst Start End err).Utt_Delay Utt_Test = 0 := by
    unfold testAlign
    dsimp only
    rw [Function.update_self]
    rfl
  have hkeep (bps : List ℕ) (e : Estimates ℚ) (h : ∀ bp, e.Utt_ED1 bp = 0 ∧ e.Utt_ED2 bp = 0) :
      ∀ bp, (bps.foldl (estimate noDelay a (breakpointAt sig.rate a)) e).Utt_ED1 bp = 0 ∧
        (bps.foldl (estimate noDelay a (breakpointAt sig.rate a)) e).Utt_ED2 bp = 0 := by
    induction bps generalizing e with
    | nil => exact h
    | cons next bps ih =>
      refine ih _ fun bp => ?_
      unfold estimate
      dsimp only
      rw [hdelay, hdelay, Function.update_apply, Function.update_apply, (h bp).1, (h bp).2,
        ite_self]
      exact ⟨rfl, rfl⟩
  exact hkeep _ { err, Utt_ED1 := _, Utt_ED2 := _ } (fun _ => ⟨rfl, rfl⟩) bp

/-- The parts at the first point. -/
theorem parts_first {Utt_ED1 Utt_ED2 : ℕ → ℤ} (h : ∀ bp, Utt_ED1 bp = 0 ∧ Utt_ED2 bp = 0)
    (unset : Unset) :
    (alignPoints firstCall unset firstArgs Utt_ED1 Utt_ED2).first 0 = { D := 0, DC := 1 } ∧
      (alignPoints firstCall unset firstArgs Utt_ED1 Utt_ED2).second 0 = { D := 100, DC := 1 } := by
  have hlong : 2 ≤ firstArgs.Utt_Len := by decide
  have hN := breakpoints_length_pos firstCall.rate firstArgs
  have hpoint : breakpointAt firstCall.rate firstArgs 0 = 150 := by decide
  have hfirst : (alignPoints firstCall unset firstArgs Utt_ED1 Utt_ED2).first 0 =
      { D := 0, DC := 1 } := by
    have hstart : forwardStart firstCall firstArgs.Utt_Start 0 =
        { startr := 4800, startd := 4800, hist := Histogram.clear } := by
      unfold forwardStart
      exact if_neg (show ¬(75 * 64 + 0 : ℤ) < 0 by norm_num)
    rw [alignPoints_first firstCall unset hlong Utt_ED1 Utt_ED2 hN, (h 0).1, hpoint, hstart]
    refine evaluate_votesFor rfl (Nat.zero_lt_succ 511) (run_votesFor (fun s hs => ?_) ?_)
    · have hguard : s.startr + 1024 ≤ 150 * 64 := hs.2
      exact if_pos (by omega)
    · exact ⟨show (4800 + 1024 : ℤ) ≤ 40000 by norm_num,
        show (4800 + 1024 : ℤ) ≤ 150 * 64 by norm_num⟩
  refine ⟨hfirst, ?_⟩
  have hconf : (1 : ℚ) > firstArgs.Utt_DelayConf := one_half_lt_one
  have hstart : backwardStart firstCall firstArgs.Utt_End 0 =
      { startr := 24576, startd := 24576, hist := Histogram.clear } := by
    unfold backwardStart
    exact if_neg (show ¬(400 * 64 - 1024 + 0 + 1024 : ℤ) > 40000 by norm_num)
  rw [alignPoints_second firstCall unset hlong Utt_ED1 Utt_ED2 hN, hfirst, if_pos hconf, (h 0).2,
    hpoint, hstart]
  refine evaluate_votesFor rfl (by norm_num) (run_votesFor (fun s hs => ?_) ?_)
  · have hguard : s.startr ≥ 150 * 64 := hs.2
    exact if_neg (by omega)
  · exact ⟨show (24576 : ℤ) ≥ 0 by norm_num, show (24576 : ℤ) ≥ 150 * 64 by norm_num⟩

/-- If the first point is good enough, the utterance is split. -/
theorem split_align_isBetter {al : Aligner ℚ} {sig : AlignSignals ℚ} {locals : SplitLocals}
    {unset : Unset} {err : ErrorInfo ℚ} {a : SplitArgs ℚ}
    (hfirst : (alignPoints sig unset a (estimates al sig unset err a).Utt_ED1
      (estimates al sig unset err a).Utt_ED2).isBetter sig.rate a.Utt_DelayConf
        { locals with Best_DC1 := 0, Best_DC2 := 0 } 0) :
    (split_align al sig locals unset err a).isBetter a := by
  unfold split_align SplitResult.isBetter
  dsimp only
  generalize alignPoints sig unset a (estimates al sig unset err a).Utt_ED1
    (estimates al sig unset err a).Utt_ED2 = pts at hfirst ⊢
  obtain ⟨n, hn⟩ : ∃ n, (breakpoints sig.rate a).length = n + 1 :=
    Nat.exists_eq_add_one.mpr (breakpoints_length_pos sig.rate a)
  rw [hn]
  clear hn
  -- The choice takes the first point, and then only points that are confident as well.
  induction n with
  | zero =>
    show (choose sig.rate a.Utt_DelayConf pts _ 0).Best_DC1 > _ ∧
      (choose sig.rate a.Utt_DelayConf pts _ 0).Best_DC2 > _
    unfold choose
    rw [if_pos hfirst]
    exact ⟨hfirst.2.2.1, hfirst.2.2.2⟩
  | succ n ih =>
    rw [List.range_succ, List.foldl_append, List.foldl_cons, List.foldl_nil]
    unfold choose at ih ⊢
    split
    · rename_i hbetter
      exact ⟨hbetter.2.2.1, hbetter.2.2.2⟩
    · exact ih

/-- The first utterance is split. -/
theorem splits_first : Splits (split_align_calls noDelay shiftedSignals delayGrows (filled 0)
    (filledArrays 0)) shiftedSignals.toSignals { err := twoUtterances 335 765, Utt_id := 0 } := by
  unfold Splits
  rw [args_first]
  refine ⟨by decide, ?_⟩
  show (split_align noDelay firstCall (filled 0) (filledArrays 0) (twoUtterances 335 765)
    firstArgs).isBetter firstArgs
  refine split_align_isBetter ?_
  obtain ⟨hfirst, hsecond⟩ := parts_first
    (estimates_noDelay firstCall (twoUtterances 335 765) firstArgs) (filledArrays 0)
  have hconf : (1 : ℚ) > firstArgs.Utt_DelayConf := one_half_lt_one
  unfold Points.isBetter
  rw [hfirst, hsecond]
  exact ⟨by decide, by norm_num, hconf, hconf⟩

/-- Two utterances are split in the same way, whether all that is not set holds 0 or 1, and the
first round inserts an utterance. -/
theorem utterance_split_safe_two :
    (splitRound noDelay shiftedSignals delayGrows (fun _ => filledArrays 0)
        (SplitRun.init (twoUtterances 335 765) (filled 0))).err.Nutterances = 3 ∧
      utterance_split_unset noDelay shiftedSignals delayGrows (filled 1) (fun _ => filledArrays 1)
          (twoUtterances 335 765) =
        utterance_split_unset noDelay shiftedSignals delayGrows (filled 0) (fun _ => filledArrays 0)
          (twoUtterances 335 765) := by
  refine ⟨?_, (utterance_split_safe noDelay shiftedSignals delayGrows (filled 0)
    (fun _ => filledArrays 0) (twoUtterances 335 765) (by decide)
    fun _ _ _ => one_half_pos.le).2 (filled 1) fun _ => filledArrays 1⟩
  have hround : (splitRound noDelay shiftedSignals delayGrows (fun _ => filledArrays 0)
      (SplitRun.init (twoUtterances 335 765) (filled 0))).err = _ :=
    splitStep_of_splits splits_first
  rw [hround, split_Nutterances]
  rfl

end TgVoipRate.Pesq
