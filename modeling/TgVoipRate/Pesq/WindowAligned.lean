import TgVoipRate.Pesq.CrudeAlign
import TgVoipRate.Pesq.SplitSafe

/-!
# The coarse delays are whole windows

`crude_align` corrects a delay by whole windows. The delays that it starts from are zero, or come
from `crude_align` itself, through the tables and through the arrays of `split_align`, so the coarse
delays are multiples of a window in all states that `utterance_locate` reaches (`Locating`). The
divisions of these delays are exact then, and it does not matter that they truncate towards zero.

The slots are those of all indices, as in `Utterances`; the source has the first `MAXNUTTERANCES` of
them, and its runs are those that stay in these.
-/

namespace TgVoipRate.Pesq

variable {𝕜 : Type*} [Field 𝕜] [LinearOrder 𝕜]

/-! ## The invariant -/

/-- The coarse delays are multiples of a window. -/
structure WindowAligned (sig : Signals 𝕜) (err : ErrorInfo 𝕜) : Prop where
  /-- The delay of the signals. -/
  crude : sig.rate.Downsample ∣ err.Crude_DelayEst
  /-- It does not reach behind the degraded signal. -/
  crude_le : err.Crude_DelayEst = 0 ∨
    err.Crude_DelayEst ≤ sig.deg_Nsamples ∧ 0 ≤ sig.deg_Nsamples
  /-- The delays in all slots. -/
  delay : ∀ i, sig.rate.Downsample ∣ err.Utt_DelayEst i
  /-- A confidence is not negative, so that `split_align` has to find a point to exceed it. -/
  conf : ∀ i, 0 ≤ err.Utt_DelayConf i

/-- The entries that the invariant is about. -/
def ErrorInfo.delays (err : ErrorInfo 𝕜) : ℤ × (ℤ → ℤ) × (ℤ → 𝕜) :=
  (err.Crude_DelayEst, err.Utt_DelayEst, err.Utt_DelayConf)

section Invariant

variable {sig : Signals 𝕜} {err err' : ErrorInfo 𝕜}

/-- The invariant only depends on the delays and the confidences. -/
theorem WindowAligned.of_delays (h : WindowAligned sig err) (heq : err'.delays = err.delays) :
    WindowAligned sig err' := by
  obtain ⟨hcrude, hrest⟩ := Prod.mk.inj heq
  obtain ⟨hdelay, hconf⟩ := Prod.mk.inj hrest
  exact ⟨hcrude ▸ h.crude, hcrude ▸ h.crude_le, fun i => hdelay ▸ h.delay i,
    fun i => hconf ▸ h.conf i⟩

/-- A slot may get a delay of whole windows. -/
theorem WindowAligned.update_delay (h : WindowAligned sig err) (Utt_id : ℤ) {delay : ℤ}
    (hdelay : sig.rate.Downsample ∣ delay) :
    WindowAligned sig
      { err with Utt_DelayEst := Function.update err.Utt_DelayEst Utt_id delay } := by
  refine ⟨h.crude, h.crude_le, fun i => ?_, h.conf⟩
  show _ ∣ Function.update err.Utt_DelayEst Utt_id delay i
  rw [Function.update_apply]
  split
  · exact hdelay
  · exact h.delay i

/-- A slot may get a confidence that is not negative. -/
theorem WindowAligned.update_conf (h : WindowAligned sig err) (Utt_id : ℤ) {conf : 𝕜}
    (hconf : 0 ≤ conf) :
    WindowAligned sig
      { err with Utt_DelayConf := Function.update err.Utt_DelayConf Utt_id conf } := by
  refine ⟨h.crude, h.crude_le, h.delay, fun i => ?_⟩
  show 0 ≤ Function.update err.Utt_DelayConf Utt_id conf i
  rw [Function.update_apply]
  split
  · exact hconf
  · exact h.conf i

end Invariant

/-! ## What is written -/

section Align

variable (tr : Transforms 𝕜) {sig : Signals 𝕜} {err : ErrorInfo 𝕜}

/-- `crude_align` corrects a delay by whole windows. -/
theorem dvd_crudeDelay (h : WindowAligned sig err) (Utt_id : ℤ) :
    sig.rate.Downsample ∣ crudeDelay tr sig err Utt_id := by
  have hshift := dvd_mul_left sig.rate.Downsample
    ((crudeRange sig err Utt_id).lag (tr.correlation (crudeRange sig err Utt_id)))
  unfold crudeDelay
  dsimp only
  split
  · exact hshift
  · split
    · exact dvd_add hshift (h.delay _)
    · exact dvd_add hshift h.crude

/-- An index of the correlation, or the one that it starts from. -/
theorem largest_index (Y : ℕ → 𝕜) (I_max : ℤ) (n : ℕ) :
    (largest Y I_max n).2 = I_max ∨ 0 ≤ (largest Y I_max n).2 ∧ (largest Y I_max n).2 < n := by
  induction n with
  | zero => exact Or.inl rfl
  | succ n ih =>
    unfold largest at ih ⊢
    rw [List.range_succ, List.foldl_append, List.foldl_cons, List.foldl_nil]
    split
    · exact Or.inr ⟨by positivity, by push_cast; omega⟩
    · rcases ih with ih | ⟨hpos, hlt⟩
      · exact Or.inl ih
      · exact Or.inr ⟨hpos, by push_cast; omega⟩

/-- A lag that is not zero stays in the range of the degraded signal. -/
theorem lag_eq_zero_or_lt (r : CrudeRange) (Y : ℕ → 𝕜) :
    r.lag Y = 0 ∨ r.lag Y < r.nd ∧ 1 < r.nd := by
  unfold CrudeRange.lag
  dsimp only
  split
  · rename_i hcorrelates
    obtain ⟨hnr, hnd⟩ := hcorrelates
    have hlength : (r.length : ℤ) = r.nr + r.nd - 1 := Int.toNat_of_nonneg (by omega)
    rcases largest_index Y (r.nr - 1) r.length with hsame | ⟨-, hlt⟩
    · exact Or.inl (by omega)
    · exact Or.inr ⟨by omega, hnd⟩
  · exact Or.inl (by omega)

/-- The delay of the signals. -/
theorem windowAligned_whole (hDownsample : 0 < sig.rate.Downsample) :
    WindowAligned sig (crude_align tr sig ErrorInfo.zero WHOLE_SIGNAL) := by
  have hzero : crude_align tr sig ErrorInfo.zero WHOLE_SIGNAL =
      { (ErrorInfo.zero : ErrorInfo 𝕜) with
        Crude_DelayEst := crudeDelay tr sig ErrorInfo.zero WHOLE_SIGNAL } := if_pos rfl
  have hdelay : crudeDelay tr sig ErrorInfo.zero WHOLE_SIGNAL =
      (crudeRange sig (ErrorInfo.zero : ErrorInfo 𝕜) WHOLE_SIGNAL).lag
        (tr.correlation (crudeRange sig ErrorInfo.zero WHOLE_SIGNAL)) * sig.rate.Downsample := by
    unfold crudeDelay
    exact if_pos rfl
  have hnd : (crudeRange sig (ErrorInfo.zero : ErrorInfo 𝕜) WHOLE_SIGNAL).nd =
      sig.deg_Nsamples.tdiv sig.rate.Downsample := rfl
  rw [hzero]
  refine ⟨?_, ?_, fun i => dvd_zero _, fun i => le_rfl⟩
  · exact hdelay ▸ dvd_mul_left _ _
  · show crudeDelay tr sig ErrorInfo.zero WHOLE_SIGNAL = 0 ∨ _
    rw [hdelay]
    rcases lag_eq_zero_or_lt (crudeRange sig (ErrorInfo.zero : ErrorInfo 𝕜) WHOLE_SIGNAL)
      (tr.correlation (crudeRange sig ErrorInfo.zero WHOLE_SIGNAL)) with hlag | ⟨hlag, hpos⟩
    · exact Or.inl (by rw [hlag, zero_mul])
    · -- The lag is less than the number of windows of the degraded signal.
      right
      rw [hnd] at hlag hpos
      have hlong : 0 ≤ sig.deg_Nsamples := nonneg_of_tdiv_pos hDownsample.le (by omega)
      refine ⟨?_, hlong⟩
      calc _ ≤ sig.deg_Nsamples.tdiv sig.rate.Downsample * sig.rate.Downsample :=
            mul_le_mul_of_nonneg_right hlag.le hDownsample.le
        _ ≤ sig.deg_Nsamples := by
          rw [mul_comm]
          exact Int.mul_tdiv_self_le hlong

variable [IsStrictOrderedRing 𝕜] {sig : AlignSignals 𝕜}

omit [IsStrictOrderedRing 𝕜] in
/-- A confidence is a number of votes, which is not negative. -/
theorem time_align_conf_nonneg (err : ErrorInfo 𝕜) (Utt_id : ℤ) :
    0 ≤ (time_align tr sig err Utt_id).2 := histogramPeak_nonneg _ _

omit [IsStrictOrderedRing 𝕜] in
/-- `crude_align` for an utterance. -/
theorem WindowAligned.crude_align (h : WindowAligned sig.toSignals err) {Utt_id : ℤ}
    (hwhole : Utt_id ≠ WHOLE_SIGNAL) :
    WindowAligned sig.toSignals (crude_align tr sig.toSignals err Utt_id) := by
  unfold Pesq.crude_align
  rw [if_neg hwhole]
  split
  · exact h.of_delays rfl
  · exact h.update_delay Utt_id (dvd_crudeDelay tr h Utt_id)

omit [IsStrictOrderedRing 𝕜] in
/-- The delay of an utterance. -/
theorem WindowAligned.align (h : WindowAligned sig.toSignals err) (Utt_id : ℤ) :
    WindowAligned sig.toSignals (align (aligner tr sig) err Utt_id) := by
  have hcrude := h.update_delay Utt_id (dvd_crudeDelay tr h Utt_id)
  refine WindowAligned.of_delays (hcrude.update_conf Utt_id
    (time_align_conf_nonneg tr _ Utt_id)) rfl

omit [IsStrictOrderedRing 𝕜] in
/-- The delays of some utterances. -/
theorem WindowAligned.foldl_align (h : WindowAligned sig.toSignals err) (Utt_ids : List ℤ) :
    WindowAligned sig.toSignals (Utt_ids.foldl (Pesq.align (aligner tr sig)) err) := by
  induction Utt_ids generalizing err with
  | nil => exact h
  | cons Utt_id Utt_ids ih => exact ih (h.align tr Utt_id)

omit [IsStrictOrderedRing 𝕜] in
/-- An estimate in the last slot: the estimated delay goes to `Utt_Delay`, and is one of whole
windows there. -/
theorem WindowAligned.testAlign (h : WindowAligned sig.toSignals err) {Utt_DelayEst : ℤ}
    (hdelay : sig.rate.Downsample ∣ Utt_DelayEst) (Start End : ℤ) :
    WindowAligned sig.toSignals (testAlign (aligner tr sig) Utt_DelayEst Start End err) ∧
      sig.rate.Downsample ∣
        (Pesq.testAlign (aligner tr sig) Utt_DelayEst Start End err).Utt_Delay Utt_Test := by
  have hset : WindowAligned sig.toSignals
      { err with
        Utt_DelayEst := Function.update err.Utt_DelayEst Utt_Test Utt_DelayEst
        UttSearch_Start := Function.update err.UttSearch_Start Utt_Test Start
        UttSearch_End := Function.update err.UttSearch_End Utt_Test End } :=
    (h.update_delay Utt_Test hdelay).of_delays rfl
  refine ⟨hset.of_delays rfl, ?_⟩
  show _ ∣ Function.update err.Utt_Delay Utt_Test _ Utt_Test
  rw [Function.update_self]
  exact dvd_crudeDelay tr hset MAXNUTTERANCES

end Align

/-! ## What is kept -/

section Frame

variable {sig : Signals 𝕜} {err : ErrorInfo 𝕜}

/-- `id_searchwindows` keeps the delays. -/
theorem id_searchwindows_delays (sig : Signals 𝕜) (err : ErrorInfo 𝕜) :
    (id_searchwindows sig err).err.delays = err.delays := by
  have hscan : (scan record_search_start (record_search_end sig) sig err).err.delays =
      err.delays := scan_frame ErrorInfo.delays (fun _ _ _ => rfl) fun _ _ _ => rfl
  exact hscan

/-- `id_utterances` keeps the delays. -/
theorem id_utterances_delays (sig : Signals 𝕜) (err : ErrorInfo 𝕜) :
    (id_utterances sig err).err.delays = err.delays := by
  have hscan : (scan record_start record_end sig err).err.delays = err.delays :=
    scan_frame ErrorInfo.delays (fun _ _ _ => rfl) fun _ _ _ => rfl
  have hseparate : ∀ (err : ErrorInfo 𝕜) u, (separate sig err u).delays = err.delays :=
    fun err u => by
      unfold separate
      dsimp only
      split <;> rfl
  have hclamp : ∀ err : ErrorInfo 𝕜,
      (clampEnd sig (clampStart sig err)).delays = err.delays := fun err => by
    unfold clampEnd clampStart
    dsimp only
    split <;> split <;> rfl
  show ((utterancesFrom 1 err).foldl (separate sig) _).delays = _
  rw [foldl_frame ErrorInfo.delays (separate sig) hseparate, hclamp,
    foldl_frame ErrorInfo.delays meet fun _ _ => rfl]
  exact hscan

/-- Moving an utterance moves its delay. -/
theorem WindowAligned.shiftUp (h : WindowAligned sig err) (step : ℤ) :
    WindowAligned sig (shiftUp err step) :=
  ((h.update_delay (step + 1) (h.delay step)).update_conf (step + 1) (h.conf step)).of_delays rfl

/-- Moving some utterances. -/
theorem WindowAligned.foldl_shiftUp (h : WindowAligned sig err) (steps : List ℤ) :
    WindowAligned sig (steps.foldl Pesq.shiftUp err) := by
  induction steps generalizing err with
  | nil => exact h
  | cons step steps ih => exact ih (h.shiftUp step)

/-- A split gives the delays of the parts to two slots. -/
theorem WindowAligned.split (h : WindowAligned sig err) {res : SplitResult 𝕜} (Utt_id : ℤ)
    (hED1 : sig.rate.Downsample ∣ res.Best_ED1) (hED2 : sig.rate.Downsample ∣ res.Best_ED2)
    (hDC1 : 0 ≤ res.Best_DC1) (hDC2 : 0 ≤ res.Best_DC2) :
    WindowAligned sig (split sig res Utt_id err) := by
  have hroom : WindowAligned sig (makeRoom Utt_id err) :=
    (h.foldl_shiftUp (behind err.Nutterances Utt_id)).of_delays rfl
  have hparts := (((hroom.update_delay Utt_id hED1).update_delay (Utt_id + 1) hED2).update_conf
    Utt_id hDC1).update_conf (Utt_id + 1) hDC2
  refine hparts.of_delays ?_
  unfold Pesq.split setParts
  dsimp only
  rw [clampPartStart_eq, clampPartEnd_eq]
  rfl

end Frame

/-! ## What `split_align` returns -/

section SplitAlign

variable (tr : Transforms 𝕜) {sig : AlignSignals 𝕜} {a : SplitArgs 𝕜}

/-- The estimates are whole windows, those that are set. -/
structure EstimatesAligned (sig : AlignSignals 𝕜) (n : ℕ) (e : Estimates 𝕜) : Prop where
  /-- The tables. -/
  tables : WindowAligned sig.toSignals e.err
  /-- The parts before the points. -/
  before : ∀ bp < n, sig.rate.Downsample ∣ e.Utt_ED1 bp
  /-- The parts behind the points. -/
  behind : ∀ bp < n, sig.rate.Downsample ∣ e.Utt_ED2 bp

/-- The estimates for some points. -/
theorem estimatesAligned (hdelay : sig.rate.Downsample ∣ a.Utt_DelayEst) (Utt_BPs : ℕ → ℤ)
    {e : Estimates 𝕜} (h : WindowAligned sig.toSignals e.err) (n : ℕ) :
    EstimatesAligned sig n
      ((List.range n).foldl (estimate (aligner tr sig) a Utt_BPs) e) := by
  induction n with
  | zero =>
    exact ⟨h, fun bp hbp => absurd hbp bp.not_lt_zero, fun bp hbp => absurd hbp bp.not_lt_zero⟩
  | succ n ih =>
    rw [List.range_succ, List.foldl_append, List.foldl_cons, List.foldl_nil]
    generalize (List.range n).foldl (estimate (aligner tr sig) a Utt_BPs) e = e at ih ⊢
    obtain ⟨htables₁, hED1⟩ := ih.tables.testAlign tr hdelay a.Utt_Start (Utt_BPs n)
    obtain ⟨htables₂, hED2⟩ := htables₁.testAlign tr hdelay (Utt_BPs n) a.Utt_End
    have hset : ∀ {T : ℕ → ℤ} {x : ℤ}, (∀ bp < n, sig.rate.Downsample ∣ T bp) →
        sig.rate.Downsample ∣ x → ∀ bp < n + 1, sig.rate.Downsample ∣ Function.update T n x bp := by
      intro T x hT hx bp hbp
      rw [Function.update_apply]
      split
      · exact hx
      · exact hT bp (by omega)
    exact ⟨htables₂, hset ih.before hED1, hset ih.behind hED2⟩

/-- Either no point was chosen so far, or the best one is one of the points, and is aligned with
more confidence than the utterance. -/
theorem foldl_choose_cases (rate : Rate) (Utt_DelayConf : 𝕜) (pts : Points 𝕜) (best : Best 𝕜)
    (n : ℕ) :
    (List.range n).foldl (choose rate Utt_DelayConf pts) best = best ∨
      ∃ bp < n, ((List.range n).foldl (choose rate Utt_DelayConf pts) best).Best_ED1 =
          pts.Utt_ED1 bp ∧
        ((List.range n).foldl (choose rate Utt_DelayConf pts) best).Best_ED2 = pts.Utt_ED2 bp ∧
        Utt_DelayConf < ((List.range n).foldl (choose rate Utt_DelayConf pts) best).Best_DC1 ∧
        Utt_DelayConf < ((List.range n).foldl (choose rate Utt_DelayConf pts) best).Best_DC2 := by
  induction n with
  | zero => exact Or.inl rfl
  | succ n ih =>
    rw [List.range_succ, List.foldl_append, List.foldl_cons, List.foldl_nil]
    generalize (List.range n).foldl (choose rate Utt_DelayConf pts) best = best' at ih ⊢
    unfold choose
    split
    · rename_i hbetter
      exact Or.inr ⟨n, n.lt_succ_self, rfl, rfl, hbetter.2.2.1, hbetter.2.2.2⟩
    · rcases ih with ih | ⟨bp, hbp, hbest⟩
      · exact Or.inl ih
      · exact Or.inr ⟨bp, by omega, hbest⟩

/-- What `split_align` returns: for the best point the delays of the parts are whole windows, and
without a point they are left as they were. -/
structure SplitResult.WindowAligned (Downsample : ℤ) (locals : SplitLocals) (res : SplitResult 𝕜) :
    Prop where
  /-- A point was found. -/
  found : 0 < res.Best_DC1 → Downsample ∣ res.Best_ED1 ∧ Downsample ∣ res.Best_ED2
  /-- No point was found. -/
  not_found : ¬0 < res.Best_DC1 →
    res.Best_ED1 = locals.Best_ED1 ∧ res.Best_ED2 = locals.Best_ED2
  /-- The last slot of the tables. -/
  test : Downsample ∣ res.test_DelayEst

/-- `split_align` for an utterance whose delay is one of whole windows. -/
theorem split_align_windowAligned [IsStrictOrderedRing 𝕜] {err : ErrorInfo 𝕜}
    (h : WindowAligned sig.toSignals err)
    (hdelay : sig.rate.Downsample ∣ a.Utt_DelayEst) (hconf : 0 ≤ a.Utt_DelayConf)
    (locals : SplitLocals) (unset : Unset) :
    (split_align (aligner tr sig) sig locals unset err a).WindowAligned sig.rate.Downsample
      locals := by
  have hestimates := estimatesAligned tr hdelay (breakpointAt sig.rate a)
    (e := { err, Utt_ED1 := unset.Utt_ED1, Utt_ED2 := unset.Utt_ED2 }) h
    (breakpoints sig.rate a).length
  have htest : sig.rate.Downsample ∣
      (split_align (aligner tr sig) sig locals unset err a).test_DelayEst :=
    hestimates.tables.delay Utt_Test
  have hchoice := foldl_choose_cases sig.rate a.Utt_DelayConf
    (alignPoints sig unset a (estimates (aligner tr sig) sig unset err a).Utt_ED1
      (estimates (aligner tr sig) sig unset err a).Utt_ED2)
    { locals with Best_DC1 := 0, Best_DC2 := 0 } (breakpoints sig.rate a).length
  rcases hchoice with hnone | ⟨bp, hbp, hED1, hED2, hDC1, -⟩
  · -- `Best_DC1` is still the zero that it was set to.
    refine ⟨fun hfound => ?_, fun _ => ?_, htest⟩
    · have hDC1 : (split_align (aligner tr sig) sig locals unset err a).Best_DC1 = 0 :=
        congrArg Best.Best_DC1 hnone
      exact absurd hDC1 hfound.ne'
    · exact ⟨congrArg (fun best => best.Best_ED1) hnone, congrArg (fun best => best.Best_ED2) hnone⟩
  · refine ⟨fun _ => ⟨?_, ?_⟩, fun hnot => absurd (hconf.trans_lt hDC1) hnot, htest⟩
    · exact (hestimates.before bp hbp).trans (dvd_of_eq hED1.symm)
    · exact (hestimates.behind bp hbp).trans (dvd_of_eq hED2.symm)

/-- The slot that `split_align` uses for itself. -/
theorem WindowAligned.useTestSlot {err : ErrorInfo 𝕜} (h : WindowAligned sig.toSignals err)
    {res : SplitResult 𝕜} (htest : sig.rate.Downsample ∣ res.test_DelayEst) :
    WindowAligned sig.toSignals (useTestSlot res err) :=
  (h.update_delay (MAXNUTTERANCES - 1) htest).of_delays rfl

end SplitAlign

/-! ## The run -/

section Run

variable [IsStrictOrderedRing 𝕜] (tr : Transforms 𝕜) (sig : AlignSignals 𝕜) (votes : CallVotes 𝕜)
  (locals : SplitLocals) (unset : ℕ → Unset)

/-- The tables before `utterance_locate`, which has the delay of the signals as a whole. -/
def tablesBefore : ErrorInfo 𝕜 := crude_align tr sig.toSignals ErrorInfo.zero WHOLE_SIGNAL

/-- The tables behind `id_searchwindows`, with the delays of the first utterances. -/
def tablesAligned (n : ℕ) : ErrorInfo 𝕜 :=
  let searched := (id_searchwindows sig.toSignals (tablesBefore tr sig)).err
  ((utterancesFrom 0 searched).take n).foldl (align (aligner tr sig)) searched

/-- The tables before the utterances are split. -/
def tablesLocated : ErrorInfo 𝕜 :=
  (locate (aligner tr sig) sig.toSignals (tablesBefore tr sig)).err

/-- The states of the loop that splits utterances. -/
inductive Splitting : SplitRun 𝕜 → Prop
  /-- Before the first round. -/
  | start : Splitting (SplitRun.init (tablesLocated tr sig) locals)
  /-- After one more round. -/
  | round {s : SplitRun 𝕜} : Splitting s → s.Running →
      Splitting (splitRound (aligner tr sig) sig votes unset s)

/-- A round in which `split_align` is called. -/
structure Calling (s : SplitRun 𝕜) : Prop where
  /-- The state of the loop. -/
  splitting : Splitting tr sig votes locals unset s
  /-- The loop goes on. -/
  running : s.Running
  /-- The utterance is long enough. -/
  long : (s.args sig.toSignals).Utt_Len ≥ 200

/-- What `split_align` returns in a round. -/
def SplitRun.result (s : SplitRun 𝕜) : SplitResult 𝕜 :=
  split_align_calls (aligner tr sig) sig votes s.locals (unset s.rounds) s.err
    (s.args sig.toSignals)

/-- The estimates for the first points in a round. -/
def SplitRun.estimates (s : SplitRun 𝕜) (n : ℕ) : Estimates 𝕜 :=
  let a := s.args sig.toSignals
  (List.range n).foldl (estimate (aligner tr sig) a (breakpointAt sig.rate a))
    { err := s.err, Utt_ED1 := (unset s.rounds).Utt_ED1, Utt_ED2 := (unset s.rounds).Utt_ED2 }

/-- The number of points in a round. -/
def SplitRun.N_BPs (s : SplitRun 𝕜) : ℕ := (breakpoints sig.rate (s.args sig.toSignals)).length

/-- The tables that `utterance_locate` reaches. -/
inductive Locating : ErrorInfo 𝕜 → Prop
  /-- At its start. -/
  | start : Locating (tablesBefore tr sig)
  /-- Some utterances have their delays. -/
  | aligned (n : ℕ) : Locating (tablesAligned tr sig n)
  /-- For the next one `crude_align` is done. -/
  | aligning (n : ℕ) : Locating (crude_align tr sig.toSignals (tablesAligned tr sig n) n)
  /-- The utterances have their ends, and some of them are split. -/
  | splitting {s : SplitRun 𝕜} : Splitting tr sig votes locals unset s → Locating s.err
  /-- `split_align` has the estimates for some points. -/
  | estimated {s : SplitRun 𝕜} (n : ℕ) : Calling tr sig votes locals unset s → n ≤ s.N_BPs sig →
      Locating (s.estimates tr sig unset n).err
  /-- For the next point it has the estimate for the first part. -/
  | estimating {s : SplitRun 𝕜} (n : ℕ) : Calling tr sig votes locals unset s → n < s.N_BPs sig →
      Locating (testAlign (aligner tr sig) (s.args sig.toSignals).Utt_DelayEst
        (s.args sig.toSignals).Utt_Start (breakpointAt sig.rate (s.args sig.toSignals) n)
        (s.estimates tr sig unset n).err)
  /-- Some of the utterances behind one that is split are moved. -/
  | moving {s : SplitRun 𝕜} (n : ℕ) : Calling tr sig votes locals unset s →
      Locating (((behind s.err.Nutterances s.Utt_id).take n).foldl shiftUp
        (useTestSlot (s.result tr sig votes unset) s.err))
  /-- All utterances are split. -/
  | done : Locating (utterance_split_unset (aligner tr sig) sig votes locals unset
      (tablesLocated tr sig))

variable {tr sig votes locals unset}

omit [IsStrictOrderedRing 𝕜] in
/-- Before `utterance_locate` the delays are whole windows. -/
theorem tablesBefore_windowAligned : WindowAligned sig.toSignals (tablesBefore tr sig) :=
  windowAligned_whole tr sig.Downsample_pos

omit [IsStrictOrderedRing 𝕜] in
/-- With the delays of some utterances. -/
theorem tablesAligned_windowAligned (n : ℕ) :
    WindowAligned sig.toSignals (tablesAligned tr sig n) :=
  (tablesBefore_windowAligned.of_delays (id_searchwindows_delays _ _)).foldl_align tr _

omit [IsStrictOrderedRing 𝕜] in
/-- With the ends of the utterances. -/
theorem tablesLocated_windowAligned : WindowAligned sig.toSignals (tablesLocated tr sig) :=
  ((tablesBefore_windowAligned.of_delays (id_searchwindows_delays _ _)).foldl_align tr
    (utterancesFrom 0 _)).of_delays (id_utterances_delays _ _)

/-- What `split_align` returns for an utterance of the tables. -/
theorem WindowAligned.result {s : SplitRun 𝕜} (h : WindowAligned sig.toSignals s.err) :
    (s.result tr sig votes unset).WindowAligned sig.rate.Downsample s.locals := by
  have hcall : WindowAligned (sig.inCall votes s.err (s.args sig.toSignals)).toSignals s.err := h
  -- The aligner has its own votes.
  have hal : aligner tr sig = aligner tr (sig.inCall votes s.err (s.args sig.toSignals)) := rfl
  unfold SplitRun.result split_align_calls
  rw [hal]
  exact split_align_windowAligned tr hcall (h.delay s.Utt_id) (h.conf s.Utt_id) _ _

/-- A round of the loop. -/
theorem WindowAligned.splitRound {s : SplitRun 𝕜} (h : WindowAligned sig.toSignals s.err) :
    WindowAligned sig.toSignals (splitRound (aligner tr sig) sig votes unset s).err := by
  have hres : (s.result tr sig votes unset).WindowAligned sig.rate.Downsample s.locals := h.result
  show WindowAligned _ (splitStep
    (split_align_calls (aligner tr sig) sig votes s.locals (unset s.rounds))
    sig.toSignals s.toSplitState).err
  unfold splitStep
  dsimp only
  split
  · split
    · -- Both parts are aligned with more confidence than the utterance, so a point was found.
      rename_i hbetter
      have hDC1 := (h.conf s.Utt_id).trans_lt hbetter.1
      have hDC2 := (h.conf s.Utt_id).trans_lt hbetter.2
      obtain ⟨hED1, hED2⟩ := hres.found hDC1
      exact (h.useTestSlot hres.test).split s.Utt_id hED1 hED2 hDC1.le hDC2.le
    · exact h.useTestSlot hres.test
  · exact h

/-- All states of the loop. -/
theorem Splitting.windowAligned {s : SplitRun 𝕜} (h : Splitting tr sig votes locals unset s) :
    WindowAligned sig.toSignals s.err := by
  induction h with
  | start => exact tablesLocated_windowAligned
  | round _ _ ih => exact ih.splitRound

/-- In all states that `utterance_locate` reaches, the coarse delays are whole windows. -/
theorem Locating.windowAligned {err : ErrorInfo 𝕜} (h : Locating tr sig votes locals unset err) :
    WindowAligned sig.toSignals err := by
  have hestimates : ∀ {s : SplitRun 𝕜} (n : ℕ), WindowAligned sig.toSignals s.err →
      WindowAligned sig.toSignals (s.estimates tr sig unset n).err := fun n hs =>
    (estimatesAligned tr (hs.delay _) _ hs n).tables
  cases h with
  | start => exact tablesBefore_windowAligned
  | aligned n => exact tablesAligned_windowAligned n
  | aligning n =>
    have hne : (n : ℤ) ≠ WHOLE_SIGNAL := by
      unfold WHOLE_SIGNAL
      omega
    exact (tablesAligned_windowAligned n).crude_align tr hne
  | splitting hs => exact hs.windowAligned
  | estimated n hs _ => exact hestimates n hs.splitting.windowAligned
  | estimating n hs _ =>
    have hw := hs.splitting.windowAligned
    exact ((hestimates n hw).testAlign tr (hw.delay _) _ _).1
  | moving n hs =>
    have hw := hs.splitting.windowAligned
    exact (hw.useTestSlot hw.result.test).foldl_shiftUp _
  | done =>
    have hloop := (splitRounds (aligner tr sig) sig votes unset).run_invariant
      (I := fun s => WindowAligned sig.toSignals s.err) (fun s _ hs => hs.splitRound)
      (show WindowAligned _ (SplitRun.init (tablesLocated tr sig) locals).err from
        tablesLocated_windowAligned)
    exact hloop.of_delays rfl

end Run

/-! ## The divisions -/

/-- The division of a delay, and of the opposite one, is exact. -/
def DividesExactly (Downsample delay : ℤ) : Prop :=
  delay.tdiv Downsample * Downsample = delay ∧ (-delay).tdiv Downsample * Downsample = -delay

/-- A delay of whole windows is divided exactly. -/
theorem dividesExactly_of_dvd {Downsample delay : ℤ} (h : Downsample ∣ delay) :
    DividesExactly Downsample delay :=
  ⟨Int.tdiv_mul_cancel h, Int.tdiv_mul_cancel ((dvd_neg).mpr h)⟩

/-- The divisions by the number of samples in a window, of the coarse delays in the tables and of
what a delay leaves of the degraded signal. -/
structure DivisionsExact (sig : Signals 𝕜) (err : ErrorInfo 𝕜) : Prop where
  /-- The delay of the signals. -/
  crude : DividesExactly sig.rate.Downsample err.Crude_DelayEst
  /-- The delays in all slots. -/
  delay : ∀ i, DividesExactly sig.rate.Downsample (err.Utt_DelayEst i)
  /-- The windows of the degraded signal behind the delay of the signals. -/
  remaining : (sig.deg_Nsamples - err.Crude_DelayEst).tdiv sig.rate.Downsample =
    sig.deg_Nsamples.tdiv sig.rate.Downsample - err.Crude_DelayEst.tdiv sig.rate.Downsample

/-- Whole windows may be taken off before a division, if they do not reach behind zero. -/
theorem sub_tdiv_of_dvd {D N delay : ℤ} (hD : 0 < D) (hdvd : D ∣ delay)
    (hle : delay = 0 ∨ delay ≤ N ∧ 0 ≤ N) : (N - delay).tdiv D = N.tdiv D - delay.tdiv D := by
  rcases hle with rfl | ⟨hle, hN⟩
  · simp
  · obtain ⟨windows, rfl⟩ := hdvd
    rw [Int.tdiv_eq_ediv_of_nonneg (show 0 ≤ N - D * windows by omega),
      Int.tdiv_eq_ediv_of_nonneg hN, Int.mul_tdiv_cancel_left _ hD.ne',
      Int.sub_mul_ediv_left _ _ hD.ne']

/-- The divisions of the coarse delays are exact. -/
theorem WindowAligned.divisionsExact {sig : AlignSignals 𝕜} {err : ErrorInfo 𝕜}
    (h : WindowAligned sig.toSignals err) : DivisionsExact sig.toSignals err where
  crude := dividesExactly_of_dvd h.crude
  delay i := dividesExactly_of_dvd (h.delay i)
  remaining := sub_tdiv_of_dvd sig.Downsample_pos h.crude h.crude_le

/-- In every state that `utterance_locate` reaches, the delay of the signals and the estimated
delays in all slots are whole windows, and so are those that `split_align` returns; the divisions of
these delays are exact, for negative ones as well. -/
theorem coarse_delays_aligned [IsStrictOrderedRing 𝕜] (tr : Transforms 𝕜) (sig : AlignSignals 𝕜)
    (votes : CallVotes 𝕜) (locals : SplitLocals) (unset : ℕ → Unset) :
    (∀ err, Locating tr sig votes locals unset err →
      sig.rate.Downsample ∣ err.Crude_DelayEst ∧
        (∀ i, sig.rate.Downsample ∣ err.Utt_DelayEst i) ∧ DivisionsExact sig.toSignals err) ∧
      ∀ s, Calling tr sig votes locals unset s →
        (s.result tr sig votes unset).WindowAligned sig.rate.Downsample s.locals := by
  refine ⟨fun err h => ?_, fun s hs => ?_⟩
  · have hw := h.windowAligned
    exact ⟨hw.crude, hw.delay, hw.divisionsExact⟩
  · exact hs.splitting.windowAligned.result

/-- Signals of four windows. -/
def fourWindows : AlignSignals ℚ := AlignSignals.at_16k (fun _ => 1) 256 256 (fun _ _ _ => 0) id

/-- The correlation is highest where the degraded signal leads by three windows. -/
def leadingBy3 : Transforms ℚ :=
  Transforms.at_16k (fun _ count => if count = 0 then 1 else 0) (fun _ _ _ => 0) id id

/-- A negative delay. -/
theorem coarse_delays_aligned_leading :
    (tablesBefore leadingBy3 fourWindows).Crude_DelayEst = -192 ∧
      DivisionsExact fourWindows.toSignals (tablesBefore leadingBy3 fourWindows) :=
  ⟨by decide +kernel,
    ((coarse_delays_aligned leadingBy3 fourWindows (fun _ _ => fourWindows.vote) (filled 0)
      fun _ => filledArrays 0).1 _ Locating.start).2.2⟩

end TgVoipRate.Pesq
