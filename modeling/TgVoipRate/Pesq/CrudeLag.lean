import TgVoipRate.Dsp.CorrelationSpec
import TgVoipRate.Pesq.CrudeAlign

/-!
# The lag that `crude_align` finds

The correlation of the activities by `FFTNXCorr`, and the search for its maximum. The entry `k` of
the correlation belongs to the lag `k - nr + 1`, and the search keeps the first one of the highest
entries if there is a positive one (`largest_spec`). So the shift is the first lag with the highest
correlation, or zero (`correlation_lag`).
-/

namespace TgVoipRate.Pesq

open Dsp (FFTState Called CorrelationMemory FFTNXCorr FFTNXCorr_eq circleAngles correlationAt)

/-! ## The highest entry -/

section Largest

variable {𝕜 : Type*} [Field 𝕜] [LinearOrder 𝕜]

/-- The first one of the highest entries, if that is positive. -/
theorem largest_spec (Y : ℕ → 𝕜) (I_max : ℤ) (n : ℕ) :
    (largest Y I_max n = (0, I_max) ∧ ∀ k < n, Y k ≤ 0) ∨
      ∃ i < n, largest Y I_max n = (Y i, (i : ℤ)) ∧ 0 < Y i ∧ (∀ k < n, Y k ≤ Y i) ∧
        ∀ k < i, Y k < Y i := by
  induction n with
  | zero => exact Or.inl ⟨rfl, fun k hk => absurd hk k.not_lt_zero⟩
  | succ n ih =>
    unfold largest at ih ⊢
    rw [List.range_succ, List.foldl_append, List.foldl_cons, List.foldl_nil]
    rcases ih with ⟨heq, hle⟩ | ⟨i, hi, heq, hpos, hle, hlt⟩
    · rw [heq]
      by_cases hn : Y n > 0
      · -- The first positive entry.
        have hbefore : ∀ k < n, Y k < Y n := fun k hk => (hle k hk).trans_lt hn
        rw [if_pos hn]
        exact Or.inr ⟨n, n.lt_succ_self, rfl, hn,
          Nat.forall_lt_succ_right.mpr ⟨fun k hk => (hbefore k hk).le, le_rfl⟩, hbefore⟩
      · rw [if_neg hn]
        exact Or.inl ⟨rfl, Nat.forall_lt_succ_right.mpr ⟨hle, not_lt.mp hn⟩⟩
    · rw [heq]
      by_cases hn : Y n > Y i
      · -- A higher entry, and so higher than all before it.
        have hbefore : ∀ k < n, Y k < Y n := fun k hk => (hle k hk).trans_lt hn
        rw [if_pos hn]
        exact Or.inr ⟨n, n.lt_succ_self, rfl, hpos.trans hn,
          Nat.forall_lt_succ_right.mpr ⟨fun k hk => (hbefore k hk).le, le_rfl⟩, hbefore⟩
      · rw [if_neg hn]
        exact Or.inr ⟨i, by omega, rfl, hpos,
          Nat.forall_lt_succ_right.mpr ⟨hle, not_lt.mp hn⟩, hlt⟩

end Largest

/-! ## The correlation of the activities -/

/-- The activities of the two signals. -/
structure Activities where
  /-- `ref_info->logVAD` -/
  ref_logVAD : ℕ → ℝ
  /-- `deg_info->logVAD` -/
  deg_logVAD : ℕ → ℝ

/-- The sum of the products of the activities in a range of windows, with that of the degraded
signal shifted by a lag. Windows outside of the range count as zero. -/
def Activities.correlation (act : Activities) (r : CrudeRange) (lag : ℤ) : ℝ :=
  ∑ j ∈ Finset.range r.nd.toNat,
    if 0 ≤ j - lag ∧ j - lag < r.nr then
      act.ref_logVAD (r.startr.toNat + (j - lag).toNat) * act.deg_logVAD (r.startd.toNat + j)
    else 0

/-- The lags for which the ranges overlap. -/
def CrudeRange.lags (r : CrudeRange) : Set ℤ := Set.Icc (-(r.nr - 1)) (r.nd - 1)

/-- The first lag with the highest correlation if that is positive, and zero otherwise. -/
structure IsFirstPeak (correlation : ℤ → ℝ) (lags : Set ℤ) (lag : ℤ) : Prop where
  /-- There is a positive correlation. -/
  peak : (∃ l ∈ lags, 0 < correlation l) →
    lag ∈ lags ∧ (∀ l ∈ lags, correlation l ≤ correlation lag) ∧
      ∀ l ∈ lags, l < lag → correlation l < correlation lag
  /-- There is none. -/
  zero : (∀ l ∈ lags, correlation l ≤ 0) → lag = 0

/-- The correlation in `crude_align`, which goes to the work area. -/
noncomputable def fftCorrelation (memory : CorrelationMemory ℝ) (s : FFTState ℝ) (act : Activities)
    (ftmp : ℕ → ℝ) (r : CrudeRange) : ℕ → ℝ :=
  (FFTNXCorr circleAngles memory s (fun i => act.ref_logVAD (r.startr.toNat + i)) r.nr.toNat
    (fun i => act.deg_logVAD (r.startd.toNat + i)) r.nd.toNat ftmp).y

/-- An entry of the correlation belongs to a lag. -/
theorem correlationAt_eq (act : Activities) (r : CrudeRange) (k : ℕ) :
    correlationAt (fun i => act.ref_logVAD (r.startr.toNat + i)) r.nr.toNat
        (fun i => act.deg_logVAD (r.startd.toNat + i)) r.nd.toNat k =
      act.correlation r (k - r.nr + 1) := by
  unfold correlationAt Activities.correlation
  refine Finset.sum_congr rfl fun j _ => ?_
  by_cases hmeet : j ≤ k ∧ k - j < r.nr.toNat
  · rw [if_pos hmeet, if_pos (by omega)]
    congr 3
    omega
  · rw [if_neg hmeet, if_neg (by omega)]

/-- The lag is the first one with the highest correlation. -/
theorem isFirstPeak_lag {s : FFTState ℝ} (h : Called s) (memory : CorrelationMemory ℝ)
    (act : Activities) (ftmp : ℕ → ℝ) {r : CrudeRange} (hcorrelates : r.Correlates) :
    IsFirstPeak (act.correlation r) r.lags (r.lag (fftCorrelation memory s act ftmp r)) := by
  obtain ⟨hnr, hnd⟩ := hcorrelates
  have hlength : (r.length : ℤ) = r.nr + r.nd - 1 := Int.toNat_of_nonneg (by omega)
  have hlag : ∀ Y : ℕ → ℝ,
      r.lag Y = (largest Y (r.nr - 1) r.length).2 - r.nr + 1 := fun Y => by
    unfold CrudeRange.lag
    dsimp only
    rw [if_pos ⟨hnr, hnd⟩]
  have hY : ∀ k < r.length,
      fftCorrelation memory s act ftmp r k = act.correlation r (k - r.nr + 1) := fun k hk => by
    rw [← correlationAt_eq]
    exact (FFTNXCorr_eq h memory _ (by omega) _ (by omega) ftmp).2 k (by omega)
  -- Each lag has an entry.
  have hentry : ∀ l ∈ r.lags, ∃ k < r.length, (k : ℤ) - r.nr + 1 = l := by
    intro l hl
    obtain ⟨hlow, hhigh⟩ := hl
    exact ⟨(l + r.nr - 1).toNat, by omega, by omega⟩
  rw [hlag]
  rcases largest_spec (fftCorrelation memory s act ftmp r) (r.nr - 1) r.length with
    ⟨heq, hle⟩ | ⟨i, hi, heq, hpos, hle, hlt⟩
  · -- No entry is positive, and the index is still that of lag zero.
    rw [heq]
    refine ⟨fun ⟨l, hl, hlpos⟩ => ?_, fun _ => by dsimp only; omega⟩
    obtain ⟨k, hk, rfl⟩ := hentry l hl
    exact absurd (hY k hk ▸ hle k hk) (not_le.mpr hlpos)
  · rw [heq]
    dsimp only
    have hi' := hY i hi
    refine ⟨fun _ => ⟨⟨by omega, by omega⟩, fun l hl => ?_, fun l hl hbefore => ?_⟩,
      fun hnone => ?_⟩
    · obtain ⟨k, hk, rfl⟩ := hentry l hl
      rw [← hi', ← hY k hk]
      exact hle k hk
    · obtain ⟨k, hk, rfl⟩ := hentry l hl
      rw [← hi', ← hY k hk]
      exact hlt k (by omega)
    · exact absurd (hnone _ ⟨by omega, by omega⟩) (not_le.mpr (hi' ▸ hpos))

/-! ## `crude_align` -/

/-- The delay that a mode of `crude_align` corrects. -/
def crudeBase {𝕜 : Type*} (err : ErrorInfo 𝕜) (Utt_id : ℤ) : ℤ :=
  if Utt_id = WHOLE_SIGNAL then 0
  else if Utt_id = MAXNUTTERANCES then err.Utt_DelayEst (MAXNUTTERANCES - 1)
  else err.Crude_DelayEst

/-- The delay is the one before, corrected by the lag. -/
theorem crudeDelay_eq {𝕜 : Type*} [Field 𝕜] [LinearOrder 𝕜] (tr : Transforms 𝕜) (sig : Signals 𝕜)
    (err : ErrorInfo 𝕜) (Utt_id : ℤ) :
    crudeDelay tr sig err Utt_id =
      (crudeRange sig err Utt_id).lag (tr.correlation (crudeRange sig err Utt_id)) *
        sig.rate.Downsample + crudeBase err Utt_id := by
  unfold crudeDelay crudeBase
  dsimp only
  split
  · exact (add_zero _).symm
  · split <;> rfl

/-- After any calls of the transforms, `FFTNXCorr` returns the length of the linear correlation and
computes it without wrapping around; and whenever `crude_align` correlates activities with it, in
any of its modes, the delay is corrected by the first lag of the highest correlation if there is a
positive one, and not at all otherwise. -/
theorem correlation_lag {s : FFTState ℝ} (h : Called s) (memory : CorrelationMemory ℝ) :
    (∀ (x1 : ℕ → ℝ) (n1 : ℕ) (x2 : ℕ → ℝ) (n2 : ℕ) (y : ℕ → ℝ), 1 ≤ n1 → 1 ≤ n2 →
      (FFTNXCorr circleAngles memory s x1 n1 x2 n2 y).Ny = n1 + n2 - 1 ∧
        ∀ k < n1 + n2 - 1, (FFTNXCorr circleAngles memory s x1 n1 x2 n2 y).y k =
          ∑ j ∈ Finset.range n2,
            if j ≤ k ∧ k - j < n1 then x1 (n1 - 1 - (k - j)) * x2 j else 0) ∧
    ∀ (act : Activities) (ftmp : ℕ → ℝ) (tr : Transforms ℝ) (sig : Signals ℝ) (err : ErrorInfo ℝ)
      (Utt_id : ℤ), tr.correlation = fftCorrelation memory s act ftmp →
      let r := crudeRange sig err Utt_id
      let lag := r.lag (tr.correlation r)
      crudeDelay tr sig err Utt_id = lag * sig.rate.Downsample + crudeBase err Utt_id ∧
        (r.Correlates → IsFirstPeak (act.correlation r) r.lags lag) := by
  refine ⟨fun x1 n1 x2 n2 y hn1 hn2 => FFTNXCorr_eq h memory x1 hn1 x2 hn2 y,
    fun act ftmp tr sig err Utt_id htr => ⟨crudeDelay_eq tr sig err Utt_id, fun hcorrelates => ?_⟩⟩
  rw [htr]
  exact isFirstPeak_lag h memory act ftmp hcorrelates

/-- Signals of four windows. -/
def echoSignals : Signals ℝ :=
  { rate := rate_16k, VAD := fun _ => 0, ref_Nsamples := 256, deg_Nsamples := 256 }

/-- The activity of the degraded signal follows that of the reference after two windows. -/
def echoActivities : Activities where
  ref_logVAD i := if i = 0 then 1 else 0
  deg_logVAD i := if i = 2 then 1 else 0

/-- Memory that is not cleared. -/
def unclear : CorrelationMemory ℝ where
  tmp1 _ := 7
  tmp2 _ := 7
  first := { tables := Dsp.leftover, y := fun _ => 7 }
  second := { tables := Dsp.leftover, y := fun _ => 7 }
  back := { tables := Dsp.leftover, y := fun _ => 7 }

/-- The correlation of the activities, and signals without a correlation. -/
noncomputable def echoTransforms : Transforms ℝ :=
  Transforms.at_16k (fftCorrelation unclear Dsp.noTables echoActivities fun _ => 7)
    (fun _ _ _ => 0) id id

/-- The delay is the one of two windows. -/
theorem correlation_lag_echo :
    crudeDelay echoTransforms echoSignals ErrorInfo.zero WHOLE_SIGNAL = 128 := by
  obtain ⟨hdelay, hpeak⟩ := (correlation_lag (Called.start Dsp.noTables rfl) unclear).2
    echoActivities (fun _ => 7) echoTransforms echoSignals ErrorInfo.zero WHOLE_SIGNAL rfl
  have hrange : crudeRange echoSignals (ErrorInfo.zero : ErrorInfo ℝ) WHOLE_SIGNAL =
      { nr := 4, nd := 4, startr := 0, startd := 0 } := rfl
  have hpeak := hpeak (by decide)
  rw [hrange] at hpeak hdelay
  generalize CrudeRange.lag { nr := 4, nd := 4, startr := 0, startd := 0 }
    (echoTransforms.correlation { nr := 4, nd := 4, startr := 0, startd := 0 }) = lag
    at hpeak hdelay
  have hcorrelation : ∀ l, echoActivities.correlation
      { nr := 4, nd := 4, startr := 0, startd := 0 } l = if l = 2 then 1 else 0 := by
    intro l
    unfold Activities.correlation
    rw [Finset.sum_eq_single 2]
    · by_cases hl : l = 2
      · simp [hl, echoActivities]
      · have hother : 0 ≤ 2 - l → 2 - l < 4 → ¬(2 - l).toNat = 0 := by omega
        rw [if_neg hl]
        split
        · rename_i hoverlap
          simp [echoActivities, hother hoverlap.1 hoverlap.2]
        · rfl
    · intro j _ hj
      simp [echoActivities, hj]
    · exact fun hnot => absurd (Finset.mem_range.mpr (by decide)) hnot
  obtain ⟨-, hle, -⟩ := hpeak.peak ⟨2, ⟨by decide, by decide⟩, by rw [hcorrelation]; norm_num⟩
  have hlag : lag = 2 := by
    have hmax := hle 2 ⟨by decide, by decide⟩
    rw [hcorrelation, hcorrelation, if_pos rfl] at hmax
    by_contra hne
    rw [if_neg hne] at hmax
    exact absurd hmax (by norm_num)
  rw [hdelay, hlag]
  rfl

end TgVoipRate.Pesq
