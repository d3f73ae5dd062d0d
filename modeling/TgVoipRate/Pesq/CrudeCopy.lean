import Mathlib
import TgVoipRate.Lib.CrossCorrelation
import TgVoipRate.Pesq.CrudeLag

/-!
# `crude_align` finds the delay of a copy

The correlation that `crude_align` searches is that of the activities in the two ranges, with zeros
around them (`correlation_eq_corr`). So if the degraded signal is as active as the reference some
windows before, but for a factor, then the shift is exactly that many windows, in any of the modes
(`crude_align_of_copy`).
-/

namespace TgVoipRate.Pesq

open Dsp (FFTState Called CorrelationMemory)
open CrossCorrelation (corr corr_copy corr_copy_lt corr_self_zero energy_pos
  finsum_eq_sum_range)

/-- Some entries of a sequence from a start on, and zeros around them. -/
def windowed (x : ℕ → ℝ) (start n : ℤ) (i : ℤ) : ℝ :=
  if 0 ≤ i ∧ i < n then x (start.toNat + i.toNat) else 0

/-- Only the entries that are taken are not zero. -/
theorem support_windowed (x : ℕ → ℝ) (start n : ℤ) :
    Function.support (windowed x start n) ⊆ Set.Ico 0 n := fun _ hi =>
  by_contra fun hnot => hi (if_neg hnot)

/-- There are finitely many. -/
theorem finite_windowed (x : ℕ → ℝ) (start n : ℤ) :
    (Function.support (windowed x start n)).Finite :=
  (Set.finite_Ico 0 n).subset (support_windowed x start n)

/-- The activities of the reference in a range. -/
def Activities.ref (act : Activities) (r : CrudeRange) : ℤ → ℝ :=
  windowed act.ref_logVAD r.startr r.nr

/-- The activities of the degraded signal in a range. -/
def Activities.deg (act : Activities) (r : CrudeRange) : ℤ → ℝ :=
  windowed act.deg_logVAD r.startd r.nd

/-- The sum of products is the correlation. -/
theorem correlation_eq_corr (act : Activities) (r : CrudeRange) (lag : ℤ) :
    act.correlation r lag = corr (act.ref r) (act.deg r) lag := by
  -- The sum runs over the windows of the degraded signal.
  have hshift : corr (act.ref r) (act.deg r) lag =
      ∑ᶠ j, act.ref r (j - lag) * act.deg r j := by
    unfold corr
    rw [← finsum_comp_equiv (Equiv.subRight lag)]
    refine finsum_congr fun j => ?_
    rw [Equiv.subRight_apply, sub_add_cancel]
  have hsupport : (Function.support fun j => act.ref r (j - lag) * act.deg r j) ⊆
      Set.Ico 0 r.nd :=
    (Function.support_mul_subset_right _ _).trans (support_windowed _ _ _)
  rw [hshift, finsum_eq_sum_range hsupport]
  refine Finset.sum_congr rfl fun j hj => ?_
  have hj := Finset.mem_range.mp hj
  have hinside : (0 : ℤ) ≤ j ∧ (j : ℤ) < r.nd := by omega
  unfold Activities.ref Activities.deg windowed
  rw [if_pos hinside, Int.toNat_natCast, ite_mul, zero_mul]

variable {act : Activities} {r : CrudeRange}

/-- The degraded signal is as active in a range as the reference some windows before, but for a
factor. -/
structure IsCopy (act : Activities) (r : CrudeRange) (gain : ℝ) (delay : ℤ) : Prop where
  active : act.ref r ≠ 0
  gain_pos : 0 < gain
  copy : ∀ i, act.deg r i = gain * act.ref r (i - delay)

/-- The ranges overlap at the delay of a copy. -/
theorem IsCopy.mem_lags {gain : ℝ} {delay : ℤ} (h : IsCopy act r gain delay) : delay ∈ r.lags := by
  obtain ⟨i, hi⟩ := Function.ne_iff.mp h.active
  have hmove : act.deg r (i + delay) ≠ 0 := by
    rw [h.copy, add_sub_cancel_right]
    exact mul_ne_zero h.gain_pos.ne' hi
  obtain ⟨hi0, hin⟩ := support_windowed act.ref_logVAD r.startr r.nr hi
  obtain ⟨hj0, hjn⟩ := support_windowed act.deg_logVAD r.startd r.nd hmove
  exact ⟨by omega, by omega⟩

/-- The first one of the highest correlations is at the delay of a copy. -/
theorem IsCopy.peak_eq {gain : ℝ} {delay lag : ℤ} (h : IsCopy act r gain delay)
    (hpeak : IsFirstPeak (act.correlation r) r.lags lag) : lag = delay := by
  have hfinite : (Function.support (act.ref r)).Finite := finite_windowed _ _ _
  have hcorr : ∀ l, act.correlation r l =
      corr (act.ref r) (fun i => gain * act.ref r (i - delay)) l := fun l => by
    rw [correlation_eq_corr, funext h.copy]
  have hpos : 0 < act.correlation r delay := by
    rw [hcorr, corr_copy, sub_self, corr_self_zero]
    exact mul_pos h.gain_pos (energy_pos hfinite h.active)
  obtain ⟨-, hle, -⟩ := hpeak.peak ⟨delay, h.mem_lags, hpos⟩
  by_contra hne
  have hlt := corr_copy_lt hfinite h.active h.gain_pos hne
  rw [← hcorr, ← hcorr] at hlt
  exact absurd (hle delay h.mem_lags) (not_le.mpr hlt)

/-- After any calls of the transforms, in any mode of `crude_align`: if the degraded signal is as
active in its range as the reference some windows before, but for a factor, then the delay is
corrected by exactly these windows. -/
theorem crude_align_of_copy {s : FFTState ℝ} (h : Called s) (memory : CorrelationMemory ℝ)
    (act : Activities) (ftmp : ℕ → ℝ) (tr : Transforms ℝ)
    (htr : tr.correlation = fftCorrelation memory s act ftmp) (sig : Signals ℝ)
    (err : ErrorInfo ℝ) (Utt_id : ℤ) (hcorrelates : (crudeRange sig err Utt_id).Correlates)
    (gain : ℝ) (delay : ℤ) (hcopy : IsCopy act (crudeRange sig err Utt_id) gain delay) :
    crudeDelay tr sig err Utt_id = delay * sig.rate.Downsample + crudeBase err Utt_id := by
  rw [crudeDelay_eq, htr, hcopy.peak_eq (isFirstPeak_lag h memory act ftmp hcorrelates)]

/-- Activities in three windows, and twice as high three windows later in the degraded signal. -/
noncomputable def lateActivities : Activities where
  ref_logVAD i := if 2 ≤ i ∧ i < 5 then 1 else 0
  deg_logVAD i := if 5 ≤ i ∧ i < 8 then 2 else 0

/-- Signals of ten windows. -/
def tenWindows : Signals ℝ :=
  { rate := rate_16k, VAD := fun _ => 0, ref_Nsamples := 640, deg_Nsamples := 640 }

/-- The activities are a copy. -/
theorem lateActivities_isCopy :
    IsCopy lateActivities (crudeRange tenWindows ErrorInfo.zero WHOLE_SIGNAL) 2 3 := by
  have hrange : crudeRange tenWindows (ErrorInfo.zero : ErrorInfo ℝ) WHOLE_SIGNAL =
      { nr := 10, nd := 10, startr := 0, startd := 0 } := rfl
  rw [hrange]
  refine ⟨fun hzero => ?_, two_pos, fun i => ?_⟩
  · have hactive := congrFun hzero 2
    simp [Activities.ref, windowed, lateActivities] at hactive
  · unfold Activities.ref Activities.deg windowed lateActivities
    dsimp only
    split_ifs <;> first | omega | norm_num

/-- The delay is that of three windows. -/
theorem crude_align_of_copy_late :
    crudeDelay (Transforms.at_16k (fftCorrelation unclear Dsp.noTables lateActivities fun _ => 7)
      (fun _ _ _ => 0) id id) tenWindows ErrorInfo.zero WHOLE_SIGNAL = 3 * 64 + 0 :=
  crude_align_of_copy (Called.start Dsp.noTables rfl) unclear lateActivities (fun _ => 7) _ rfl
    tenWindows ErrorInfo.zero WHOLE_SIGNAL (by decide) 2 3 lateActivities_isCopy

end TgVoipRate.Pesq
