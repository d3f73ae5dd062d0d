import Mathlib.Algebra.Order.Field.Basic
import Mathlib.Algebra.Order.Group.Abs
import Mathlib.Tactic.Ring
import TgVoipRate.Pesq.Params

/-!
# The frames of the acoustic model

The start of `pesq_psychoacoustic_model` in `pesqmod.c`: two scans of the padded reference, one from
each side, skip what is silent, each over at most half of the longer signal, and the numbers of the
first and of the last frame are computed from what they have skipped.

A scan stops at the first five samples that are loud (`skipSilence_lt_iff`). The arithmetic is
exact.
-/

namespace TgVoipRate.Pesq

variable {𝕜 : Type*} [Field 𝕜] [LinearOrder 𝕜]

/-- The samples in a frame of the model. -/
def Rate.Nf (rate : Rate) : ℤ := rate.Downsample * 8

/-- The samples behind a signal. -/
def Rate.padding (rate : Rate) : ℤ := DATAPADDING_MSECS * (rate.Fs / 1000)

/-- The length check of `pesq_measure` lets a pair of signals pass. -/
def Rate.Admits (rate : Rate) (ref_Nsamples deg_Nsamples : ℤ) : Prop :=
  ¬(ref_Nsamples - 2 * SEARCHBUFFER * rate.Downsample < rate.Fs / 4 ∨
    deg_Nsamples - 2 * SEARCHBUFFER * rate.Downsample < rate.Fs / 4)

/-- Five samples whose absolute values add up to less are silent. -/
def CRITERIUM_FOR_SILENCE_OF_5_SAMPLES : 𝕜 := 500

/-- The sum over five samples, at given indices. -/
def sum_of_5_samples (data : ℤ → 𝕜) (index : ℤ → ℤ) : 𝕜 :=
  (List.range 5).foldl (fun (sum : 𝕜) (i : ℕ) => sum + |data (index i)|) 0

/-- A scan over silent samples, which skips at least one of them before it looks at its bound. -/
def skipSilence (quiet : ℤ → Bool) (bound samples_to_skip : ℤ) : ℤ :=
  if quiet samples_to_skip then
    if samples_to_skip + 1 < bound then skipSilence quiet bound (samples_to_skip + 1)
    else samples_to_skip + 1
  else samples_to_skip
termination_by (bound - samples_to_skip).toNat

/-- The index of a sample that the scan at the start reads. -/
def startIndex (rate : Rate) (samples_to_skip i : ℤ) : ℤ :=
  SEARCHBUFFER * rate.Downsample + samples_to_skip + i

/-- The index of a sample that the scan at the end reads. -/
def endIndex (rate : Rate) (maxNsamples samples_to_skip i : ℤ) : ℤ :=
  maxNsamples - SEARCHBUFFER * rate.Downsample + rate.padding - 1 - samples_to_skip - i

/-- Five samples at the start are silent. -/
def quietAtStart (rate : Rate) (data : ℤ → 𝕜) (samples_to_skip : ℤ) : Bool :=
  sum_of_5_samples data (startIndex rate samples_to_skip) < CRITERIUM_FOR_SILENCE_OF_5_SAMPLES

/-- Five samples at the end are silent. -/
def quietAtEnd (rate : Rate) (data : ℤ → 𝕜) (maxNsamples samples_to_skip : ℤ) : Bool :=
  sum_of_5_samples data (endIndex rate maxNsamples samples_to_skip) <
    CRITERIUM_FOR_SILENCE_OF_5_SAMPLES

/-- The samples that are skipped at the start. -/
def samples_to_skip_at_start (rate : Rate) (data : ℤ → 𝕜) (maxNsamples : ℤ) : ℤ :=
  skipSilence (quietAtStart rate data) (maxNsamples.tdiv 2) 0

/-- The samples that are skipped at the end. -/
def samples_to_skip_at_end (rate : Rate) (data : ℤ → 𝕜) (maxNsamples : ℤ) : ℤ :=
  skipSilence (quietAtEnd rate data maxNsamples) (maxNsamples.tdiv 2) 0

/-- The first frame that counts. -/
def start_frame (rate : Rate) (data : ℤ → 𝕜) (maxNsamples : ℤ) : ℤ :=
  (samples_to_skip_at_start rate data maxNsamples).tdiv (rate.Nf.tdiv 2)

/-- The last frame. -/
def stop_frame (rate : Rate) (data : ℤ → 𝕜) (maxNsamples : ℤ) : ℤ :=
  (maxNsamples - 2 * SEARCHBUFFER * rate.Downsample + rate.padding -
    samples_to_skip_at_end rate data maxNsamples).tdiv (rate.Nf.tdiv 2) - 1

/-! ## The scans -/

/-- A scan skips no more than its bound. -/
theorem skipSilence_le (quiet : ℤ → Bool) {bound s : ℤ} (h : s < bound) :
    skipSilence quiet bound s ≤ bound := by
  rw [skipSilence]
  split
  · split
    next hnext => exact skipSilence_le quiet hnext
    next => omega
  · exact h.le
termination_by (bound - s).toNat

/-- A scan goes forward. -/
theorem le_skipSilence (quiet : ℤ → Bool) (bound s : ℤ) : s ≤ skipSilence quiet bound s := by
  rw [skipSilence]
  split
  · split
    · have hle := le_skipSilence quiet bound (s + 1)
      omega
    · omega
  · exact le_refl s
termination_by (bound - s).toNat

/-- A scan stops before a position exactly if its bound is before it, or there are loud samples in
front of both. -/
theorem skipSilence_lt_iff (quiet : ℤ → Bool) {bound s : ℤ} (h : s < bound) (b : ℤ) :
    skipSilence quiet bound s < b ↔
      bound < b ∨ ∃ t, s ≤ t ∧ t < bound ∧ t < b ∧ quiet t = false := by
  rw [skipSilence]
  cases hquiet : quiet s with
  | false =>
    rw [if_neg Bool.false_ne_true]
    constructor
    · exact fun hlt => Or.inr ⟨s, le_refl s, h, hlt, hquiet⟩
    · rintro (hbound | ⟨t, hst, -, htb, -⟩)
      · omega
      · omega
  | true =>
    rw [if_pos rfl]
    have hloud (t : ℤ) (hst : s ≤ t) (ht : quiet t = false) : s + 1 ≤ t := by
      rcases hst.eq_or_lt with rfl | hlt
      · rw [hquiet] at ht
        contradiction
      · omega
    split
    next hnext =>
      rw [skipSilence_lt_iff quiet hnext b]
      constructor
      · rintro (hbound | ⟨t, hst, ht⟩)
        · exact Or.inl hbound
        · exact Or.inr ⟨t, by omega, ht⟩
      · rintro (hbound | ⟨t, hst, htbound, htb, ht⟩)
        · exact Or.inl hbound
        · exact Or.inr ⟨t, hloud t hst ht, htbound, htb, ht⟩
    next hlast =>
      constructor
      · exact fun hlt => Or.inl (by omega)
      · rintro (hbound | ⟨t, hst, htbound, -, ht⟩)
        · omega
        · have hle := hloud t hst ht
          omega
termination_by (bound - s).toNat

/-! ## The frames -/

/-- The signals that are admitted at 16 kHz have a sample for each of 0.85 seconds. -/
theorem Rate.Admits.le {ref_Nsamples deg_Nsamples : ℤ}
    (h : rate_16k.Admits ref_Nsamples deg_Nsamples) :
    13600 ≤ ref_Nsamples ∧ 13600 ≤ deg_Nsamples := by
  simp only [Rate.Admits, rate_16k, SEARCHBUFFER] at h
  omega

/-- At 16 kHz: what is skipped at either end is at most half of the signal. -/
theorem samples_to_skip_le {maxNsamples : ℤ} (h : 13600 ≤ maxNsamples) (data : ℤ → 𝕜) :
    (0 ≤ samples_to_skip_at_start rate_16k data maxNsamples ∧
      samples_to_skip_at_start rate_16k data maxNsamples ≤ maxNsamples / 2) ∧
    0 ≤ samples_to_skip_at_end rate_16k data maxNsamples ∧
      samples_to_skip_at_end rate_16k data maxNsamples ≤ maxNsamples / 2 := by
  have hhalf : maxNsamples.tdiv 2 = maxNsamples / 2 := Int.tdiv_eq_ediv_of_nonneg (by omega)
  have hpos : 0 < maxNsamples / 2 := by omega
  unfold samples_to_skip_at_start samples_to_skip_at_end
  rw [hhalf]
  exact ⟨⟨le_skipSilence _ _ _, skipSilence_le _ hpos⟩, le_skipSilence _ _ _,
    skipSilence_le _ hpos⟩

/-- The first frame at 16 kHz. -/
theorem start_frame_16k {maxNsamples : ℤ} (h : 13600 ≤ maxNsamples) (data : ℤ → 𝕜) :
    start_frame rate_16k data maxNsamples =
      samples_to_skip_at_start rate_16k data maxNsamples / 256 :=
  Int.tdiv_eq_ediv_of_nonneg (samples_to_skip_le h data).1.1

/-- The last frame at 16 kHz. -/
theorem stop_frame_16k {maxNsamples : ℤ} (h : 13600 ≤ maxNsamples) (data : ℤ → 𝕜) :
    stop_frame rate_16k data maxNsamples =
      (maxNsamples - 4480 - samples_to_skip_at_end rate_16k data maxNsamples) / 256 - 1 := by
  obtain ⟨-, -, hle⟩ := samples_to_skip_le h data
  have hsum : maxNsamples - 2 * SEARCHBUFFER * rate_16k.Downsample + rate_16k.padding =
      maxNsamples - 4480 := by
    simp only [SEARCHBUFFER, Rate.padding, DATAPADDING_MSECS, rate_16k]
    omega
  have hNf : rate_16k.Nf.tdiv 2 = 256 := rfl
  rw [stop_frame, hsum, hNf, Int.tdiv_eq_ediv_of_nonneg (by omega)]

/-- There are at least nine frames. -/
theorem le_stop_frame {maxNsamples : ℤ} (h : 13600 ≤ maxNsamples) (data : ℤ → 𝕜) :
    8 ≤ stop_frame rate_16k data maxNsamples := by
  obtain ⟨-, -, hle⟩ := samples_to_skip_le h data
  rw [stop_frame_16k h]
  omega

end TgVoipRate.Pesq
