import TgVoipRate.Pesq.Split
import TgVoipRate.Pesq.UtterancesSpec

/-!
# Whether an utterance is found

Behind the voice activity detection, a signal can have speech and still no utterance: the runs of
speech that the detection keeps are longer than four windows, those that count as utterances have at
least fifty. Without an utterance `id_utterances` reads and writes in front of its tables, and
`pesq_psychoacoustic_model` exits at its first frame. `findsUtterance_iff` says when this does not
happen.
-/

namespace TgVoipRate.Pesq

open Runs (Run IsRuns)

/-! ## Counting the utterances -/

section Counting

variable {𝕜 : Type*} [Zero 𝕜] [LinearOrder 𝕜]

/-- Splitting does not lose an utterance. -/
theorem le_utterance_split (split_align : SplitAlign 𝕜) (sig : Signals 𝕜) (err : ErrorInfo 𝕜) :
    err.Nutterances ≤ (utterance_split split_align sig err).Nutterances := by
  have hloop : ∀ s : SplitState 𝕜,
      s.err.Nutterances ≤ (splitLoop split_align sig s).err.Nutterances := fun s => by
    induction s using splitLoop.induct split_align sig with
    | case1 s hrunning ih =>
      rw [splitLoop, if_pos hrunning]
      have hcounters := splitStep_counters split_align sig s
      omega
    | case2 s hdone => rw [splitLoop, if_neg hdone]
  exact hloop { err, Utt_id := 0 }

omit [Zero 𝕜] [LinearOrder 𝕜] in
/-- A frame has no delay exactly if there is no utterance. -/
theorem frameDelay_eq_none_iff (rate : Rate) (err : ErrorInfo 𝕜) (start_sample_ref : ℤ) :
    frameDelay rate err start_sample_ref = none ↔ err.Nutterances < 1 := by
  unfold frameDelay
  split
  · rename_i h
    exact iff_of_true rfl h
  · rename_i h
    refine iff_of_false ?_ h
    split <;> simp

/-- An utterance is found: the program does not touch its tables in front of the first entry, and no
frame makes it exit. -/
def FindsUtterance (al : Aligner 𝕜) (split_align : SplitAlign 𝕜) (sig : Signals 𝕜)
    (err : ErrorInfo 𝕜) : Prop :=
  1 ≤ (id_searchwindows sig err).err.Nutterances ∧
    (∀ i ∈ (locate al sig err).touched, 0 ≤ i) ∧
      ∀ start_sample_ref,
        frameDelay sig.rate (utterance_locate al split_align sig err) start_sample_ref ≠ none

/-- An utterance is found exactly if a run of the activity is one. -/
theorem findsUtterance_iff_exists {sig : Signals 𝕜} {err : ErrorInfo 𝕜} {rs : List Run}
    (al : Aligner 𝕜) (split_align : SplitAlign 𝕜) (hVAD : ∀ i, 0 ≤ sig.VAD i)
    (h : IsRuns (fun i => 0 < sig.VAD i) 0 sig.VAD_length rs) :
    FindsUtterance al split_align sig err ↔
      ∃ r ∈ rs, isAccepted sig err.Crude_DelayEst r = true := by
  have hcount : (id_searchwindows sig err).err.Nutterances =
      rs.countP (isAccepted sig err.Crude_DelayEst) := id_searchwindows_Nutterances hVAD h
  have hsome : (1 : ℤ) ≤ rs.countP (isAccepted sig err.Crude_DelayEst) ↔
      ∃ r ∈ rs, isAccepted sig err.Crude_DelayEst r = true := by
    rw [← List.countP_pos_iff]
    omega
  rw [← hsome, ← hcount]
  constructor
  · exact fun hfinds => hfinds.1
  · intro hone
    refine ⟨hone, fun i hi => ?_, fun start => ?_⟩
    · have halign := (alignAll_counters al (id_searchwindows sig err).err).1
      rcases mem_id_utterances_touched.mp hi with hi | hi
      · exact scan_touched_nonneg hVAD h hi
      · omega
    · have hsplit := le_utterance_split split_align sig (locate al sig err).err
      have hlocate := locate_Nutterances al sig err
      rw [Ne, frameDelay_eq_none_iff]
      show ¬(utterance_split split_align sig (locate al sig err).err).Nutterances < 1
      omega

end Counting

/-! ## Utterances of detected speech -/

/-- An utterance is found exactly if one of the runs of speech of the reference is long enough and
overlaps the degraded signal. -/
theorem findsUtterance_iff {𝕜 : Type*} [Field 𝕜] [LinearOrder 𝕜] [IsStrictOrderedRing 𝕜]
    (math : Math 𝕜) (rate : Rate) (energy : ℕ → 𝕜) (ref_Nsamples : ℕ) (deg_Nsamples : ℤ)
    (al : Aligner 𝕜) (split_align : SplitAlign 𝕜) (err : ErrorInfo 𝕜)
    (hN : 7 ≤ ref_Nsamples / rate.Downsample.toNat) :
    FindsUtterance al split_align
        (Signals.ofEnergies math rate energy ref_Nsamples deg_Nsamples) err ↔
      ∃ r ∈ speechRuns energy (ref_Nsamples / rate.Downsample.toNat) math,
        isAccepted (Signals.ofEnergies math rate energy ref_Nsamples deg_Nsamples)
          err.Crude_DelayEst r = true :=
  findsUtterance_iff_exists al split_align (detectActivity_nonneg energy math)
    (isRuns_ofEnergies hN)

/-! ## One burst -/

section Burst

/-- One range of windows is loud. -/
def burst (a b i : ℕ) : Prop := a ≤ i ∧ i < b

instance (a b : ℕ) : DecidablePred (burst a b) := fun _ => inferInstanceAs (Decidable (_ ∧ _))

/-- The speech begins before a burst and ends behind it. -/
theorem burst_widened {a b : ℕ} (hab : a + 4 < b) : a - 2 < b + 2 := by
  omega

/-- The speech of a signal with one burst. -/
theorem speechRuns_burst {a b N : ℕ} (ha : 3 ≤ a) (hab : a + 4 < b) (hb : b + 2 < N)
    (hN : N ≤ 10000) :
    speechRuns (twoLevels (burst a b) (1 : ℝ) 0) N realMath =
      [⟨a - 2, b + 2, burst_widened hab⟩] := by
  have hmixed : Mixed (burst a b) N := by
    have hloud : 0 < Nat.count (burst a b) N :=
      Nat.pos_of_ne_zero (Nat.count_ne_iff_exists.mpr ⟨a, by omega, le_refl _, by omega⟩)
    exact ⟨⟨0, by omega, fun h => absurd h.1 (by omega)⟩, by omega⟩
  have hruns : IsRuns (burst a b) 1 (1 + (N - 2)) [⟨a, b, by omega⟩] :=
    Runs.isRuns_singleton (by show 1 ≤ a; omega) (by show b ≤ 1 + (N - 2); omega)
      fun _ _ _ => Iff.rfl
  have hlong : isLong ⟨a, b, by omega⟩ = true := decide_eq_true (by show 4 < b - a; omega)
  rw [speechRuns_twoLevels Real.sqrt_zero one_pos hmixed hruns, List.filter_cons_of_pos hlong]
  refine congrArg (fun r => [r]) (Run.ext ?_ (if_pos hb))
  show min a (max 1 (a - 2)) = a - 2
  omega

/-- A signal with one burst, and one in step with it. -/
noncomputable def burstSignals (a b N : ℕ) : Signals ℝ :=
  Signals.ofEnergies realMath rate_16k (twoLevels (burst a b) 1 0) (N * 64) (N * 64)

/-- Every utterance is aligned best in two halves, with a delay of two windows for the second one.
-/
def splitHalf : SplitAlign ℝ := fun _ a =>
  { Best_ED1 := 0, Best_D1 := 0, Best_DC1 := 2, Best_ED2 := 128, Best_D2 := 128, Best_DC2 := 2,
    Best_BP := (a.Utt_Start + a.Utt_End).tdiv 2, test_DelayEst := 128, test_Delay := 128,
    test_Start := a.Utt_Start, test_End := a.Utt_End }

/-- A burst of sixty windows is an utterance. -/
theorem finds_long_burst :
    FindsUtterance (delayed 0) splitHalf (burstSignals 90 150 213) ErrorInfo.zero := by
  apply (findsUtterance_iff _ _ _ _ _ _ _ _ (by decide)).mpr
  rw [show 213 * 64 / rate_16k.Downsample.toNat = 213 from rfl,
    speechRuns_burst (by omega) (by omega) (by omega) (by omega)]
  exact ⟨_, List.mem_singleton_self _, by decide⟩

/-- A burst of ten windows is speech, but no utterance. -/
theorem misses_short_burst :
    ¬FindsUtterance (delayed 0) splitHalf (burstSignals 100 110 213) ErrorInfo.zero := by
  have hruns : IsRuns (fun i => 0 < (burstSignals 100 110 213).VAD i) 0
      (burstSignals 100 110 213).VAD_length
        (speechRuns (twoLevels (burst 100 110) 1 0) 213 realMath) :=
    isRuns_ofEnergies (by decide)
  rw [findsUtterance_iff_exists (delayed 0) splitHalf (detectActivity_nonneg _ _) hruns,
    speechRuns_burst (by omega) (by omega) (by omega) (by omega)]
  rintro ⟨r, hr, haccepted⟩
  rw [List.mem_singleton.mp hr] at haccepted
  exact absurd haccepted (by decide)

end Burst

end TgVoipRate.Pesq
