import Mathlib
import TgVoipRate.Pesq.GainSpec
import TgVoipRate.Pesq.ScoreSpec

/-!
# How a measurement ends

Two signals that are long enough are measured in one of three ways, each of which has its own cause
(`measure_outcome`). A score is on the scale that is printed, where the lower bound never acts. The
printed value grows with the score, until the upper bound acts (`printed_lt_iff`). The tables have
room for all utterances here; where there are more than `MAXNUTTERANCES`, the source has no defined
outcome.
-/

namespace TgVoipRate.Pesq.Acoustic

variable {num : Numerics ℝ} (hnum : Exact num)

/-! ## The scale of listeners -/

include hnum in
/-- The mapping of the wideband mode is a logistic function. -/
theorem mapped_mos_wb (x : ℝ) :
    mapped_mos num .WB_MODE x = 0.999 + 4 / (1 + Real.exp (3.8224 - 1.3669 * x)) := by
  unfold mapped_mos
  dsimp only
  rw [hnum.exp_eq]
  norm_num
  ring_nf

include hnum in
/-- It is strictly increasing. -/
theorem mapped_mos_strictMono : StrictMono (mapped_mos num .WB_MODE) := by
  intro x y hxy
  rw [mapped_mos_wb hnum, mapped_mos_wb hnum]
  gcongr

/-- What `main` prints is a line between two bounds. -/
theorem scaled_value_eq (mapped : ℝ) :
    scaled_value mapped = min 5 (max 1 (1.10414616 * mapped - 0.10414616)) := by
  have hline : ((1.10414616 : ℚ) : ℝ) * mapped + ((-0.10414616 : ℚ) : ℝ) =
      1.10414616 * mapped - 0.10414616 := by
    norm_num
    ring
  have hfive : ((5 : ℚ) : ℝ) = 5 := by norm_num
  unfold scaled_value
  rw [hline, hfive]
  dsimp only
  rw [max_def_lt, min_def_lt]
  split_ifs <;> linarith

include hnum in
/-- For a score in the range of the acoustic model, the line is above the lower bound. -/
theorem one_lt_line {x : ℝ} (hx : -13905 / 10000 ≤ x) :
    1 < 1.10414616 * mapped_mos num .WB_MODE x - 0.10414616 := by
  have hexp : Real.exp (3.8224 - 1.3669 * x) < 1000 := by
    calc Real.exp (3.8224 - 1.3669 * x) ≤ Real.exp 6 := Real.exp_le_exp.mpr (by linarith)
      _ = Real.exp 1 ^ 6 := by
        rw [← Real.exp_nat_mul]
        norm_num
      _ ≤ 2.7182818286 ^ 6 := by
        gcongr
        exact Real.exp_one_lt_d9.le
      _ < 1000 := by norm_num
  have hpos := Real.exp_pos (3.8224 - 1.3669 * x)
  have hfraction : 4 / 1001 < 4 / (1 + Real.exp (3.8224 - 1.3669 * x)) :=
    div_lt_div_of_pos_left (by norm_num) (by linarith) (by linarith)
  rw [mapped_mos_wb hnum]
  norm_num at hfraction ⊢
  linarith

include hnum in
/-- For the highest score it is above the upper bound. -/
theorem five_le_line : 5 ≤ 1.10414616 * mapped_mos num .WB_MODE (9 / 2) - 0.10414616 := by
  have hexp : (10 : ℝ) ≤ Real.exp 2.32865 := by
    have hsplit : Real.exp 2.32865 = Real.exp 1 ^ 2 * Real.exp 0.32865 := by
      rw [← Real.exp_nat_mul, ← Real.exp_add]
      norm_num
    calc (10 : ℝ) ≤ 2.7182818283 ^ 2 * (1 + 0.32865 + 0.32865 ^ 2 / 2) := by norm_num
      _ ≤ Real.exp 1 ^ 2 * Real.exp 0.32865 := by
        gcongr
        · exact Real.exp_one_gt_d9.le
        · exact Real.quadratic_le_exp_of_nonneg (by norm_num)
      _ = Real.exp 2.32865 := hsplit.symm
  have hinv : Real.exp (3.8224 - 1.3669 * (9 / 2)) ≤ 1 / 10 := by
    have hneg : (3.8224 - 1.3669 * (9 / 2) : ℝ) = -2.32865 := by norm_num
    rw [hneg, Real.exp_neg, ← one_div]
    exact one_div_le_one_div_of_le (by norm_num) hexp
  have hpos := Real.exp_pos (3.8224 - 1.3669 * (9 / 2) : ℝ)
  have hfraction : 4 / 1.1 ≤ 4 / (1 + Real.exp (3.8224 - 1.3669 * (9 / 2))) :=
    div_le_div_of_nonneg_left (by norm_num) (by linarith) (by linarith)
  rw [mapped_mos_wb hnum]
  norm_num at hfraction ⊢
  linarith

include hnum in
/-- What is printed for a score in the range of the acoustic model. -/
theorem scaled_value_mapped {x : ℝ} (hx : -13905 / 10000 ≤ x) :
    scaled_value (mapped_mos num .WB_MODE x) =
      min 5 (1.10414616 * mapped_mos num .WB_MODE x - 0.10414616) := by
  rw [scaled_value_eq, max_eq_right (one_lt_line hnum hx).le]

include hnum in
/-- The value that is printed says which of two scores is higher, as long as the lower one is not
printed as 5. -/
theorem printed_lt_iff {x y : ℝ} (hx : -13905 / 10000 ≤ x) (hy : -13905 / 10000 ≤ y) :
    scaled_value (mapped_mos num .WB_MODE x) < scaled_value (mapped_mos num .WB_MODE y) ↔
      x < y ∧ scaled_value (mapped_mos num .WB_MODE x) < 5 := by
  have hmono := mapped_mos_strictMono hnum
  rw [scaled_value_mapped hnum hx, scaled_value_mapped hnum hy, lt_min_iff, and_comm]
  refine and_congr_left fun hfive => ?_
  rw [min_lt_iff, or_iff_right (lt_irrefl 5)] at hfive
  rw [min_eq_right hfive.le, sub_lt_sub_iff_right, mul_lt_mul_iff_right₀ (by norm_num),
    hmono.lt_iff_lt]

include hnum in
/-- The value that is printed for a score is above 1 and at most 5, which the highest score is
printed as. -/
theorem printed_mem {x : ℝ} (hx : -13905 / 10000 ≤ x) :
    (1 < scaled_value (mapped_mos num .WB_MODE x) ∧
        scaled_value (mapped_mos num .WB_MODE x) ≤ 5) ∧
      (x = 9 / 2 → scaled_value (mapped_mos num .WB_MODE x) = 5) := by
  have hprinted := scaled_value_mapped hnum hx
  refine ⟨⟨?_, hprinted.trans_le (min_le_left _ _)⟩, fun hhighest => ?_⟩
  · exact (lt_min (by norm_num) (one_lt_line hnum hx)).trans_eq hprinted.symm
  · rw [hhighest] at hprinted ⊢
    exact hprinted.trans (min_eq_left (five_le_line hnum))

/-! ## The three ways -/

variable (around : Surroundings ℝ) {ref deg : Signal ℝ}

/-- A signal is prepared exactly if it has power above 300 Hz. -/
theorem prepare_eq_none_iff (num : Numerics ℝ) (sig : Signal ℝ) (maxNsamples : ℤ) :
    prepare num sig maxNsamples = none ↔
      power_above_300Hz num rate_16k sig.data sig.Nsamples maxNsamples = 0 := by
  unfold prepare fix_power_level
  rw [Option.map_eq_none_iff, ite_eq_left_iff]
  simp only [reduceCtorEq, imp_false, not_not]

/-- Preparing a signal keeps its length. -/
theorem Nsamples_of_prepare {sig sig' : Signal ℝ} {maxNsamples : ℤ}
    (h : prepare num sig maxNsamples = some sig') : sig'.Nsamples = sig.Nsamples := by
  obtain ⟨data, -, rfl⟩ := Option.map_eq_some_iff.mp h
  rfl

/-- The acoustic model of signals that are long enough exits exactly if no utterance is found. -/
theorem exits_iff (hadmits : rate_16k.Admits ref.Nsamples deg.Nsamples) :
    (acousticInput num around ref deg).Exits ↔
      (findUtterances num around (filtered ref) (filtered deg)).Nutterances < 1 := by
  have hlong : 13600 ≤ (acousticInput num around ref deg).maxNsamples :=
    le_max_of_le_left hadmits.le.1
  have hbuffer : (acousticInput num around ref deg).rate.buffer = 4800 := rfl
  have hpadding : (acousticInput num around ref deg).rate.padding = 5120 := rfl
  unfold AcousticInput.Exits
  rw [hbuffer, hpadding]
  constructor
  · rintro (hnone | hneg | hshort)
    · exact hnone
    · omega
    · omega
  · exact Or.inl

include hnum in
/-- A measurement gives a score in the range of the acoustic model. -/
theorem scores_of_measure (hadmits : rate_16k.Admits ref.Nsamples deg.Nsamples)
    {scores : Scores ℝ} (h : pesq_measure num around .WB_MODE ref deg = .score scores) :
    ∃ pesq_mos, scores = scoresOf num .WB_MODE pesq_mos ∧
      -13905 / 10000 ≤ pesq_mos ∧ pesq_mos ≤ 9 / 2 := by
  unfold pesq_measure at h
  dsimp only at h
  split at h
  · rename_i ref' deg' href hdeg
    have hadmitted : (acousticInput num around ref' deg').Admitted := by
      refine ⟨rfl, ?_⟩
      show rate_16k.Admits ref'.Nsamples deg'.Nsamples
      rw [Nsamples_of_prepare href, Nsamples_of_prepare hdeg]
      exact hadmits
    split at h
    · cases h
    · cases h
    · rename_i pesq_mos hmodel
      cases h
      unfold pesq_psychoacoustic_model at hmodel
      split at hmodel
      · cases hmodel
      · exact ⟨pesq_mos, rfl, AcousticInput.score_mem_range hnum hadmitted _ _
          (Option.some.inj hmodel)⟩
  · cases h

include hnum in
/-- A measurement of two signals that are long enough exits if no utterance is found. What it
computes is no number if a signal has no power above 300 Hz, or if no frame counts. Otherwise there
is a score, which is in the range of the acoustic model, and the value that is printed for it is
above 1. The highest score is printed as 5. -/
theorem measure_outcome (hadmits : rate_16k.Admits ref.Nsamples deg.Nsamples) :
    let maxNsamples := max ref.Nsamples deg.Nsamples
    match pesq_measure num around .WB_MODE ref deg with
    | .exits => ∃ ref' deg', prepare num ref maxNsamples = some ref' ∧
        prepare num deg maxNsamples = some deg' ∧
        (findUtterances num around (filtered ref') (filtered deg')).Nutterances < 1
    | .notNumbers =>
        power_above_300Hz num rate_16k ref.data ref.Nsamples maxNsamples = 0 ∨
        power_above_300Hz num rate_16k deg.data deg.Nsamples maxNsamples = 0 ∨
        ∃ ref' deg', prepare num ref maxNsamples = some ref' ∧
          prepare num deg maxNsamples = some deg' ∧
          (acousticInput num around ref' deg').stop_frame <
            (acousticInput num around ref' deg').start_frame
    | .score scores => ∃ pesq_mos, scores = scoresOf num .WB_MODE pesq_mos ∧
        (-13905 / 10000 ≤ pesq_mos ∧ pesq_mos ≤ 9 / 2) ∧
        (1 < scaled_value scores.mapped_mos ∧ scaled_value scores.mapped_mos ≤ 5) ∧
        (pesq_mos = 9 / 2 → scaled_value scores.mapped_mos = 5) := by
  intro maxNsamples
  unfold pesq_measure
  dsimp only
  cases href : prepare num ref (max ref.Nsamples deg.Nsamples) with
  | none => exact Or.inl ((prepare_eq_none_iff _ _ _).mp href)
  | some ref' =>
    cases hdeg : prepare num deg (max ref.Nsamples deg.Nsamples) with
    | none => exact Or.inr (Or.inl ((prepare_eq_none_iff _ _ _).mp hdeg))
    | some deg' =>
      have hadmits' : rate_16k.Admits ref'.Nsamples deg'.Nsamples := by
        rw [Nsamples_of_prepare href, Nsamples_of_prepare hdeg]
        exact hadmits
      have hadmitted : (acousticInput num around ref' deg').Admitted := ⟨rfl, hadmits'⟩
      dsimp only
      unfold pesq_psychoacoustic_model
      by_cases hexits : (acousticInput num around ref' deg').Exits
      · rw [if_pos hexits]
        exact ⟨ref', deg', rfl, rfl, (exits_iff around hadmits').mp hexits⟩
      · rw [if_neg hexits]
        cases hmos : (acousticInput num around ref' deg').pesq_mos num around.frame_disturbance
          around.frame_disturbance_asym_add with
        | none =>
          refine Or.inr (Or.inr ⟨ref', deg', rfl, rfl, ?_⟩)
          by_contra hframes
          have hscore := FinalInput.pesq_mos_eq
            (hadmitted.standard hnum ((acousticInput num around ref' deg').disturbances num
              around.frame_disturbance around.frame_disturbance_asym_add)) (not_lt.mp hframes)
          exact absurd (hmos.symm.trans hscore) (by simp)
        | some pesq_mos =>
          obtain ⟨hge, hle⟩ := AcousticInput.score_mem_range hnum hadmitted _ _ hmos
          exact ⟨pesq_mos, rfl, ⟨hge, hle⟩, printed_mem hnum hge⟩

/-- How the measurement of a click ends. -/
theorem measure_outcome_click :
    match pesq_measure realNumerics zeroSurroundings .WB_MODE click click with
    | .exits => ∃ ref' deg', prepare realNumerics click 13600 = some ref' ∧
        prepare realNumerics click 13600 = some deg' ∧
        (findUtterances realNumerics zeroSurroundings (filtered ref') (filtered deg')).Nutterances <
          1
    | .notNumbers =>
        power_above_300Hz realNumerics rate_16k click.data click.Nsamples 13600 = 0 ∨
        power_above_300Hz realNumerics rate_16k click.data click.Nsamples 13600 = 0 ∨
        ∃ ref' deg', prepare realNumerics click 13600 = some ref' ∧
          prepare realNumerics click 13600 = some deg' ∧
          (acousticInput realNumerics zeroSurroundings ref' deg').stop_frame <
            (acousticInput realNumerics zeroSurroundings ref' deg').start_frame
    | .score scores => ∃ pesq_mos, scores = scoresOf realNumerics .WB_MODE pesq_mos ∧
        (-13905 / 10000 ≤ pesq_mos ∧ pesq_mos ≤ 9 / 2) ∧
        (1 < scaled_value scores.mapped_mos ∧ scaled_value scores.mapped_mos ≤ 5) ∧
        (pesq_mos = 9 / 2 → scaled_value scores.mapped_mos = 5) :=
  @measure_outcome realNumerics exact_realNumerics zeroSurroundings click click admits_short

end TgVoipRate.Pesq.Acoustic
