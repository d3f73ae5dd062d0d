import TgVoipRate.Pesq.MeasureSpec
import TgVoipRate.PipelineSignals

/-!
# The number that a run prints

The last parameter of a run is filled in: the levels, the filters and the acoustic model are
`pesq_measure` on what `load_src` has left (`measure`). Whatever else happens in a run, the number
of a score, before it is rounded to three decimals, is above 1 and at most 5, and comes from a score
in the range of the acoustic model, which it grows with (`main_prints`).
-/

namespace TgVoipRate.Pipeline

open FileSystem (Path World)
open Pesq (SignalInfo rate_16k)
open Pesq.Acoustic (Numerics Exact Surroundings Signal pesq_measure mapped_mos scaled_value)

/-- `measure` gives a number for two loaded files, or something that is not a number, or none where
the process exits. Both signals are heard through the filter of wideband mode. -/
noncomputable def measure (num : Numerics ℝ) (around : Surroundings ℝ)
    (ref_info deg_info : SignalInfo) : Option (Option ℝ) :=
  match pesq_measure num around .WB_MODE (Signal.ofInfo ref_info 2)
      (Signal.ofInfo deg_info 2) with
  | .exits => none
  | .notNumbers => some none
  | .score scores => some (some scores.mapped_mos)

/-- Two loaded files that are not too short are measured. -/
theorem admits_of_not_tooShort {ref_info deg_info : SignalInfo} (href : tooShort ref_info = false)
    (hdeg : tooShort deg_info = false) :
    rate_16k.Admits ref_info.Nsamples deg_info.Nsamples := by
  unfold tooShort at href hdeg
  exact not_or.mpr ⟨of_decide_eq_false href, of_decide_eq_false hdeg⟩

/-! ## The number -/

/-- The number that the printed one is computed from, if there is one. -/
def Printed.number {S : Type} : Printed (Option S) → Option S
  | .score mapped => mapped
  | _ => none

/-- What a number says of its score. It is printed with three decimals, in which close scores may
agree. -/
structure Says (num : Numerics ℝ) (pesq_mos mapped : ℝ) : Prop where
  mapped_eq : mapped = mapped_mos num .WB_MODE pesq_mos
  /-- The range of the acoustic model. -/
  score_mem : pesq_mos ∈ Set.Icc (-13905 / 10000) (9 / 2)
  /-- The range of the numbers. -/
  printed_mem : scaled_value mapped ∈ Set.Ioc 1 5
  /-- A higher score has a higher number, up to the highest one. -/
  lt_iff : ∀ other ∈ Set.Icc (-13905 / 10000 : ℝ) (9 / 2),
    scaled_value mapped < scaled_value (mapped_mos num .WB_MODE other) ↔
      pesq_mos < other ∧ scaled_value mapped < 5

/-- A run that measures its files prints no number but those of scores, whatever fails around it. -/
theorem main_prints {num : Numerics ℝ} (hnum : Exact num) {around : Surroundings ℝ}
    {env : Environment (Option ℝ)} (hmodel : env.model = measure num around) (w : World)
    (A B : Path) :
    ∀ mapped ∈ (main env w A B).printed.number, ∃ pesq_mos, Says num pesq_mos mapped := by
  intro mapped hmapped
  have hprinted : (main env w A B).printed = .score (some mapped) := by
    cases h : (main env w A B).printed with
    | score mos =>
      rw [h] at hmapped
      exact congrArg Printed.score hmapped
    | nothing | usage | failed =>
      rw [h] at hmapped
      cases hmapped
  obtain ⟨-, -, href, hdeg, hscore⟩ := model_of_score (measurement_of_printed hprinted)
  rw [hmodel] at hscore
  unfold measure at hscore
  split at hscore
  · cases hscore
  · cases hscore
  · rename_i scores hscores
    obtain ⟨pesq_mos, heq, hrange⟩ := Pesq.Acoustic.scores_of_measure hnum around
      (admits_of_not_tooShort href hdeg) hscores
    obtain rfl : scores.mapped_mos = mapped := Option.some.inj (Option.some.inj hscore)
    rw [heq]
    exact ⟨pesq_mos, rfl, hrange, (Pesq.Acoustic.printed_mem hnum hrange.1).1,
      fun other hother => Pesq.Acoustic.printed_lt_iff hnum hrange.1 hother.1⟩

end TgVoipRate.Pipeline
