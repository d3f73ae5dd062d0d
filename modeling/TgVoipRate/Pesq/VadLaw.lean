import Mathlib.Algebra.Order.Ring.Rat
import TgVoipRate.Pesq.VadSpec

/-!
# What `apply_VAD` promises

The runs of speech that the detection leaves (`isRuns_detectActivity`) are the joined runs, widened
by up to two windows on each side. The joined runs are long and more than `JOINSPEECHLGTH` apart, so
the widened ones are long and still almost as far apart. The loop that smooths the edges reads and
writes around its position, which stays two windows away from the ends of the array
(`mem_taperTouched`).
-/

namespace TgVoipRate.Pesq

open Runs (Run IsRuns)

variable {𝕜 : Type*} [Field 𝕜] [LinearOrder 𝕜]

/-! ## The indices of the smoothing loop -/

/-- The indices that the body of the smoothing loop reads or writes: those before its position, and
those around the next position if a run starts here. -/
def taperStep_touched (VAD : ℕ → 𝕜) (count : ℕ) : List ℤ :=
  let next : ℤ := if VAD count > 0 ∧ VAD (count - 2) ≤ 0 then count + 1 else count
  [(count : ℤ), count - 2, count - 1, next, next - 1, next + 1]

/-- The indices that the smoothing loop reads or writes from a position on. -/
def taperTouched (Nwindows : ℕ) (VAD : ℕ → 𝕜) (count : ℕ) : List ℤ :=
  if count < Nwindows - 2 then
    taperStep_touched VAD count ++ taperTouched Nwindows (taperStep VAD count).1
      (taperStep VAD count).2
  else []
termination_by Nwindows - count
decreasing_by
  have := lt_taperStep VAD count
  omega

/-- The body of the loop stays between two positions before its own and two behind it. -/
theorem mem_taperStep_touched {VAD : ℕ → 𝕜} {count : ℕ} {i : ℤ}
    (hi : i ∈ taperStep_touched VAD count) : (count : ℤ) - 2 ≤ i ∧ i ≤ count + 2 := by
  unfold taperStep_touched at hi
  dsimp only at hi
  split at hi
  all_goals
    simp only [List.mem_cons, List.not_mem_nil, or_false] at hi
    omega

/-- The loop stays in the array. -/
theorem mem_taperTouched {Nwindows : ℕ} : ∀ (VAD : ℕ → 𝕜) (count : ℕ), 3 ≤ count →
    ∀ i ∈ taperTouched Nwindows VAD count, 0 ≤ i ∧ i ≤ (Nwindows : ℤ) - 1 := by
  intro VAD count hcount i hi
  rw [taperTouched] at hi
  split at hi
  · rename_i hguard
    have hforward := lt_taperStep VAD count
    rcases List.mem_append.mp hi with hi | hi
    · have hnear := mem_taperStep_touched hi
      exact ⟨by omega, by omega⟩
    · exact mem_taperTouched _ _ (by omega) i hi
  · cases hi
termination_by _ count => Nwindows - count
decreasing_by omega

/-! ## The law -/

/-- What is promised about the array of activity. -/
structure ActivityLaw (Nwindows : ℕ) (VAD : ℕ → 𝕜) : Prop where
  /-- No entry is negative. -/
  nonneg : ∀ i < Nwindows, 0 ≤ VAD i
  /-- The first entry is zero. -/
  first : VAD 0 = 0
  /-- The maximal runs of positive entries, with zeros between them, are long and far from each
  other. -/
  runs : ∃ rs, IsRuns (fun i => 0 < VAD i) 0 Nwindows rs ∧
    (∀ r ∈ rs, MINSPEECHLGTH < (r.length : ℤ)) ∧
    (rs.Pairwise fun r q => (r.finish : ℤ) + (JOINSPEECHLGTH - 3) ≤ q.start) ∧
    ∀ i < Nwindows, (∀ r ∈ rs, ¬r.Contains i) → VAD i = 0

omit [Field 𝕜] [LinearOrder 𝕜] in
/-- Widening makes a run longer. -/
theorem length_le_widen (Nwindows first : ℕ) (r : Run) :
    r.length ≤ (widen Nwindows first r).length := by
  have hstart : (widen Nwindows first r).start = min r.start (max first (r.start - 2)) := rfl
  have hfinish : (widen Nwindows first r).finish =
    if r.finish + 2 < Nwindows then r.finish + 2 else r.finish := rfl
  unfold Run.length
  split at hfinish <;> omega

omit [Field 𝕜] [LinearOrder 𝕜] in
/-- Widening takes at most two windows off each side of a gap. -/
theorem widen_far {Nwindows first : ℕ} {r q : Run} (h : r.finish + 50 < q.start) :
    (widen Nwindows first r).finish + 47 ≤ (widen Nwindows first q).start := by
  have hstart : (widen Nwindows first q).start = min q.start (max first (q.start - 2)) := rfl
  have hfinish : (widen Nwindows first r).finish =
    if r.finish + 2 < Nwindows then r.finish + 2 else r.finish := rfl
  split at hfinish <;> omega

/-- The runs of speech are long. -/
theorem length_speechRuns (math : Math 𝕜) (energy : ℕ → 𝕜) {Nwindows : ℕ} (hN : 7 ≤ Nwindows) :
    ∀ r ∈ speechRuns energy Nwindows math, 4 < r.length := by
  intro r hr
  obtain ⟨q, hq, rfl⟩ := List.mem_map.mp hr
  have hlong : 4 < q.length :=
    of_decide_eq_true (isLong_orWhole hN (isLong_of_mem_joinedRuns _ _) q hq)
  exact hlong.trans_le (length_le_widen Nwindows 1 q)

/-- The runs of speech are far from each other. -/
theorem speechRuns_far (math : Math 𝕜) (energy : ℕ → 𝕜) (Nwindows : ℕ) :
    (speechRuns energy Nwindows math).Pairwise fun r q => r.finish + 47 ≤ q.start := by
  apply List.pairwise_map.mpr
  exact (orWhole_far (joinedRuns_far _ _)).imp fun h => widen_far h

variable [IsStrictOrderedRing 𝕜]

/-- For every sequence of at least 212 energies the detection keeps its promise, and the smoothing
loop, which ends, stays in the array. -/
theorem detectActivity_law (math : Math 𝕜) (energy : ℕ → 𝕜) {Nwindows : ℕ} (hN : 212 ≤ Nwindows) :
    ActivityLaw Nwindows (detectActivity math energy Nwindows).VAD ∧
      ∀ i ∈ taperTouched Nwindows (speechSigns (levels math energy Nwindows) energy Nwindows) 3,
        0 ≤ i ∧ i ≤ (Nwindows : ℤ) - 1 := by
  have hruns := isRuns_detectActivity energy math (show 7 ≤ Nwindows by omega)
  have hnonneg : ∀ i, 0 ≤ (detectActivity math energy Nwindows).VAD i :=
    detectActivity_nonneg energy math
  have hzero : ∀ i < Nwindows, (∀ r ∈ speechRuns energy Nwindows math, ¬r.Contains i) →
      (detectActivity math energy Nwindows).VAD i = 0 := by
    intro i hi hout
    have hnot : ¬0 < (detectActivity math energy Nwindows).VAD i := fun hpos => by
      obtain ⟨r, hr, hin⟩ := (hruns.mem_iff i (Nat.zero_le i) hi).mp hpos
      exact hout r hr hin
    exact le_antisymm (not_lt.mp hnot) (hnonneg i)
  refine ⟨⟨fun i _ => hnonneg i, ?_, _, hruns, fun r hr => ?_, ?_, hzero⟩,
    mem_taperTouched _ 3 (le_refl 3)⟩
  · -- No run of speech starts with the first window.
    refine hzero 0 (by omega) fun r hr hin => ?_
    have hb := (isRuns_taper_speechSigns energy math (show 7 ≤ Nwindows by omega)).1.bounds r hr
    exact absurd hin.1 (by omega)
  · have hlong := length_speechRuns math energy (show 7 ≤ Nwindows by omega) r hr
    show (4 : ℤ) < r.length
    exact_mod_cast hlong
  · refine (speechRuns_far math energy Nwindows).imp fun {r q} h => ?_
    show (r.finish : ℤ) + (50 - 3) ≤ q.start
    omega

/-- A signal of 212 windows with one loud part. -/
theorem detectActivity_law_loud :
    ActivityLaw 212 (detectActivity (𝕜 := ℚ) { sqrt := id, log := id }
      (fun i => if 100 ≤ i ∧ i < 160 then 1 else 0) 212).VAD :=
  (detectActivity_law { sqrt := id, log := id } _ (le_refl 212)).1

end TgVoipRate.Pesq
