import Mathlib.Algebra.BigOperators.Field
import Mathlib.Algebra.BigOperators.Ring.Finset
import Mathlib.Tactic.FieldSimp
import Mathlib.Tactic.NormNum
import Mathlib.Tactic.Ring
import TgVoipRate.Pesq.VadSpec

/-!
# Signals with two levels

In a signal whose windows are silent or of one loud level, the threshold of the detection settles
right above the level of silence, at once (`nextThresh_twoLevels`). So the windows above it are the
loud ones, every run of them stands out, and the runs of speech are those of the loud windows
(`speechRuns_twoLevels`).
-/

namespace TgVoipRate.Pesq

open Runs (Run IsRuns runsFrom joinGaps)

variable {𝕜 : Type*} [Field 𝕜] [LinearOrder 𝕜] [IsStrictOrderedRing 𝕜]

/-- A signal of one level in the loud windows and another one in the others. -/
def twoLevels (loud : ℕ → Prop) [DecidablePred loud] (e l : 𝕜) (i : ℕ) : 𝕜 :=
  if loud i then e else l

variable {loud : ℕ → Prop} [DecidablePred loud] {e l t : 𝕜} {Nwindows : ℕ}

/-- Some windows are silent, and the loud ones are not too few. -/
structure Mixed (loud : ℕ → Prop) [DecidablePred loud] (Nwindows : ℕ) : Prop where
  silent : ∃ i < Nwindows, ¬loud i
  many : Nwindows ≤ 10000 * Nat.count loud Nwindows

/-- There are fewer loud windows than windows. -/
theorem Mixed.count_lt (h : Mixed loud Nwindows) : Nat.count loud Nwindows < Nwindows := by
  obtain ⟨i, hi, hsilent⟩ := h.silent
  refine lt_of_le_of_ne (Nat.count_le _) fun heq => hsilent ?_
  exact Nat.count_iff_forall.mp heq i hi

/-- There is a loud window. -/
theorem Mixed.count_pos (h : Mixed loud Nwindows) : 0 < Nat.count loud Nwindows := by
  have := h.count_lt
  have := h.many
  omega

omit [IsStrictOrderedRing 𝕜] in
/-- The highest of some energies, one of which is loud. -/
theorem foldl_max_twoLevels (he : 0 < e) (is : List ℕ) (m : 𝕜) (hm : m = 0 ∨ m = e)
    (h : m = e ∨ ∃ i ∈ is, loud i) :
    is.foldl (fun m i => if twoLevels loud e 0 i > m then twoLevels loud e 0 i else m) m = e := by
  induction is generalizing m with
  | nil => simpa using h
  | cons j is ih =>
    have hnext : (if twoLevels loud e 0 j > m then twoLevels loud e 0 j else m) =
        if loud j then e else m := by
      unfold twoLevels
      rcases hm with rfl | rfl <;> by_cases hj : loud j <;> simp [hj, he, he.le]
    rw [List.foldl_cons, hnext]
    split
    · exact ih e (Or.inr rfl) (Or.inl rfl)
    · rename_i hj
      refine ih m hm (h.imp_right ?_)
      rintro ⟨i, hi, hloud⟩
      rcases List.mem_cons.mp hi with rfl | hi
      · exact absurd hloud hj
      · exact ⟨i, hi, hloud⟩

omit [IsStrictOrderedRing 𝕜] in
/-- The lowest level is a small part of the loud one. -/
theorem lowestLevel_twoLevels (he : 0 < e) (h : Mixed loud Nwindows) :
    lowestLevel (twoLevels loud e 0) Nwindows = e * (1 / 10000) := by
  obtain ⟨i, hi, hloud⟩ := Nat.count_ne_iff_exists.mp h.count_pos.ne'
  unfold lowestLevel
  rw [foldl_max_twoLevels he _ _ (Or.inl rfl) (Or.inr ⟨i, List.mem_range.mpr hi, hloud⟩)]
  exact if_pos he

omit [Field 𝕜] [IsStrictOrderedRing 𝕜] in
/-- Raising changes the lower level. -/
theorem raise_twoLevels {l' : 𝕜} (hl : l < l') (he : l' ≤ e) :
    raise l' (twoLevels loud e l) = twoLevels loud e l' := by
  funext i
  unfold raise twoLevels
  by_cases hi : loud i
  · rw [if_pos hi, if_pos hi, if_neg (not_lt.mpr he)]
  · rw [if_neg hi, if_neg hi, if_pos hl]

omit [Field 𝕜] [IsStrictOrderedRing 𝕜] in
/-- A window does not exceed a threshold between the levels if it is not loud. -/
theorem twoLevels_le_iff (hlow : l ≤ t) (hhigh : t < e) (i : ℕ) :
    twoLevels loud e l i ≤ t ↔ ¬loud i := by
  unfold twoLevels
  split
  · rename_i h
    exact iff_of_false (not_le.mpr hhigh) (not_not.mpr h)
  · rename_i h
    exact iff_of_true hlow h

/-- The windows that are not loud. -/
theorem count_not_loud :
    Nat.count (fun i => ¬loud i) Nwindows = Nwindows - Nat.count loud Nwindows := by
  have hcard := Finset.card_filter_add_card_filter_not (s := Finset.range Nwindows) loud
  rw [Finset.card_range, ← Nat.count_eq_card_filter_range, ← Nat.count_eq_card_filter_range]
    at hcard
  omega

omit [LinearOrder 𝕜] [IsStrictOrderedRing 𝕜] in
/-- The sum over all windows. -/
theorem sum_twoLevels :
    ∑ i ∈ Finset.range Nwindows, twoLevels loud e l i =
      Nat.count loud Nwindows * e + (Nwindows - Nat.count loud Nwindows : ℕ) * l := by
  unfold twoLevels
  rw [Finset.sum_ite, Finset.sum_const, Finset.sum_const, nsmul_eq_mul, nsmul_eq_mul,
    ← Nat.count_eq_card_filter_range, ← Nat.count_eq_card_filter_range, count_not_loud]

omit [Field 𝕜] [IsStrictOrderedRing 𝕜] in
/-- A value that depends on how a window compares with a threshold between the levels. -/
theorem ite_twoLevels_le (hlow : l ≤ t) (hhigh : t < e) (f g : 𝕜 → 𝕜) (i : ℕ) :
    (if twoLevels loud e l i ≤ t then f (twoLevels loud e l i) else g (twoLevels loud e l i)) =
      twoLevels loud (g e) (f l) i := by
  simp only [twoLevels_le_iff hlow hhigh]
  unfold twoLevels
  by_cases hi : loud i
  · rw [if_neg (not_not.mpr hi), if_pos hi, if_pos hi]
  · rw [if_pos hi, if_neg hi, if_neg hi]

omit [IsStrictOrderedRing 𝕜] in
/-- The sum of a value over the windows that do not exceed a threshold between the levels. -/
theorem sum_le_thresh (hlow : l ≤ t) (hhigh : t < e) (f : 𝕜 → 𝕜) :
    (∑ i ∈ Finset.range Nwindows,
      if twoLevels loud e l i ≤ t then f (twoLevels loud e l i) else 0) =
      (Nwindows - Nat.count loud Nwindows : ℕ) * f l := by
  rw [Finset.sum_congr rfl fun i _ => ite_twoLevels_le hlow hhigh f (fun _ => 0) i, sum_twoLevels,
    mul_zero, zero_add]

omit [IsStrictOrderedRing 𝕜] in
/-- The sum over the windows that exceed a threshold between the levels. -/
theorem sum_gt_thresh (hlow : l ≤ t) (hhigh : t < e) :
    (∑ i ∈ Finset.range Nwindows,
      if twoLevels loud e l i > t then twoLevels loud e l i else 0) =
      Nat.count loud Nwindows * e := by
  have hite : ∀ i, (if twoLevels loud e l i > t then twoLevels loud e l i else 0) =
      twoLevels loud e 0 i := fun i => by
    rw [← ite_twoLevels_le hlow hhigh (fun _ => 0) (fun x => x) i]
    simp only [gt_iff_lt, ← not_le, ite_not]
  rw [Finset.sum_congr rfl fun i _ => hite i, sum_twoLevels, mul_zero, add_zero]

/-- From any threshold between the levels, the next one is right above the lower level. -/
theorem nextThresh_twoLevels {math : Math 𝕜} (hsqrt : math.sqrt 0 = 0) (h : Mixed loud Nwindows)
    (hlow : l ≤ t) (hhigh : t < e) :
    nextThresh math (twoLevels loud e l) Nwindows t = 1001 / 1000 * l := by
  have hpos : 0 < Nwindows - Nat.count loud Nwindows := Nat.sub_pos_of_lt h.count_lt
  have hne : ((Nwindows - Nat.count loud Nwindows : ℕ) : 𝕜) ≠ 0 := Nat.cast_ne_zero.mpr hpos.ne'
  have hcount : Nat.count (fun i => twoLevels loud e l i ≤ t) Nwindows =
      Nwindows - Nat.count loud Nwindows := by
    simp only [twoLevels_le_iff hlow hhigh, count_not_loud]
  have hmean : (∑ i ∈ Finset.range Nwindows, if twoLevels loud e l i ≤ t then
      twoLevels loud e l i else 0) = (Nwindows - Nat.count loud Nwindows : ℕ) * l :=
    sum_le_thresh hlow hhigh id
  have hdev : (∑ i ∈ Finset.range Nwindows, if twoLevels loud e l i ≤ t then
      (twoLevels loud e l i - l)^2 else 0) = (Nwindows - Nat.count loud Nwindows : ℕ) * (l - l)^2 :=
    sum_le_thresh hlow hhigh fun x => (x - l)^2
  unfold nextThresh
  dsimp only
  rw [hcount, if_pos hpos, if_pos hpos, hmean, mul_div_cancel_left₀ _ hne, hdev, sub_self,
    zero_pow two_ne_zero, mul_zero, zero_div, hsqrt, mul_zero, add_zero]

/-- The lowest level of a signal with silence, and the threshold right above it, are below the loud
level. -/
theorem thresh_between (he : 0 < e) :
    e * (1 / 10000) ≤ 1001 / 1000 * (e * (1 / 10000)) ∧ 1001 / 1000 * (e * (1 / 10000)) < e :=
  ⟨by linarith, by linarith⟩

/-- Raising silence to the lowest level. -/
theorem raise_silence (he : 0 < e) :
    raise (e * (1 / 10000)) (twoLevels loud e 0) = twoLevels loud e (e * (1 / 10000)) :=
  raise_twoLevels (by positivity) (by linarith)

/-- The search for the threshold starts with the mean energy, which is between the levels, so it
finds the threshold in the first step and stays there. -/
theorem iterate_nextThresh_twoLevels {math : Math 𝕜} (hsqrt : math.sqrt 0 = 0) (he : 0 < e)
    (h : Mixed loud Nwindows) :
    (nextThresh math (twoLevels loud e (e * (1 / 10000))) Nwindows)^[12]
        ((∑ i ∈ Finset.range Nwindows, twoLevels loud e 0 i) / Nwindows) =
      1001 / 1000 * (e * (1 / 10000)) := by
  obtain ⟨hlow, hhigh⟩ := thresh_between he
  have hcount : (0 : 𝕜) < Nat.count loud Nwindows := Nat.cast_pos.mpr h.count_pos
  have hlt : (Nat.count loud Nwindows : 𝕜) < Nwindows := Nat.cast_lt.mpr h.count_lt
  have hmany : (Nwindows : 𝕜) ≤ 10000 * Nat.count loud Nwindows := by exact_mod_cast h.many
  have hN : (0 : 𝕜) < Nwindows := hcount.trans hlt
  have hmean : (∑ i ∈ Finset.range Nwindows, twoLevels loud e 0 i) / Nwindows =
      Nat.count loud Nwindows * e / Nwindows := by
    rw [sum_twoLevels, mul_zero, add_zero]
  rw [hmean, Function.iterate_succ_apply, nextThresh_twoLevels hsqrt h, Function.iterate_fixed]
  · exact nextThresh_twoLevels hsqrt h hlow hhigh
  · -- There are enough loud windows for the mean to reach the lowest level.
    rw [le_div_iff₀ hN]
    nlinarith
  · -- There are silent windows, so the mean is below the loud level.
    rw [div_lt_iff₀ hN]
    nlinarith

/-- The levels of a signal that is silent where it is not loud: the threshold is right above the
lowest level, and the loud level is the one of the signal. -/
theorem levels_twoLevels {math : Math 𝕜} (hsqrt : math.sqrt 0 = 0) (he : 0 < e)
    (h : Mixed loud Nwindows) :
    levels math (twoLevels loud e 0) Nwindows =
      { LevelMin := e * (1 / 10000)
        LevelThresh := 1001 / 1000 * (e * (1 / 10000))
        LevelNoise := e * (1 / 10000)
        LevelSig := e } := by
  obtain ⟨hlow, hhigh⟩ := thresh_between he
  have hcount : (0 : 𝕜) < Nat.count loud Nwindows := Nat.cast_pos.mpr h.count_pos
  have hpos : 0 < Nwindows - Nat.count loud Nwindows := Nat.sub_pos_of_lt h.count_lt
  have hne : ((Nwindows - Nat.count loud Nwindows : ℕ) : 𝕜) ≠ 0 := Nat.cast_ne_zero.mpr hpos.ne'
  have hlength : Nat.count (fun i => twoLevels loud e (e * (1 / 10000)) i >
      1001 / 1000 * (e * (1 / 10000))) Nwindows = Nat.count loud Nwindows := by
    simp only [gt_iff_lt, ← not_le, twoLevels_le_iff hlow hhigh, not_not]
  have hnoise : (∑ i ∈ Finset.range Nwindows,
      if twoLevels loud e (e * (1 / 10000)) i > 1001 / 1000 * (e * (1 / 10000)) then 0
      else twoLevels loud e (e * (1 / 10000)) i) =
      (Nwindows - Nat.count loud Nwindows : ℕ) * (e * (1 / 10000)) := by
    simp only [gt_iff_lt, ← not_le, ite_not]
    exact sum_le_thresh hlow hhigh id
  -- The two levels are means over windows of one kind, and both kinds occur.
  unfold levels
  dsimp only
  rw [lowestLevel_twoLevels he h, raise_silence he, iterate_nextThresh_twoLevels hsqrt he h,
    hlength, sum_gt_thresh hlow hhigh, hnoise, if_pos h.count_pos, if_pos h.count_lt,
    if_pos h.count_pos, mul_div_cancel_left₀ _ hne, mul_div_cancel_left₀ _ hcount.ne']

/-- The runs of speech of a signal with two levels come from the runs of its loud windows. -/
theorem speechRuns_twoLevels {math : Math 𝕜} (hsqrt : math.sqrt 0 = 0) (he : 0 < e)
    (h : Mixed loud Nwindows) {rs : List Run} (hrs : IsRuns loud 1 (1 + (Nwindows - 2)) rs) :
    speechRuns (twoLevels loud e 0) Nwindows math =
      (orWhole Nwindows (joinGaps 50 (rs.filter isLong))).map (widen Nwindows 1) := by
  obtain ⟨hlow, hhigh⟩ := thresh_between he
  have hloud : loudRuns (levels math (twoLevels loud e 0) Nwindows) (twoLevels loud e 0) Nwindows =
      rs := by
    refine (Runs.isRuns_runsFrom (Nwindows - 2) 1).unique (hrs.congr fun i _ _ => ?_)
    rw [levels_twoLevels hsqrt he h]
    simp only [raise_silence he, ← not_le, twoLevels_le_iff hlow hhigh, not_not]
  -- A loud run has the loud level throughout, far above the threshold.
  have hstrong : ∀ r ∈ rs.filter isLong,
      isStrong (levels math (twoLevels loud e 0) Nwindows) (twoLevels loud e 0) r = true := by
    intro r hr
    have hr := (List.mem_filter.mp hr).1
    have hlt : (r.start : 𝕜) < r.finish := Nat.cast_lt.mpr r.lt
    have hsum : ∑ i ∈ Finset.Ico r.start r.finish, twoLevels loud e (e * (1 / 10000)) i =
        ((r.finish : 𝕜) - r.start) * e := by
      have hi : ∀ i ∈ Finset.Ico r.start r.finish, twoLevels loud e (e * (1 / 10000)) i = e := by
        intro i hi
        have hb := hrs.bounds r hr
        have hri := Finset.mem_Ico.mp hi
        exact if_pos ((hrs.mem_iff i (by omega) (by omega)).mpr ⟨r, hr, hri⟩)
      rw [Finset.sum_congr rfl hi, Finset.sum_const, Nat.card_Ico, nsmul_eq_mul,
        Nat.cast_sub r.lt.le]
    rw [levels_twoLevels hsqrt he h]
    refine decide_eq_true (Or.inr ?_)
    rw [raise_silence he, hsum]
    nlinarith [mul_pos (sub_pos.mpr hlt) he]
  unfold speechRuns joinedRuns
  rw [hloud, List.filter_eq_self.mpr hstrong]

end TgVoipRate.Pesq
