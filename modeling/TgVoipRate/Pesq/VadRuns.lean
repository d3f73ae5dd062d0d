import Mathlib.Algebra.Order.Ring.Abs
import Mathlib.Tactic.Linarith
import Mathlib.Tactic.Positivity
import TgVoipRate.Pesq.Vad

/-!
# The passes of the voice activity detection

The passes of `apply_VAD` on an array amount to a few operations on runs of windows (`speechRuns`):
take the maximal runs above the threshold, drop the short ones and the ones that are not strong
enough, join over short gaps, take everything if nothing is left, and widen each run. Each pass
before the last one is one fold over the runs of the array it starts from, by
`Runs.foldl_edgeStep`, and has one theorem here that gives the runs after it.
-/

namespace TgVoipRate.Pesq

open Runs (Run IsRuns runsFrom joinGaps joinFrom onEnds)

variable {𝕜 : Type*} [Field 𝕜] [LinearOrder 𝕜]

/-! ## Runs of speech -/

section Definitions

variable (lv : Levels 𝕜) (energy : ℕ → 𝕜) (Nwindows : ℕ)

/-- The runs of windows above the threshold, but for the first and the last window. -/
def loudRuns : List Run :=
  runsFrom (fun i => lv.LevelThresh < raise lv.LevelMin energy i) 1 (Nwindows - 2)

/-- The run is not too short. -/
def isLong (r : Run) : Bool := 4 < r.length

/-- The signal does not stand out from the noise, or the run stands out from the threshold. -/
def isStrong (r : Run) : Bool :=
  ¬lv.LevelSig ≥ lv.LevelNoise * 1000 ∨
    3 * lv.LevelThresh * ((r.finish : 𝕜) - r.start) ≤
      ∑ i ∈ Finset.Ico r.start r.finish, raise lv.LevelMin energy i

/-- The runs that are left, joined. -/
def joinedRuns : List Run :=
  joinGaps 50 (((loudRuns lv energy Nwindows).filter isLong).filter (isStrong lv energy))

/-- The whole signal, if there are no runs. -/
def orWhole (rs : List Run) : List Run :=
  if rs = [] then (if h : 1 < Nwindows - 1 then [⟨1, Nwindows - 1, h⟩] else []) else rs

/-- A run with two more windows on each side, from a first window on and where there is room. -/
def widen (first : ℕ) (r : Run) : Run where
  start := min r.start (max first (r.start - 2))
  finish := if r.finish + 2 < Nwindows then r.finish + 2 else r.finish
  lt := by
    have := r.lt
    split <;> omega

/-- The runs of speech of a signal. -/
def speechRuns (math : Math 𝕜) : List Run :=
  (orWhole Nwindows (joinedRuns (levels math energy Nwindows) energy Nwindows)).map
    (widen Nwindows 1)

end Definitions

/-! ## Levels -/

section Passes

variable {lv : Levels 𝕜} {energy VAD : ℕ → 𝕜} {Nwindows : ℕ} {rs : List Run} {s : Pass 𝕜}

/-- A raised entry is positive. -/
theorem raise_pos (energy : ℕ → 𝕜) (hmin : 0 < lv.LevelMin) (i : ℕ) :
    0 < raise lv.LevelMin energy i := by
  unfold raise
  split
  · exact hmin
  · rename_i h
    exact lt_of_lt_of_le hmin (not_lt.mp h)

/-- An inner entry after the noise was marked. -/
theorem markNoise_apply {i : ℕ} (hi : 0 < i) (hN : i < Nwindows - 1) :
    markNoise lv Nwindows VAD i = if VAD i ≤ lv.LevelThresh then -VAD i else VAD i := by
  unfold markNoise
  rw [Function.update_of_ne (by omega), Function.update_of_ne (by omega)]

/-! ## Passes -/

/-- The array marks the runs: they are its runs of positive entries, with a mark in front and one
behind. -/
structure Marks (Nwindows : ℕ) (VAD : ℕ → 𝕜) (rs : List Run) : Prop where
  /-- The positive entries. -/
  runs : IsRuns (fun i => 0 < VAD i) 1 Nwindows rs
  /-- The mark in front. -/
  first : VAD 0 ≤ 0
  /-- The mark behind. -/
  last : VAD (Nwindows - 1) ≤ 0

/-- The marked runs end before the last position. -/
theorem Marks.finish_lt (h : Marks Nwindows VAD rs) : ∀ r ∈ rs, r.finish < Nwindows :=
  h.runs.finish_lt (not_lt.mpr h.last)

/-- A pass that changes nothing ahead of itself acts at the ends of the marked runs. -/
theorem pass_eq_foldl {rise fall : ℕ → Pass 𝕜 → Pass 𝕜}
    (hrise : ∀ i s j, i ≤ j → (rise i s).VAD j = s.VAD j)
    (hfall : ∀ i s j, i ≤ j → (0 < (fall i s).VAD j ↔ 0 < s.VAD j))
    (hN : 1 ≤ Nwindows) (h : Marks Nwindows s.VAD rs) :
    pass rise fall Nwindows s = rs.foldl (onEnds rise fall) s :=
  Runs.foldl_edgeStep (fun i s j hij => by rw [hrise i s j hij]) hfall rs 1 s h.runs one_pos
    (not_lt.mpr h.first) hN h.finish_lt

/-! ## Dropping runs -/

/-- What a test says about a run depends on the run and the entries in it. -/
def DecidesBy (test : Pass 𝕜 → Bool) (keep : Run → Bool) (VAD : ℕ → 𝕜) (r : Run) : Prop :=
  ∀ s : Pass 𝕜, s.start = r.start → s.finish = r.finish → (∀ i, r.Contains i → s.VAD i = VAD i) →
    test s = !keep r

variable {test : Pass 𝕜 → Bool} {keep : Run → Bool}

omit [LinearOrder 𝕜] in
/-- Dropping one run. -/
theorem onEnds_dropIf {r : Run} (h : DecidesBy test keep s.VAD r) (i : ℕ) :
    (onEnds setStart (dropIf test) s r).VAD i =
      if r.Contains i ∧ keep r = false then -s.VAD i else s.VAD i := by
  have ht := h (setFinish r.finish (setStart r.start s)) rfl rfl fun _ _ => rfl
  simp only [onEnds, dropIf, ht]
  cases keep r with
  | true => simp [setFinish, setStart]
  | false => simp [setFinish, setStart, negate, Run.Contains]

omit [LinearOrder 𝕜] in
/-- Dropping runs changes the signs in the runs that are not kept. -/
theorem foldl_dropIf {p : ℕ → Prop} {N : ℕ} (i : ℕ) :
    ∀ (rs : List Run) (a : ℕ) (s : Pass 𝕜), IsRuns p a N rs →
      (∀ r ∈ rs, DecidesBy test keep s.VAD r) →
      (rs.foldl (onEnds setStart (dropIf test)) s).VAD i =
        if ∃ r ∈ rs, r.Contains i ∧ keep r = false then -s.VAD i else s.VAD i
  | [], _, _, _, _ => by simp
  | r :: rs, a, s, h, hdec => by
    have hr := onEnds_dropIf (hdec r List.mem_cons_self)
    -- What was done to this run is not seen by the test for a later one.
    have hapart : ∀ q ∈ rs, ∀ j, q.Contains j → ¬r.Contains j := fun q hq j hqj hrj =>
      absurd (Nat.lt_of_lt_of_le hrj.2 (Nat.le_of_lt (h.lt_start hq))) (Nat.not_lt.mpr hqj.1)
    have hdec' : ∀ q ∈ rs, DecidesBy test keep (onEnds setStart (dropIf test) s r).VAD q := by
      intro q hq t hstart hfinish hsame
      refine hdec q (List.mem_cons_of_mem _ hq) t hstart hfinish fun j hj => ?_
      rw [hsame j hj, hr, if_neg fun hc => hapart q hq j hj hc.1]
    rw [List.foldl_cons, foldl_dropIf i rs _ _ h.tail hdec', hr]
    by_cases hri : r.Contains i ∧ keep r = false
    · -- The position is in this run, so it is in no other.
      have hno : ¬∃ q ∈ rs, q.Contains i ∧ keep q = false := by
        rintro ⟨q, hq, hqi, -⟩
        exact hapart q hq i hqi hri.1
      rw [if_neg hno, if_pos hri, if_pos ⟨r, List.mem_cons_self, hri⟩]
    · have hiff : (∃ q ∈ r :: rs, q.Contains i ∧ keep q = false) ↔
          ∃ q ∈ rs, q.Contains i ∧ keep q = false := by
        simp only [List.exists_mem_cons_iff, hri, false_or]
      simp only [if_neg hri, hiff]

/-- A pass that drops runs visits the marked runs. -/
theorem pass_dropIf (hN : 1 ≤ Nwindows) (h : Marks Nwindows s.VAD rs) :
    pass setStart (dropIf test) Nwindows s = rs.foldl (onEnds setStart (dropIf test)) s := by
  have hfall : ∀ i (s : Pass 𝕜) j, i ≤ j → (dropIf test i s).VAD j = s.VAD j := by
    intro i s j hij
    simp only [dropIf]
    split
    · simp [setFinish, negate, Nat.not_lt.mpr hij]
    · rfl
  exact pass_eq_foldl (fun _ _ _ _ => rfl) (fun i s j hij => by rw [hfall i s j hij]) hN h

/-- A pass that drops runs changes signs only. -/
theorem abs_dropIf (hN : 1 ≤ Nwindows)
    (h : Marks Nwindows s.VAD rs) (hdec : ∀ r ∈ rs, DecidesBy test keep s.VAD r) (i : ℕ) :
    |(pass setStart (dropIf test) Nwindows s).VAD i| = |s.VAD i| := by
  rw [pass_dropIf hN h, foldl_dropIf i rs 1 s h.runs hdec]
  split
  · exact abs_neg _
  · rfl

omit [Field 𝕜] [LinearOrder 𝕜] in
/-- The test for short runs. -/
theorem decidesBy_isLong (VAD : ℕ → 𝕜) (r : Run) :
    DecidesBy (fun s => (s.finish : ℤ) - s.start ≤ MINSPEECHLGTH) isLong VAD r := by
  intro s hstart hfinish _
  have hlt := r.lt
  rw [Bool.eq_iff_iff]
  simp only [hstart, hfinish, isLong, MINSPEECHLGTH, decide_eq_true_eq, Bool.not_eq_true',
    decide_eq_false_iff_not]
  unfold Run.length
  omega

/-! ## Joining runs -/

omit [Field 𝕜] [LinearOrder 𝕜] in
/-- A gap up to the bound is filled. -/
theorem onEnds_join_near {r q : Run} (hfinish : s.finish = r.finish)
    (hnear : q.start ≤ r.finish + 50) :
    onEnds (joinRise lv) setFinish s q =
      { VAD := fill r.finish q.start lv.LevelMin s.VAD, start := q.start, finish := q.finish } := by
  have hlt := r.lt
  have hc : r.finish > 0 ∧ (q.start : ℤ) - r.finish ≤ JOINSPEECHLGTH := by
    unfold JOINSPEECHLGTH
    omega
  simp only [onEnds, joinRise, setStart, hfinish, if_pos hc, setFinish]

omit [Field 𝕜] [LinearOrder 𝕜] in
/-- A longer gap stays. -/
theorem onEnds_join_far {r q : Run} (hfinish : s.finish = r.finish)
    (hfar : ¬q.start ≤ r.finish + 50) :
    onEnds (joinRise lv) setFinish s q =
      { VAD := s.VAD, start := q.start, finish := q.finish } := by
  have hc : ¬(r.finish > 0 ∧ (q.start : ℤ) - r.finish ≤ JOINSPEECHLGTH) := by
    unfold JOINSPEECHLGTH
    omega
  simp only [onEnds, joinRise, setStart, hfinish, if_neg hc, setFinish]

/-- Filling the gap between two runs makes one of them. -/
theorem isRuns_fill (hmin : 0 < lv.LevelMin) {r q : Run} {a : ℕ}
    (h : IsRuns (fun i => 0 < VAD i) a Nwindows (r :: q :: rs)) :
    IsRuns (fun i => 0 < fill r.finish q.start lv.LevelMin VAD i) a Nwindows (r.hull q :: rs) := by
  have hb := h.bounds r List.mem_cons_self
  have hqb := h.bounds q (by simp)
  have hr := r.lt
  have hq := q.lt
  have hsep : r.finish < q.start := h.lt_start List.mem_cons_self
  have hmax : max r.finish q.finish = q.finish := Nat.max_eq_right (by omega)
  have hfar : ∀ i, ¬(r.finish ≤ i ∧ i < q.start) →
      fill r.finish q.start lv.LevelMin VAD i = VAD i :=
    fun i hi => if_neg hi
  -- Behind the second run nothing is filled.
  have htail : IsRuns (fun i => 0 < fill r.finish q.start lv.LevelMin VAD i) (r.hull q).finish
      Nwindows rs := by
    rw [show (r.hull q).finish = q.finish from hmax]
    refine h.tail.after.congr fun i hi _ => ?_
    rw [hfar i (by omega)]
  refine IsRuns.cons htail (fun x hx => ?_) hb.1 ?_ (fun i hi hir => ?_) fun i hi => ?_
  · rw [show (r.hull q).finish = q.finish from hmax]
    exact h.tail.lt_start hx
  · rw [show (r.hull q).finish = q.finish from hmax]
    exact hqb.2
  · have hir : i < r.start := hir
    rw [hfar i (by omega)]
    exact h.before hi hir
  · have h1 : r.start ≤ i := hi.1
    have h2 : i < q.finish := hmax ▸ hi.2
    -- A position of the hull is in the gap or in one of the two runs.
    by_cases hgap : r.finish ≤ i ∧ i < q.start
    · rw [fill, if_pos hgap]
      exact hmin
    · rw [hfar i hgap]
      rcases Nat.lt_or_ge i r.finish with hlt | hge
      · exact h.inside ⟨h1, hlt⟩
      · exact h.tail.inside ⟨by omega, h2⟩

/-- After a run, the joining pass leaves the joined runs, and the entries up to the end of that run
as they were. -/
theorem foldl_join (hmin : 0 < lv.LevelMin) :
    ∀ (rs : List Run) (r : Run) (a : ℕ) (s : Pass 𝕜), s.finish = r.finish →
      IsRuns (fun i => 0 < s.VAD i) a Nwindows (r :: rs) →
      IsRuns (fun i => 0 < (rs.foldl (onEnds (joinRise lv) setFinish) s).VAD i) a Nwindows
          (joinFrom 50 r rs) ∧
        ∀ i < r.finish, (rs.foldl (onEnds (joinRise lv) setFinish) s).VAD i = s.VAD i
  | [], _, _, _, _, h => ⟨h, fun _ _ => rfl⟩
  | q :: rs, r, a, s, hfinish, h => by
    have hb := h.bounds r List.mem_cons_self
    have hsep : r.finish < q.start := h.lt_start List.mem_cons_self
    have hq := q.lt
    rw [List.foldl_cons, joinFrom]
    split
    · rename_i hnear
      -- The pass goes on behind the joined run, which ends where the second one does.
      have hmax : q.finish = (r.hull q).finish := (Nat.max_eq_right (by omega)).symm
      rw [onEnds_join_near hfinish hnear]
      obtain ⟨hruns, hsame⟩ := foldl_join hmin rs (r.hull q) a
        { VAD := fill r.finish q.start lv.LevelMin s.VAD, start := q.start, finish := q.finish }
        hmax (isRuns_fill hmin h)
      refine ⟨hruns, fun i hi => ?_⟩
      rw [hsame i (by omega)]
      exact if_neg (by omega)
    · rename_i hfar
      rw [onEnds_join_far hfinish hfar]
      -- The first run stays as it is, in front of what becomes of the others.
      obtain ⟨hruns, hsame⟩ := foldl_join hmin rs q r.finish
        { VAD := s.VAD, start := q.start, finish := q.finish } rfl h.after
      refine ⟨IsRuns.cons hruns (fun x hx => ?_) hb.1 hb.2 (fun i hi hir => ?_) fun i hi => ?_,
        fun i hi => hsame i (by omega)⟩
      · exact Nat.lt_of_lt_of_le hsep (Runs.start_le_of_mem_joinFrom h.tail.separated x hx)
      · have := r.lt
        rw [hsame i (by omega)]
        exact h.before hi hir
      · have := hi.2
        rw [hsame i (by omega)]
        exact h.inside hi

/-- The joining pass leaves the marks of the joined runs, and the array alone if it has no runs. -/
theorem marks_joinSpeech (hmin : 0 < lv.LevelMin) (hN : 1 ≤ Nwindows)
    (h : Marks Nwindows VAD rs) (start : ℕ) :
    let s := joinSpeech lv Nwindows { VAD, start, finish := 0 }
    Marks Nwindows s.VAD (joinGaps 50 rs) ∧ (rs = [] → s.VAD = VAD) := by
  have hrise : ∀ i (s : Pass 𝕜) j, i ≤ j → (joinRise lv i s).VAD j = s.VAD j := by
    intro i s j hij
    simp only [joinRise]
    split
    · simp [setStart, fill, Nat.not_lt.mpr hij]
    · rfl
  have hfold : joinSpeech lv Nwindows { VAD, start, finish := 0 } =
      rs.foldl (onEnds (joinRise lv) setFinish) { VAD, start, finish := 0 } :=
    pass_eq_foldl hrise (fun _ _ _ _ => Iff.rfl) hN h
  dsimp only
  rw [hfold]
  cases rs with
  | nil => exact ⟨h, fun _ => rfl⟩
  | cons r rs =>
    have hb := h.runs.bounds r List.mem_cons_self
    have hlt := r.lt
    -- Before the first run there is no gap to join.
    have hfirst : onEnds (joinRise lv) setFinish { VAD, start, finish := 0 } r =
        { VAD, start := r.start, finish := r.finish } := by
      simp [onEnds, joinRise, setStart, setFinish]
    obtain ⟨hruns, hsame⟩ := foldl_join hmin rs r 1
      { VAD, start := r.start, finish := r.finish } rfl h.runs
    rw [List.foldl_cons, hfirst]
    have hfinish : ∀ x ∈ joinGaps 50 (r :: rs), x.finish < Nwindows :=
      Runs.forall_joinGaps (fun x q hx hq => Nat.max_lt.mpr ⟨hx, hq⟩) h.finish_lt
    refine ⟨⟨hruns, ?_, ?_⟩, fun hnil => by cases hnil⟩
    · rw [hsame 0 (by omega)]
      exact h.first
    · rw [← not_lt]
      intro hpos
      obtain ⟨x, hx, hxi⟩ := (hruns.mem_iff (Nwindows - 1) (by omega) (by omega)).mp hpos
      have := hfinish x hx
      have := hxi.2
      omega

omit [Field 𝕜] [LinearOrder 𝕜] in
/-- The position where the last run starts, or zero. -/
theorem foldl_start (rs : List Run) (s : Pass 𝕜) (h : ∀ r ∈ rs, 0 < r.start) (hrs : rs ≠ []) :
    0 < (rs.foldl (onEnds setStart fun _ s => s) s).start := by
  induction rs generalizing s with
  | nil => exact absurd rfl hrs
  | cons r rs ih =>
    have hr := h r List.mem_cons_self
    rw [List.foldl_cons]
    cases rs with
    | nil => exact hr
    | cons q rs => exact ih _ (fun x hx => h x (List.mem_cons_of_mem _ hx)) (List.cons_ne_nil _ _)

end Passes

section Ordered

variable [IsStrictOrderedRing 𝕜]
variable {lv : Levels 𝕜} {energy VAD : ℕ → 𝕜} {Nwindows : ℕ} {rs : List Run} {s : Pass 𝕜}

/-- The lowest level is positive. -/
theorem lowestLevel_pos (VAD : ℕ → 𝕜) (Nwindows : ℕ) : 0 < lowestLevel VAD Nwindows := by
  unfold lowestLevel
  dsimp only
  split
  · positivity
  · exact one_pos

/-- The entries are the raised energies, up to their signs. -/
def SignsOf (lv : Levels 𝕜) (energy : ℕ → 𝕜) (Nwindows : ℕ) (VAD : ℕ → 𝕜) : Prop :=
  ∀ i, 0 < i → i < Nwindows - 1 → |VAD i| = raise lv.LevelMin energy i

/-- Marking the noise leaves the energies with signs. -/
theorem signsOf_markNoise (hmin : 0 < lv.LevelMin) :
    SignsOf lv energy Nwindows (markNoise lv Nwindows (raise lv.LevelMin energy)) := by
  intro i hi hN
  have hpos := raise_pos energy hmin i
  rw [markNoise_apply hi hN]
  split
  · rw [abs_neg, abs_of_pos hpos]
  · exact abs_of_pos hpos

/-- Marking the noise leaves the runs above the threshold. -/
theorem marks_markNoise (hmin : 0 < lv.LevelMin) (hN : 3 ≤ Nwindows) :
    Marks Nwindows (markNoise lv Nwindows (raise lv.LevelMin energy))
      (loudRuns lv energy Nwindows) := by
  have hlast : markNoise lv Nwindows (raise lv.LevelMin energy) (Nwindows - 1) ≤ 0 := by
    unfold markNoise
    rw [Function.update_self]
    linarith
  refine ⟨?_, ?_, hlast⟩
  · -- Between the marks an entry keeps its sign exactly if it is above the threshold.
    have hruns := Runs.isRuns_runsFrom (Nwindows - 2) 1
      (p := fun i => lv.LevelThresh < raise lv.LevelMin energy i)
    rw [show 1 + (Nwindows - 2) = Nwindows - 1 by omega] at hruns
    have hsigns : IsRuns (fun i => 0 < markNoise lv Nwindows (raise lv.LevelMin energy) i) 1
        (Nwindows - 1) (loudRuns lv energy Nwindows) := by
      refine hruns.congr fun i hi hiN => ?_
      have hpos := raise_pos energy hmin i
      rw [markNoise_apply (by omega) hiN]
      split
      · rename_i hle
        exact iff_of_false (by linarith) (not_lt.mpr hle)
      · rename_i hlt
        exact iff_of_true hpos (not_le.mp hlt)
    have := hsigns.snoc (not_lt.mpr hlast)
    rwa [show Nwindows - 1 + 1 = Nwindows by omega] at this
  · unfold markNoise
    rw [Function.update_of_ne (by omega), Function.update_self]
    linarith

/-- A pass that drops runs keeps the marks of the runs that pass its test. -/
theorem marks_dropIf {test : Pass 𝕜 → Bool} {keep : Run → Bool} (hN : 1 ≤ Nwindows)
    (h : Marks Nwindows s.VAD rs) (hdec : ∀ r ∈ rs, DecidesBy test keep s.VAD r) :
    Marks Nwindows (pass setStart (dropIf test) Nwindows s).VAD (rs.filter keep) := by
  rw [pass_dropIf hN h]
  have happ := fun i => foldl_dropIf i rs 1 s h.runs hdec
  -- The marks in front and behind are in no run, so they stay.
  have hout : ∀ i, ¬(∃ r ∈ rs, r.Contains i) →
      (rs.foldl (onEnds setStart (dropIf test)) s).VAD i = s.VAD i := by
    intro i hi
    rw [happ, if_neg]
    rintro ⟨r, hr, hri, -⟩
    exact hi ⟨r, hr, hri⟩
  refine ⟨h.runs.filter keep fun i hi hiN => ?_, ?_, ?_⟩
  · rw [happ]
    split
    · rename_i hdrop
      obtain ⟨r, hr, hri, hkeep⟩ := hdrop
      -- In a dropped run the sign has changed, and no other run contains the position.
      have hpos : 0 < s.VAD i := (h.runs.mem_iff i hi hiN).mpr ⟨r, hr, hri⟩
      apply iff_of_false (by linarith)
      rintro ⟨q, hq, hqi, hkeep'⟩
      rw [h.runs.eq_of_contains hr hq hri hqi, hkeep'] at hkeep
      cases hkeep
    · rename_i hno
      rw [h.runs.mem_iff i hi hiN]
      constructor
      · rintro ⟨r, hr, hri⟩
        refine ⟨r, hr, hri, ?_⟩
        by_contra hkeep
        exact hno ⟨r, hr, hri, Bool.eq_false_iff.mpr hkeep⟩
      · rintro ⟨r, hr, hri, -⟩
        exact ⟨r, hr, hri⟩
  · rw [hout 0]
    · exact h.first
    · rintro ⟨r, hr, hri⟩
      have := (h.runs.bounds r hr).1.trans hri.1
      omega
  · rw [hout (Nwindows - 1)]
    · exact h.last
    · rintro ⟨r, hr, hri⟩
      have := h.finish_lt r hr
      have := hri.2
      omega

/-- The entries of a marked run are the raised energies. -/
theorem Marks.eq_raise (h : Marks Nwindows VAD rs) (hsigns : SignsOf lv energy Nwindows VAD)
    {r : Run} (hr : r ∈ rs) {i : ℕ} (hi : r.Contains i) : VAD i = raise lv.LevelMin energy i := by
  have hb := h.runs.bounds r hr
  have hfinish := h.finish_lt r hr
  have h1 := hi.1
  have h2 := hi.2
  have hpos : 0 < VAD i := (h.runs.mem_iff i (by omega) (by omega)).mpr ⟨r, hr, hi⟩
  rw [← hsigns i (by omega) (by omega), abs_of_pos hpos]

/-- The test for runs that are not strong, in a signal that stands out from the noise. -/
theorem decidesBy_isStrong (h : Marks Nwindows VAD rs) (hsigns : SignsOf lv energy Nwindows VAD)
    (hsig : lv.LevelSig ≥ lv.LevelNoise * 1000) {r : Run} (hr : r ∈ rs) :
    DecidesBy (fun s => ∑ i ∈ Finset.Ico s.start s.finish, s.VAD i <
      3 * lv.LevelThresh * ((s.finish : 𝕜) - s.start)) (isStrong lv energy) VAD r := by
  intro s hstart hfinish hsame
  have hsum : ∑ i ∈ Finset.Ico s.start s.finish, s.VAD i =
      ∑ i ∈ Finset.Ico r.start r.finish, raise lv.LevelMin energy i := by
    rw [hstart, hfinish]
    refine Finset.sum_congr rfl fun i hi => ?_
    have hri : r.Contains i := Finset.mem_Ico.mp hi
    rw [hsame i hri, h.eq_raise hsigns hr hri]
  rw [Bool.eq_iff_iff]
  simp only [hsum, isStrong, hsig, not_true_eq_false, false_or, decide_eq_true_eq,
    Bool.not_eq_true', decide_eq_false_iff_not, not_le]
  rw [hstart, hfinish]

/-- The marks after the passes that drop runs, which only change signs. -/
theorem marks_dropped (hN : 1 ≤ Nwindows) (h : Marks Nwindows s.VAD rs)
    (hsigns : SignsOf lv energy Nwindows s.VAD) :
    let s := dropShort Nwindows s
    let s := if lv.LevelSig ≥ lv.LevelNoise * 1000 then dropQuiet lv Nwindows s else s
    Marks Nwindows s.VAD ((rs.filter isLong).filter (isStrong lv energy)) ∧
      SignsOf lv energy Nwindows s.VAD := by
  have hshort : Marks Nwindows (dropShort Nwindows s).VAD (rs.filter isLong) :=
    marks_dropIf hN h fun r _ => decidesBy_isLong s.VAD r
  have hsigns' : SignsOf lv energy Nwindows (dropShort Nwindows s).VAD := fun i hi hiN => by
    rw [dropShort, abs_dropIf hN h fun r _ => decidesBy_isLong s.VAD r]
    exact hsigns i hi hiN
  dsimp only
  split
  · rename_i hsig
    -- Only signs were changed so far, so the sums are those of the raised energies.
    have hdec := fun r hr => decidesBy_isStrong hshort hsigns' hsig (r := r) hr
    refine ⟨marks_dropIf hN hshort hdec, fun i hi hiN => ?_⟩
    rw [dropQuiet, abs_dropIf hN hshort hdec]
    exact hsigns' i hi hiN
  · rename_i hsig
    rw [List.filter_eq_self.mpr fun r _ => by simp [isStrong, hsig]]
    exact ⟨hshort, hsigns'⟩

/-- The marks after the whole signal was taken for speech, if there was no run. -/
theorem marks_orAllSpeech (hmin : 0 < lv.LevelMin) (hN : 3 ≤ Nwindows) (h : Marks Nwindows VAD rs)
    (hsigns : rs = [] → SignsOf lv energy Nwindows VAD) :
    Marks Nwindows (orAllSpeech lv Nwindows VAD) (orWhole Nwindows rs) := by
  have hfold : pass setStart (fun _ s => s) Nwindows { VAD, start := 0, finish := 0 } =
      rs.foldl (onEnds setStart fun _ s => s) { VAD, start := 0, finish := 0 } :=
    pass_eq_foldl (fun _ _ _ _ => rfl) (fun _ _ _ _ => Iff.rfl) (by omega) h
  unfold orAllSpeech orWhole
  rw [hfold]
  by_cases hrs : rs = []
  · subst hrs
    -- All entries become positive, but for the two marks that are set again.
    have hlt : 1 < Nwindows - 1 := by omega
    rw [List.foldl_nil, if_pos rfl, if_pos rfl, dif_pos hlt]
    refine ⟨Runs.isRuns_singleton (le_refl _) (Nat.sub_le _ _) fun i hi hiN => ?_, ?_, ?_⟩
    · rcases Nat.eq_or_lt_of_le (Nat.le_sub_one_of_lt hiN) with rfl | hi'
      · rw [Function.update_self]
        exact iff_of_false (by linarith) fun hc => absurd hc.2 (lt_irrefl _)
      · rw [Function.update_of_ne (by omega), Function.update_of_ne (by omega),
          hsigns rfl i (by omega) hi']
        exact iff_of_true (raise_pos energy hmin i) ⟨hi, hi'⟩
    · rw [Function.update_of_ne (by omega), Function.update_self]
      linarith
    · rw [Function.update_self]
      linarith
  · -- A run was seen, and its start is not zero.
    have hpos := foldl_start rs { VAD, start := 0, finish := 0 }
      (fun r hr => (h.runs.bounds r hr).1) hrs
    rw [if_neg (by omega), if_neg hrs]
    exact h

/-- The signs before the edges are smoothed mark the runs that are left, or the whole signal. -/
theorem marks_speechSigns (energy : ℕ → 𝕜) (hmin : 0 < lv.LevelMin) (hN : 3 ≤ Nwindows) :
    Marks Nwindows (speechSigns lv energy Nwindows)
      (orWhole Nwindows (joinedRuns lv energy Nwindows)) := by
  -- One step for each pass, in the order of the source.
  obtain ⟨hdropped, hsigns⟩ := marks_dropped
    (s := { VAD := markNoise lv Nwindows (raise lv.LevelMin energy), start := 0, finish := 0 })
    (by omega) (marks_markNoise hmin hN) (signsOf_markNoise hmin)
  obtain ⟨hjoined, hsame⟩ := marks_joinSpeech hmin (by omega) hdropped 0
  have hsigns' (hnil : joinedRuns lv energy Nwindows = []) :
      SignsOf lv energy Nwindows (joinSpeech lv Nwindows _).VAD :=
    hsame (Runs.joinGaps_eq_nil_iff.mp hnil) ▸ hsigns
  exact marks_orAllSpeech hmin hN hjoined hsigns'

end Ordered

end TgVoipRate.Pesq
