import TgVoipRate.Pesq.VadRuns

/-!
# Smoothing the edges of speech

The last pass of `apply_VAD` writes two entries before the start of each run and two behind its end,
and moves its position past what it wrote. So it meets every run once, and widens it
(`isRuns_taper`).
-/

namespace TgVoipRate.Pesq

open Runs (Run IsRuns)

variable {𝕜 : Type*} [Field 𝕜] [LinearOrder 𝕜]

section Taper

variable {VAD : ℕ → 𝕜} {Nwindows : ℕ} {rs : List Run}

omit [Field 𝕜] in
/-- A positive entry stays positive when a positive value is written somewhere. -/
theorem update_pos [Zero 𝕜] {x : 𝕜} {i j : ℕ} (hx : 0 < x) (hj : 0 < VAD j) :
    0 < Function.update VAD i x j := by
  rcases eq_or_ne j i with rfl | hne
  · rwa [Function.update_self]
  · rwa [Function.update_of_ne hne]

/-- Writing before a run makes the two entries there positive. -/
theorem taperRise_pos [IsStrictOrderedRing 𝕜] {c i : ℕ} (h : 0 < VAD c)
    (hi : i = c - 2 ∨ i = c - 1) :
    0 < taperRise VAD c i := by
  unfold taperRise
  rcases eq_or_ne i (c - 1) with rfl | hne
  · have hpos : 0 < Function.update VAD (c - 2) (VAD c * (1 / 10)) c := update_pos (by positivity) h
    rw [Function.update_self]
    positivity
  · obtain rfl : i = c - 2 := hi.resolve_right hne
    rw [Function.update_of_ne hne, Function.update_self]
    positivity

omit [LinearOrder 𝕜] in
/-- Writing before a run changes nothing else. -/
theorem taperRise_of_ne {c i : ℕ} (h2 : i ≠ c - 2) (h1 : i ≠ c - 1) :
    taperRise VAD c i = VAD i := by
  unfold taperRise
  rw [Function.update_of_ne h1, Function.update_of_ne h2]

/-- Writing behind a run makes the two entries there positive. -/
theorem taperFall_pos [IsStrictOrderedRing 𝕜] {c i : ℕ} (h : 0 < VAD (c - 1)) (hc : 0 < c)
    (hi : i = c ∨ i = c + 1) :
    0 < taperFall VAD c i := by
  unfold taperFall
  rcases eq_or_ne i (c + 1) with rfl | hne
  · rw [Function.update_self, Function.update_of_ne (by omega)]
    positivity
  · obtain rfl : i = c := hi.resolve_right hne
    rw [Function.update_of_ne hne, Function.update_self]
    positivity

omit [LinearOrder 𝕜] in
/-- Writing behind a run changes nothing else. -/
theorem taperFall_of_ne {c i : ℕ} (h0 : i ≠ c) (h1 : i ≠ c + 1) : taperFall VAD c i = VAD i := by
  unfold taperFall
  rw [Function.update_of_ne h1, Function.update_of_ne h0]

/-- There is no edge at the position. -/
def NoEdge (VAD : ℕ → 𝕜) (i : ℕ) : Prop :=
  ¬(0 < VAD i ∧ VAD (i - 2) ≤ 0) ∧ ¬(VAD i ≤ 0 ∧ 0 < VAD (i - 1))

/-- The loop goes on over positions without an edge. -/
theorem taper_eq_of_noEdge {c d : ℕ} (hcd : c ≤ d) (hd : d ≤ Nwindows - 2)
    (h : ∀ i, c ≤ i → i < d → NoEdge VAD i) : taper Nwindows VAD c = taper Nwindows VAD d := by
  induction d, hcd using Nat.le_induction with
  | base => rfl
  | succ d hcd ih =>
    have hno := h d hcd (by omega)
    have hstep : taperStep VAD d = (VAD, d + 1) := by
      simp only [taperStep, gt_iff_lt, if_neg hno.1, if_neg hno.2]
    have hnext : taper Nwindows VAD d = taper Nwindows VAD (d + 1) := by
      rw [taper, if_pos (by omega), hstep]
    exact (ih (by omega) fun i hi hid => h i hi (by omega)).trans hnext

/-- Where a run starts, the loop writes before it and skips a position. -/
theorem taper_rise {c : ℕ} (hN : c < Nwindows - 2) (hc : 2 ≤ c) (h0 : 0 < VAD c)
    (h2 : VAD (c - 2) ≤ 0) (h1 : 0 < VAD (c + 1)) :
    taper Nwindows VAD c = taper Nwindows (taperRise VAD c) (c + 2) := by
  have hstep : taperStep VAD c = (taperRise VAD c, c + 2) := by
    have hrise : VAD c > 0 ∧ VAD (c - 2) ≤ 0 := ⟨h0, h2⟩
    have hnext : ¬(taperRise VAD c (c + 1) ≤ 0 ∧ taperRise VAD c (c + 1 - 1) > 0) := by
      rw [taperRise_of_ne (by omega) (by omega)]
      exact fun hc => absurd h1 (not_lt.mpr hc.1)
    simp only [taperStep, if_pos hrise, if_neg hnext]
  rw [taper, if_pos hN, hstep]

/-- Behind a run, the loop writes and skips three positions. -/
theorem taper_fall {c : ℕ} (hN : c < Nwindows - 2) (h0 : VAD c ≤ 0) (h1 : 0 < VAD (c - 1)) :
    taper Nwindows VAD c = taper Nwindows (taperFall VAD c) (c + 4) := by
  have hstep : taperStep VAD c = (taperFall VAD c, c + 4) := by
    have hrise : ¬(VAD c > 0 ∧ VAD (c - 2) ≤ 0) := fun hc => absurd hc.1 (not_lt.mpr h0)
    have hfall : VAD c ≤ 0 ∧ VAD (c - 1) > 0 := ⟨h0, h1⟩
    simp only [taperStep, if_neg hrise, if_pos hfall]
  rw [taper, if_pos hN, hstep]

/-- The loop passes the start of a run: the run begins where its widened form does. -/
theorem exists_taper_start [IsStrictOrderedRing 𝕜] {c : ℕ} {r : Run} (hc : 3 ≤ c)
    (h : IsRuns (fun i => 0 < VAD i) (c - 2) Nwindows (r :: rs)) (hlong : isLong r = true)
    (hN : r.finish < Nwindows) :
    ∃ VAD' d, taper Nwindows VAD c = taper Nwindows VAD' d ∧ d ≤ r.finish ∧ d ≤ Nwindows - 2 ∧
      (widen Nwindows (c - 2) r).start + 2 ≤ d ∧
      (∀ i, (widen Nwindows (c - 2) r).start ≤ i → i < r.finish → 0 < VAD' i) ∧
      ∀ i, i < (widen Nwindows (c - 2) r).start ∨ r.finish ≤ i → VAD' i = VAD i := by
  have hb := h.bounds r List.mem_cons_self
  have hlong : 4 < r.finish - r.start := of_decide_eq_true hlong
  have hstart : (widen Nwindows (c - 2) r).start = min r.start (max (c - 2) (r.start - 2)) := rfl
  have hinside : ∀ i, r.start ≤ i → i < r.finish → 0 < VAD i := fun i h1 h2 => h.inside ⟨h1, h2⟩
  have hbefore : ∀ i, c - 2 ≤ i → i < r.start → VAD i ≤ 0 := fun i h1 h2 =>
    not_lt.mp (h.before h1 h2)
  rcases Nat.eq_or_lt_of_le hb.1 with hs | hs
  · -- The run starts too early to be seen.
    refine ⟨VAD, c, rfl, by omega, by omega, by omega, fun i h1 h2 => hinside i (by omega) h2,
      fun _ _ => rfl⟩
  · -- The loop sees the start two positions after the window it writes first.
    have hpre : taper Nwindows VAD c = taper Nwindows VAD (max c r.start) :=
      taper_eq_of_noEdge (by omega) (by omega) fun i h1 h2 =>
        ⟨fun he => absurd he.1 (not_lt.mpr (hbefore i (by omega) (by omega))),
          fun he => absurd he.2 (not_lt.mpr (hbefore (i - 1) (by omega) (by omega)))⟩
    have hrise : taper Nwindows VAD (max c r.start) =
        taper Nwindows (taperRise VAD (max c r.start)) (max c r.start + 2) :=
      taper_rise (by omega) (by omega) (hinside _ (by omega) (by omega))
        (hbefore _ (by omega) (by omega)) (hinside _ (by omega) (by omega))
    refine ⟨taperRise VAD (max c r.start), max c r.start + 2, hpre.trans hrise, by omega, by omega,
      by omega, fun i h1 h2 => ?_, fun i hi => taperRise_of_ne (by omega) (by omega)⟩
    by_cases hi : i = max c r.start - 2 ∨ i = max c r.start - 1
    · exact taperRise_pos (hinside _ (by omega) (by omega)) hi
    · rw [taperRise_of_ne (by omega) (by omega)]
      exact hinside i (by omega) h2

/-- Inside a run there is no edge. -/
theorem noEdge_of_pos {i : ℕ} (h0 : 0 < VAD i) (h2 : 0 < VAD (i - 2)) : NoEdge VAD i :=
  ⟨fun he => absurd h2 (not_lt.mpr he.2), fun he => absurd h0 (not_lt.mpr he.1)⟩

/-- The loop passes the end of a run with room behind it. -/
theorem taper_end {d start finish : ℕ} (hd : d ≤ finish) (hN : finish + 2 < Nwindows)
    (hstart : start + 2 ≤ d) (hpos : ∀ i, start ≤ i → i < finish → 0 < VAD i)
    (hfinish : VAD finish ≤ 0) (hlt : start < finish) :
    taper Nwindows VAD d = taper Nwindows (taperFall VAD finish) (finish + 4) :=
  calc taper Nwindows VAD d
      = taper Nwindows VAD finish :=
        taper_eq_of_noEdge hd (by omega) fun i h1 h2 =>
          noEdge_of_pos (hpos i (by omega) h2) (hpos _ (by omega) (by omega))
    _ = taper Nwindows (taperFall VAD finish) (finish + 4) :=
        taper_fall (by omega) hfinish (hpos _ (by omega) (by omega))

/-- The loop stops in a run without room behind it. -/
theorem taper_stop {d start finish : ℕ} (hd : d ≤ Nwindows - 2) (hN : Nwindows ≤ finish + 2)
    (hstart : start + 2 ≤ d) (hpos : ∀ i, start ≤ i → i < finish → 0 < VAD i) :
    taper Nwindows VAD d = VAD :=
  calc taper Nwindows VAD d
      = taper Nwindows VAD (Nwindows - 2) :=
        taper_eq_of_noEdge hd (le_refl _) fun i h1 h2 =>
          noEdge_of_pos (hpos i (by omega) (by omega)) (hpos _ (by omega) (by omega))
    _ = VAD := by rw [taper, if_neg (lt_irrefl _)]

/-- A run that starts late is widened in the same way from any earlier position on. -/
theorem widen_eq {a b : ℕ} {r : Run} (ha : a + 2 ≤ r.start) (hb : b + 2 ≤ r.start) :
    widen Nwindows a r = widen Nwindows b r := by
  have hmin : min r.start (max a (r.start - 2)) = min r.start (max b (r.start - 2)) := by omega
  simp only [widen, hmin]

/-- Without a run ahead the loop changes nothing. -/
theorem taper_eq_self {c : ℕ} (h : ∀ i, c - 1 ≤ i → i < Nwindows - 2 → VAD i ≤ 0) :
    taper Nwindows VAD c = VAD := by
  rcases Nat.lt_or_ge c (Nwindows - 2) with hc | hc
  · calc taper Nwindows VAD c
        = taper Nwindows VAD (Nwindows - 2) :=
          taper_eq_of_noEdge hc.le (le_refl _) fun i h1 h2 =>
            ⟨fun he => absurd he.1 (not_lt.mpr (h i (by omega) h2)),
              fun he => absurd he.2 (not_lt.mpr (h (i - 1) (by omega) (by omega)))⟩
      _ = VAD := by rw [taper, if_neg (lt_irrefl _)]
  · rw [taper, if_neg (Nat.not_lt.mpr hc)]

/-- The array is positive on a range, and outside of it as it was. -/
structure PositiveOn (VAD VAD' : ℕ → 𝕜) (r : Run) : Prop where
  /-- The entries in the range. -/
  pos : ∀ i, r.Contains i → 0 < VAD' i
  /-- The entries outside. -/
  same : ∀ i, ¬r.Contains i → VAD' i = VAD i

/-- The loop widens the first run ahead: behind a run with room it goes on after what it wrote,
without room it stops. -/
theorem exists_taper_run [IsStrictOrderedRing 𝕜] {c : ℕ} {r : Run} (hc : 3 ≤ c)
    (h : IsRuns (fun i => 0 < VAD i) (c - 2) Nwindows (r :: rs)) (hlong : isLong r = true)
    (hN : r.finish < Nwindows) :
    ∃ VAD', PositiveOn VAD VAD' (widen Nwindows (c - 2) r) ∧ taper Nwindows VAD c =
      if r.finish + 2 < Nwindows then taper Nwindows VAD' (r.finish + 4) else VAD' := by
  have hb := h.bounds r List.mem_cons_self
  have hlt := r.lt
  -- First the loop passes the start of the run, then its end.
  obtain ⟨VAD₁, d, htaper, hdf, hdN, hd, hpos, hsame⟩ := exists_taper_start hc h hlong hN
  have hstart : (widen Nwindows (c - 2) r).start = min r.start (max (c - 2) (r.start - 2)) := rfl
  have hbehind : VAD r.finish ≤ 0 := not_lt.mp (h.not_finish hN)
  rw [htaper]
  by_cases hroom : r.finish + 2 < Nwindows
  · have hfinish : (widen Nwindows (c - 2) r).finish = r.finish + 2 := if_pos hroom
    have hfall : 0 < VAD₁ (r.finish - 1) := hpos _ (by omega) (by omega)
    refine ⟨taperFall VAD₁ r.finish, ⟨fun i hi => ?_, fun i hi => ?_⟩, ?_⟩
    · -- The two entries behind the run were written, the others are as the start left them.
      have h1 := hi.1
      have h2 := hi.2
      by_cases hwritten : i = r.finish ∨ i = r.finish + 1
      · exact taperFall_pos hfall (by omega) hwritten
      · rw [taperFall_of_ne (by omega) (by omega)]
        exact hpos i h1 (by omega)
    · have hout : i < (widen Nwindows (c - 2) r).start ∨ r.finish + 2 ≤ i := by
        by_contra hin
        exact hi ⟨by omega, by omega⟩
      rw [taperFall_of_ne (by omega) (by omega), hsame i (by omega)]
    · rw [if_pos hroom]
      exact taper_end hdf hroom hd hpos (by rw [hsame _ (by omega)]; exact hbehind) (by omega)
  · have hfinish : (widen Nwindows (c - 2) r).finish = r.finish := if_neg hroom
    refine ⟨VAD₁, ⟨fun i hi => hpos i hi.1 (hfinish ▸ hi.2), fun i hi => hsame i ?_⟩, ?_⟩
    · by_contra hin
      exact hi ⟨by omega, by omega⟩
    · rw [if_neg hroom]
      exact taper_stop hdN (by omega) hd hpos

/-- Smoothing widens the runs that lie ahead, and changes nothing before them. -/
theorem isRuns_taper [IsStrictOrderedRing 𝕜] :
    ∀ (rs : List Run) (VAD : ℕ → 𝕜) (c : ℕ), 3 ≤ c →
      IsRuns (fun i => 0 < VAD i) (c - 2) Nwindows rs → (∀ r ∈ rs, isLong r = true) →
      (∀ r ∈ rs, r.finish < Nwindows) → (rs.Pairwise fun r q => r.finish + 50 < q.start) →
      IsRuns (fun i => 0 < taper Nwindows VAD c i) (c - 2) Nwindows
          (rs.map (widen Nwindows (c - 2))) ∧
        ∀ i < c - 2, taper Nwindows VAD c i = VAD i
  | [], VAD, c, hc, h, _, _, _ => by
    have hnone := Runs.isRuns_nil_iff.mp h
    rw [taper_eq_self fun i h1 h2 => not_lt.mp (hnone i (by omega) (by omega))]
    exact ⟨h, fun _ _ => rfl⟩
  | r :: rs, VAD, c, hc, h, hlong, hlast, hfar => by
    have hb := h.bounds r List.mem_cons_self
    have hlt := r.lt
    have hN := hlast r List.mem_cons_self
    have hahead : ∀ q ∈ rs, r.finish + 50 < q.start := fun q hq =>
      List.rel_of_pairwise_cons hfar hq
    obtain ⟨VAD', hwide, htaper⟩ := exists_taper_run hc h (hlong r List.mem_cons_self) hN
    have hstart : (widen Nwindows (c - 2) r).start = min r.start (max (c - 2) (r.start - 2)) := rfl
    have hfinish : (widen Nwindows (c - 2) r).finish =
      if r.finish + 2 < Nwindows then r.finish + 2 else r.finish := rfl
    have hbefore : ∀ i, c - 2 ≤ i → i < (widen Nwindows (c - 2) r).start → ¬0 < VAD' i :=
      fun i h1 h2 => by
        rw [hwide.same i fun hi => absurd hi.1 (Nat.not_le.mpr h2)]
        exact h.before h1 (by omega)
    rw [htaper, List.map_cons]
    by_cases hroom : r.finish + 2 < Nwindows
    · rw [if_pos hroom] at hfinish ⊢
      -- The runs behind are runs of what the loop finds when it goes on.
      have hrest : IsRuns (fun i => 0 < VAD' i) (r.finish + 2) Nwindows rs := by
        refine (h.tail.mono (by omega) fun q hq => ?_).congr fun i hi _ => ?_
        · have := hahead q hq
          omega
        · rw [hwide.same i fun hin => absurd hin.2 (by omega)]
      obtain ⟨hruns, hkeep⟩ := isRuns_taper rs VAD' (r.finish + 4) (by omega) hrest
        (fun q hq => hlong q (List.mem_cons_of_mem _ hq))
        (fun q hq => hlast q (List.mem_cons_of_mem _ hq)) hfar.of_cons
      have hmap : rs.map (widen Nwindows (r.finish + 4 - 2)) = rs.map (widen Nwindows (c - 2)) :=
        List.map_congr_left fun q hq => widen_eq (by have := hahead q hq; omega)
          (by have := hahead q hq; omega)
      rw [hmap, show r.finish + 4 - 2 = r.finish + 2 by omega] at hruns
      refine ⟨IsRuns.cons (hfinish ▸ hruns) (fun x hx => ?_) (by omega) (by omega)
        (fun i h1 h2 => ?_) fun i hi => ?_, fun i hi => ?_⟩
      · obtain ⟨q, hq, rfl⟩ := List.mem_map.mp hx
        have := hahead q hq
        have : (widen Nwindows (c - 2) q).start = min q.start (max (c - 2) (q.start - 2)) := rfl
        omega
      · rw [hkeep i (by omega)]
        exact hbefore i h1 h2
      · have h2 := hi.2
        rw [hkeep i (by omega)]
        exact hwide.pos i hi
      · rw [hkeep i (by omega), hwide.same i fun hin => absurd hin.1 (by omega)]
    · rw [if_neg hroom] at hfinish ⊢
      -- A run without room behind it is the last one.
      have hrs : rs = [] := by
        refine List.eq_nil_iff_forall_not_mem.mpr fun q hq => ?_
        have := hahead q hq
        have := hlast q (List.mem_cons_of_mem _ hq)
        have := q.lt
        omega
      subst hrs
      have hnone := Runs.isRuns_nil_iff.mp h.after
      refine ⟨IsRuns.cons (Runs.isRuns_nil_iff.mpr fun i h1 h2 => ?_) (fun x hx => by cases hx)
        (by omega) (by omega) hbefore hwide.pos,
        fun i hi => hwide.same i fun hin => absurd hin.1 (by omega)⟩
      rw [hwide.same i fun hin => absurd hin.2 (by omega)]
      exact hnone i (by omega) h2

end Taper

end TgVoipRate.Pesq
