import Mathlib.Data.List.Basic
import Mathlib.Data.List.Range

/-!
# Maximal runs, and loops that look for their ends

The positions of a range at which a predicate holds fall into maximal runs (`IsRuns`). Many loops
scan a sequence for the places where a run starts or ends and act there. The rules below turn such
a loop into a fold over the runs: for a loop that compares a position with the one before it
(`foldl_edgeStep`), also when it changes the sequence behind itself while it goes, and for a loop
that remembers whether it is inside a run (`foldl_flagStep`). Where a loop puts the runs into a
table and uses a slot again until a run is kept, `slots_lt_iff` says when the table has room.
-/

namespace Runs

/-! ## Runs -/

/-- A range of positions that is not empty. -/
@[ext]
structure Run where
  /-- The first position. -/
  start : ℕ
  /-- The first position after the run. -/
  finish : ℕ
  /-- There is a position. -/
  lt : start < finish
  deriving DecidableEq

/-- The position is in the run. -/
def Run.Contains (r : Run) (i : ℕ) : Prop := r.start ≤ i ∧ i < r.finish

instance (r : Run) (i : ℕ) : Decidable (r.Contains i) := inferInstanceAs (Decidable (_ ∧ _))

/-- The number of positions in the run. -/
def Run.length (r : Run) : ℕ := r.finish - r.start

/-- The runs are the maximal ones of a predicate between two positions, from left to right. -/
structure IsRuns (p : ℕ → Prop) (a N : ℕ) (rs : List Run) : Prop where
  /-- Between two runs there is a position. -/
  separated : rs.Pairwise fun r q => r.finish < q.start
  /-- The runs are in the range. -/
  bounds : ∀ r ∈ rs, a ≤ r.start ∧ r.finish ≤ N
  /-- The predicate holds in the runs and nowhere else. -/
  mem_iff : ∀ i, a ≤ i → i < N → (p i ↔ ∃ r ∈ rs, r.Contains i)

variable {p q : ℕ → Prop} {a N : ℕ} {r : Run} {rs : List Run}

/-- There is no run exactly where the predicate holds nowhere. -/
theorem isRuns_nil_iff : IsRuns p a N [] ↔ ∀ i, a ≤ i → i < N → ¬p i := by
  constructor
  · intro h i hi hN hp
    obtain ⟨r, hr, -⟩ := (h.mem_iff i hi hN).mp hp
    cases hr
  · intro h
    exact ⟨List.Pairwise.nil, by simp, fun i hi hN => by simp [h i hi hN]⟩

/-- There is no run in an empty range. -/
theorem IsRuns.eq_nil_of_le (h : IsRuns p a N rs) (hN : N ≤ a) : rs = [] := by
  refine List.eq_nil_iff_forall_not_mem.mpr fun r hr => ?_
  have := h.bounds r hr
  have := r.lt
  omega

/-- The runs depend on the predicate inside the range only. -/
theorem IsRuns.congr (h : IsRuns p a N rs) (hpq : ∀ i, a ≤ i → i < N → (q i ↔ p i)) :
    IsRuns q a N rs :=
  ⟨h.separated, h.bounds, fun i hi hN => (hpq i hi hN).trans (h.mem_iff i hi hN)⟩

/-- The first run starts after positions where the predicate does not hold. -/
theorem IsRuns.before (h : IsRuns p a N (r :: rs)) {i : ℕ} (hi : a ≤ i) (hr : i < r.start) :
    ¬p i := by
  have hb := h.bounds r List.mem_cons_self
  have hlt := r.lt
  intro hp
  obtain ⟨q, hq, hqi⟩ := (h.mem_iff i hi (by omega)).mp hp
  rcases List.mem_cons.mp hq with rfl | hq
  · exact absurd hqi.1 (by omega)
  · have hsep := List.rel_of_pairwise_cons h.separated hq
    have := hqi.1
    omega

/-- The predicate holds in the first run. -/
theorem IsRuns.inside (h : IsRuns p a N (r :: rs)) {i : ℕ} (hi : r.Contains i) : p i := by
  have hb := h.bounds r List.mem_cons_self
  exact (h.mem_iff i (hb.1.trans hi.1) (Nat.lt_of_lt_of_le hi.2 hb.2)).mpr
    ⟨r, List.mem_cons_self, hi⟩

/-- The predicate does not hold right after the first run. -/
theorem IsRuns.not_finish (h : IsRuns p a N (r :: rs)) (hN : r.finish < N) : ¬p r.finish := by
  have hb := h.bounds r List.mem_cons_self
  have hlt := r.lt
  intro hp
  obtain ⟨q, hq, hqi⟩ := (h.mem_iff _ (by omega) hN).mp hp
  rcases List.mem_cons.mp hq with rfl | hq
  · exact absurd hqi.2 (Nat.lt_irrefl _)
  · exact absurd (List.rel_of_pairwise_cons h.separated hq) (Nat.not_lt.mpr hqi.1)

/-- The other runs are those after the first one. -/
theorem IsRuns.tail (h : IsRuns p a N (r :: rs)) : IsRuns p (r.finish + 1) N rs := by
  have hb := h.bounds r List.mem_cons_self
  have hlt := r.lt
  refine ⟨h.separated.of_cons, fun q hq => ?_, fun i hi hN => ?_⟩
  · exact ⟨List.rel_of_pairwise_cons h.separated hq, (h.bounds q (List.mem_cons_of_mem _ hq)).2⟩
  · rw [h.mem_iff i (by omega) hN]
    constructor
    · rintro ⟨q, hq, hqi⟩
      rcases List.mem_cons.mp hq with rfl | hq
      · exact absurd hqi.2 (by omega)
      · exact ⟨q, hq, hqi⟩
    · rintro ⟨q, hq, hqi⟩
      exact ⟨q, List.mem_cons_of_mem _ hq, hqi⟩

/-- A position without the predicate in front of the range changes nothing. -/
theorem IsRuns.skip (h : IsRuns p (a + 1) N rs) (hp : ¬p a) : IsRuns p a N rs := by
  refine ⟨h.separated, fun r hr => ?_, fun i hi hN => ?_⟩
  · have := h.bounds r hr
    exact ⟨by omega, this.2⟩
  · rcases Nat.eq_or_lt_of_le hi with rfl | hi
    · apply iff_of_false hp
      rintro ⟨r, hr, hri⟩
      have := (h.bounds r hr).1.trans hri.1
      omega
    · exact h.mem_iff i hi hN

/-- The other runs, from the end of the first one on. -/
theorem IsRuns.after (h : IsRuns p a N (r :: rs)) : IsRuns p r.finish N rs := by
  rcases Nat.lt_or_ge r.finish N with hf | hf
  · exact h.tail.skip (h.not_finish hf)
  · rw [h.tail.eq_nil_of_le (by omega)]
    exact isRuns_nil_iff.mpr fun i hi hiN => by omega

/-- The range may begin at any position up to the first run. -/
theorem IsRuns.mono (h : IsRuns p a N rs) {b : ℕ} (hab : a ≤ b) (hb : ∀ r ∈ rs, b ≤ r.start) :
    IsRuns p b N rs :=
  ⟨h.separated, fun r hr => ⟨hb r hr, (h.bounds r hr).2⟩,
    fun i hi hN => h.mem_iff i (hab.trans hi) hN⟩

/-- A position without the predicate behind the range changes nothing. -/
theorem IsRuns.snoc (h : IsRuns p a N rs) (hp : ¬p N) : IsRuns p a (N + 1) rs := by
  refine ⟨h.separated, fun r hr => ?_, fun i hi hN => ?_⟩
  · have := h.bounds r hr
    exact ⟨this.1, by omega⟩
  · rcases Nat.lt_or_ge i N with hiN | hiN
    · exact h.mem_iff i hi hiN
    · obtain rfl : i = N := by omega
      apply iff_of_false hp
      rintro ⟨r, hr, hri⟩
      exact absurd ((h.bounds r hr).2.trans hiN) (Nat.not_le.mpr hri.2)

/-- The runs end before the last position, if the predicate does not hold there. -/
theorem IsRuns.finish_lt (h : IsRuns p a N rs) (hp : ¬p (N - 1)) : ∀ r ∈ rs, r.finish < N := by
  intro r hr
  have hb := h.bounds r hr
  have hlt := r.lt
  by_contra hN
  exact hp ((h.mem_iff _ (by omega) (by omega)).mpr ⟨r, hr, by omega, by omega⟩)

/-- Two runs have a position between them. -/
theorem IsRuns.apart (h : IsRuns p a N rs) {r q : Run} (hr : r ∈ rs) (hq : q ∈ rs) (hne : r ≠ q) :
    r.finish < q.start ∨ q.finish < r.start := by
  have hsym : Std.Symm fun r q : Run => r.finish < q.start ∨ q.finish < r.start :=
    ⟨fun _ _ => Or.symm⟩
  have hapart : rs.Pairwise fun r q => r.finish < q.start ∨ q.finish < r.start :=
    h.separated.imp Or.inl
  exact hapart.forall hr hq hne

/-- A position is in one run only. -/
theorem IsRuns.eq_of_contains (h : IsRuns p a N rs) {r q : Run} {i : ℕ} (hr : r ∈ rs) (hq : q ∈ rs)
    (hri : r.Contains i) (hqi : q.Contains i) : r = q := by
  by_contra hne
  have := h.apart hr hq hne
  have := hri.1
  have := hri.2
  have := hqi.1
  have := hqi.2
  omega

/-- The predicate does not hold right after a run. -/
theorem IsRuns.not_finish_of_mem (h : IsRuns p a N rs) (hr : r ∈ rs) (hN : r.finish < N) :
    ¬p r.finish := by
  have hb := h.bounds r hr
  have hlt := r.lt
  intro hp
  obtain ⟨q, hq, hstart, hfinish⟩ := (h.mem_iff _ (by omega) hN).mp hp
  have hne : r ≠ q := by
    rintro rfl
    exact Nat.lt_irrefl _ hfinish
  have := h.apart hr hq hne
  omega

/-- A range where the predicate holds, between two positions where it does not, is a run. -/
theorem IsRuns.mem_of_maximal (h : IsRuns p a N rs) (ha : a < r.start) (hN : r.finish < N)
    (hinside : ∀ i, r.Contains i → p i) (hbefore : ¬p (r.start - 1)) (hafter : ¬p r.finish) :
    r ∈ rs := by
  have hlt := r.lt
  obtain ⟨q, hq, hstart, hfinish⟩ :=
    (h.mem_iff r.start (by omega) (by omega)).mp (hinside _ ⟨Nat.le_refl _, hlt⟩)
  have hb := h.bounds q hq
  have hqlt := q.lt
  -- The run that contains the start of the range has the same ends.
  have hstarts : q.start = r.start := by
    by_contra hne
    exact hbefore ((h.mem_iff _ (by omega) (by omega)).mpr ⟨q, hq, by omega, by omega⟩)
  have hfinishes : q.finish = r.finish := by
    rcases Nat.lt_trichotomy q.finish r.finish with hlt' | heq | hlt'
    · exact absurd (hinside _ ⟨by omega, hlt'⟩) (h.not_finish_of_mem hq (by omega))
    · exact heq
    · exact absurd ((h.mem_iff _ (by omega) hN).mpr ⟨q, hq, by omega, hlt'⟩) hafter
  rwa [← Run.ext hstarts hfinishes]

/-- A run in front of others. -/
theorem IsRuns.cons (h : IsRuns p r.finish N rs) (hsep : ∀ q ∈ rs, r.finish < q.start)
    (ha : a ≤ r.start) (hN : r.finish ≤ N) (hbefore : ∀ i, a ≤ i → i < r.start → ¬p i)
    (hinside : ∀ i, r.Contains i → p i) : IsRuns p a N (r :: rs) := by
  have hlt := r.lt
  refine ⟨List.pairwise_cons.mpr ⟨hsep, h.separated⟩, ?_, fun i hi hiN => ?_⟩
  · intro q hq
    rcases List.mem_cons.mp hq with rfl | hq
    · exact ⟨ha, hN⟩
    · have := h.bounds q hq
      exact ⟨by omega, this.2⟩
  · -- Up to the end of the new run its position decides, behind it the other runs do.
    rcases Nat.lt_or_ge i r.finish with hf | hf
    · constructor
      · intro hp
        refine ⟨r, List.mem_cons_self, ?_, hf⟩
        by_contra hs
        exact hbefore i hi (Nat.not_le.mp hs) hp
      · rintro ⟨q, hq, hqi⟩
        rcases List.mem_cons.mp hq with rfl | hq
        · exact hinside i hqi
        · have := (h.bounds q hq).1.trans hqi.1
          omega
    · rw [h.mem_iff i hf hiN]
      constructor
      · rintro ⟨q, hq, hqi⟩
        exact ⟨q, List.mem_cons_of_mem _ hq, hqi⟩
      · rintro ⟨q, hq, hqi⟩
        rcases List.mem_cons.mp hq with rfl | hq
        · exact absurd hqi.2 (by omega)
        · exact ⟨q, hq, hqi⟩

/-- The first run of a tail starts after the position behind the run before it. -/
theorem IsRuns.lt_start (h : IsRuns p a N (r :: rs)) {q : Run} (hq : q ∈ rs) : r.finish < q.start :=
  List.rel_of_pairwise_cons h.separated hq

/-- One run is all there is where the predicate holds everywhere. -/
theorem isRuns_singleton (ha : a ≤ r.start) (hN : r.finish ≤ N)
    (hp : ∀ i, a ≤ i → i < N → (p i ↔ r.Contains i)) : IsRuns p a N [r] :=
  ⟨List.pairwise_singleton _ _, by simpa using ⟨ha, hN⟩, fun i hi hiN => by simp [hp i hi hiN]⟩

/-- The runs that a test keeps are those of the positions in them. -/
theorem IsRuns.filter (h : IsRuns p a N rs) (keep : Run → Bool)
    (hq : ∀ i, a ≤ i → i < N → (q i ↔ ∃ r ∈ rs, r.Contains i ∧ keep r = true)) :
    IsRuns q a N (rs.filter keep) := by
  refine ⟨h.separated.filter _, fun r hr => h.bounds r (List.mem_filter.mp hr).1, fun i hi hN => ?_⟩
  rw [hq i hi hN]
  constructor
  · rintro ⟨r, hr, hri, hk⟩
    exact ⟨r, List.mem_filter.mpr ⟨hr, hk⟩, hri⟩
  · rintro ⟨r, hr, hri⟩
    exact ⟨r, (List.mem_filter.mp hr).1, hri, (List.mem_filter.mp hr).2⟩

/-- The runs are determined by the predicate. -/
theorem IsRuns.unique : ∀ {rs qs : List Run} {a : ℕ}, IsRuns p a N rs → IsRuns p a N qs → rs = qs
  | [], [], _, _, _ => rfl
  | [], q :: _, _, h, h' => by
    have hb := h'.bounds q List.mem_cons_self
    have hlt := q.lt
    exact absurd (h'.inside ⟨le_refl _, hlt⟩) (isRuns_nil_iff.mp h _ hb.1 (by omega))
  | r :: _, [], _, h, h' => by
    have hb := h.bounds r List.mem_cons_self
    have hlt := r.lt
    exact absurd (h.inside ⟨le_refl _, hlt⟩) (isRuns_nil_iff.mp h' _ hb.1 (by omega))
  | r :: rs, q :: qs, a, h, h' => by
    have hr := h.bounds r List.mem_cons_self
    have hq := h'.bounds q List.mem_cons_self
    have hrlt := r.lt
    have hqlt := q.lt
    -- Where one run began or ended first, the predicate would hold and not hold.
    have hstart : r.start = q.start := by
      rcases Nat.lt_trichotomy r.start q.start with hlt | heq | hlt
      · exact absurd (h.inside ⟨le_refl _, hrlt⟩) (h'.before hr.1 hlt)
      · exact heq
      · exact absurd (h'.inside ⟨le_refl _, hqlt⟩) (h.before hq.1 hlt)
    have hfinish : r.finish = q.finish := by
      rcases Nat.lt_trichotomy r.finish q.finish with hlt | heq | hlt
      · exact absurd (h'.inside ⟨by omega, hlt⟩) (h.not_finish (by omega))
      · exact heq
      · exact absurd (h.inside ⟨by omega, hlt⟩) (h'.not_finish (by omega))
    have hrq : r = q := Run.ext hstart hfinish
    rw [hrq, IsRuns.unique h.tail (hrq ▸ h'.tail)]

/-! ## Computing the runs -/

/-- Puts a position in front of runs: it extends a run that starts right after it. -/
def extend (i : ℕ) : List Run → List Run
  | [] => [⟨i, i + 1, i.lt_succ_self⟩]
  | r :: rs =>
    if h : r.start = i + 1 then ⟨i, r.finish, by have := r.lt; omega⟩ :: rs
    else ⟨i, i + 1, i.lt_succ_self⟩ :: r :: rs

/-- The maximal runs among a number of positions from a first one on. -/
def runsFrom (p : ℕ → Prop) [DecidablePred p] (a : ℕ) : ℕ → List Run
  | 0 => []
  | n + 1 => if p a then extend a (runsFrom p (a + 1) n) else runsFrom p (a + 1) n

/-- A position with the predicate in front of the range is put in front of the runs. -/
theorem IsRuns.extend (h : IsRuns p (a + 1) N rs) (hp : p a) (hN : a < N) :
    IsRuns p a N (extend a rs) := by
  cases rs with
  | nil =>
    refine IsRuns.cons h (by simp) (le_refl _) hN (fun i hi hia => absurd hia (Nat.not_lt.mpr hi))
      fun i hi => ?_
    rwa [show i = a from Nat.le_antisymm (Nat.lt_succ_iff.mp hi.2) hi.1]
  | cons r rs =>
    have hb := h.bounds r List.mem_cons_self
    have hlt := r.lt
    rw [Runs.extend]
    split
    · -- The position is right in front of the first run.
      rename_i hstart
      refine IsRuns.cons h.after (fun q hq => h.lt_start hq) (le_refl _) hb.2
        (fun i hi hia => absurd hia (Nat.not_lt.mpr hi)) fun i hi => ?_
      rcases Nat.eq_or_lt_of_le hi.1 with hia | hia
      · exact hia ▸ hp
      · exact h.inside ⟨hstart ▸ hia, hi.2⟩
    · -- The position is a run of its own.
      refine IsRuns.cons h (fun q hq => ?_) (le_refl _) hN
        (fun i hi hia => absurd hia (Nat.not_lt.mpr hi)) fun i hi => ?_
      · rcases List.mem_cons.mp hq with rfl | hq
        · show a + 1 < q.start
          omega
        · have := h.lt_start hq
          show a + 1 < q.start
          omega
      · rwa [show i = a from Nat.le_antisymm (Nat.lt_succ_iff.mp hi.2) hi.1]

/-- The runs that are computed are the maximal ones. -/
theorem isRuns_runsFrom [DecidablePred p] : ∀ (n a : ℕ), IsRuns p a (a + n) (runsFrom p a n)
  | 0, a => isRuns_nil_iff.mpr fun i hi hN => by omega
  | n + 1, a => by
    have ih := isRuns_runsFrom n (a + 1)
    rw [show a + 1 + n = a + (n + 1) by omega] at ih
    rw [runsFrom]
    split
    · rename_i hp
      exact ih.extend hp (by omega)
    · rename_i hp
      exact ih.skip hp

/-! ## Joining runs -/

/-- The range from the start of one run to the end of a later one. -/
def Run.hull (r q : Run) : Run where
  start := r.start
  finish := max r.finish q.finish
  lt := Nat.lt_of_lt_of_le r.lt (Nat.le_max_left _ _)

/-- Joins a run with the runs after it, over gaps that are not longer than a bound. -/
def joinFrom (g : ℕ) (r : Run) : List Run → List Run
  | [] => [r]
  | q :: rs => if q.start ≤ r.finish + g then joinFrom g (r.hull q) rs else r :: joinFrom g q rs

/-- Joins runs over gaps that are not longer than a bound. -/
def joinGaps (g : ℕ) : List Run → List Run
  | [] => []
  | r :: rs => joinFrom g r rs

variable {g : ℕ}

/-- Joining never gives nothing. -/
theorem joinFrom_ne_nil : ∀ (rs : List Run) (r : Run), joinFrom g r rs ≠ []
  | [], _ => List.cons_ne_nil _ _
  | q :: rs, r => by
    rw [joinFrom]
    split
    · exact joinFrom_ne_nil rs _
    · exact List.cons_ne_nil _ _

/-- There are no joined runs exactly if there are no runs. -/
theorem joinGaps_eq_nil_iff : joinGaps g rs = [] ↔ rs = [] := by
  cases rs with
  | nil => exact Iff.rfl
  | cons r rs => exact iff_of_false (joinFrom_ne_nil rs r) (List.cons_ne_nil _ _)

/-- Joining keeps what holds of every run and passes to the hull of two. -/
theorem forall_joinGaps {P : Run → Prop} (hull : ∀ r q, P r → P q → P (r.hull q))
    (h : ∀ r ∈ rs, P r) : ∀ r ∈ joinGaps g rs, P r := by
  cases rs with
  | nil => exact h
  | cons r rs =>
    rw [joinGaps]
    induction rs generalizing r with
    | nil => exact h
    | cons q rs ih =>
      have hr := h r List.mem_cons_self
      have hq := h q (by simp)
      have hrest : ∀ x ∈ rs, P x := fun x hx => h x (by simp [hx])
      rw [joinFrom]
      split
      · exact ih (r.hull q) (List.forall_mem_cons.mpr ⟨hull r q hr hq, hrest⟩)
      · exact List.forall_mem_cons.mpr ⟨hr, ih q (List.forall_mem_cons.mpr ⟨hq, hrest⟩)⟩

/-- Joining leaves runs alone that are far from each other. -/
theorem joinGaps_eq_self (h : rs.Pairwise fun r q => r.finish + g < q.start) :
    joinGaps g rs = rs := by
  cases rs with
  | nil => rfl
  | cons r rs =>
    rw [joinGaps]
    induction rs generalizing r with
    | nil => rfl
    | cons q rs ih =>
      have hfar := List.rel_of_pairwise_cons h List.mem_cons_self
      rw [joinFrom, if_neg (Nat.not_le.mpr hfar), ih q h.of_cons]

/-- A run stays behind others when a run behind it is joined to it. -/
theorem pairwise_hull {r q : Run} (h : (r :: q :: rs).Pairwise fun r q => r.finish < q.start) :
    (r.hull q :: rs).Pairwise fun r q => r.finish < q.start := by
  refine List.pairwise_cons.mpr ⟨fun x hx => ?_, h.of_cons.of_cons⟩
  have hr := List.rel_of_pairwise_cons h (List.mem_cons_of_mem q hx)
  have hq := List.rel_of_pairwise_cons h.of_cons hx
  exact Nat.max_lt.mpr ⟨hr, hq⟩

/-- The joined runs start where the first run starts, or later. -/
theorem start_le_of_mem_joinFrom (h : (r :: rs).Pairwise fun r q => r.finish < q.start) :
    ∀ x ∈ joinFrom g r rs, r.start ≤ x.start := by
  induction rs generalizing r with
  | nil => simp [joinFrom]
  | cons q rs ih =>
    intro x hx
    rw [joinFrom] at hx
    split at hx
    · exact ih (pairwise_hull h) x hx
    · rcases List.mem_cons.mp hx with rfl | hx
      · exact le_refl _
      · have hsep := List.rel_of_pairwise_cons h List.mem_cons_self
        have hlt := r.lt
        have := ih h.of_cons x hx
        omega

/-- The joined runs are far from each other. -/
theorem joinGaps_far (h : rs.Pairwise fun r q => r.finish < q.start) :
    (joinGaps g rs).Pairwise fun r q => r.finish + g < q.start := by
  cases rs with
  | nil => exact List.Pairwise.nil
  | cons r rs =>
    rw [joinGaps]
    induction rs generalizing r with
    | nil => exact List.pairwise_singleton _ _
    | cons q rs ih =>
      rw [joinFrom]
      split
      · exact ih _ (pairwise_hull h)
      · rename_i hfar
        refine List.pairwise_cons.mpr ⟨fun x hx => ?_, ih _ h.of_cons⟩
        exact Nat.lt_of_lt_of_le (Nat.not_le.mp hfar) (start_le_of_mem_joinFrom h.of_cons x hx)

/-! ## Slots for runs -/

section Slots

variable {keep : Run → Bool}

/-- The slots of a table that are used for some runs: a slot is used again until a run is kept. -/
def slots (keep : Run → Bool) : List Run → ℕ → List ℕ
  | [], _ => []
  | r :: rs, n => n :: slots keep rs (if keep r = true then n + 1 else n)

/-- The last run uses the highest slot: it comes after those of the kept runs before. -/
theorem slots_cons_lt_iff {size : ℕ} : ∀ (rs : List Run) (r : Run) (n : ℕ),
    (∀ i ∈ slots keep (r :: rs) n, i < size) ↔ n + (r :: rs).dropLast.countP keep < size
  | [], r, n => by simp [slots]
  | q :: rs, r, n => by
    have hcount : n + (r :: q :: rs).dropLast.countP keep =
        (if keep r = true then n + 1 else n) + (q :: rs).dropLast.countP keep := by
      rw [List.dropLast_cons_cons, List.countP_cons]
      split <;> omega
    rw [hcount, ← slots_cons_lt_iff rs q, slots]
    constructor
    · exact fun h i hi => h i (List.mem_cons_of_mem n hi)
    · intro h i hi
      -- The slot of the first run is not behind that of the second one.
      have hsecond : (if keep r = true then n + 1 else n) < size := h _ List.mem_cons_self
      rcases List.mem_cons.mp hi with rfl | hi
      · split at hsecond <;> omega
      · exact h i hi

/-- A table has room for some runs exactly if few enough of those before the last one are kept. -/
theorem slots_lt_iff {size : ℕ} (hsize : 0 < size) (rs : List Run) :
    (∀ i ∈ slots keep rs 0, i < size) ↔ rs.dropLast.countP keep < size := by
  cases rs with
  | nil => simp [slots, hsize]
  | cons r rs => rw [slots_cons_lt_iff, Nat.zero_add]

end Slots

/-! ## Loops that look for the ends of runs -/

/-- A range cut at a position in it. -/
theorem range'_split {a b c : ℕ} (hab : a ≤ b) (hbc : b ≤ c) :
    List.range' a (c - a) = List.range' a (b - a) ++ List.range' b (c - b) := by
  obtain ⟨m, rfl⟩ := Nat.exists_eq_add_of_le hab
  obtain ⟨n, rfl⟩ := Nat.exists_eq_add_of_le hbc
  rw [Nat.add_sub_cancel_left, Nat.add_sub_cancel_left, List.range'_append_1, Nat.add_assoc,
    Nat.add_sub_cancel_left]

/-- The first position of a range. -/
theorem range'_cons_of_lt {a b : ℕ} (h : a < b) :
    List.range' a (b - a) = a :: List.range' (a + 1) (b - (a + 1)) := by
  rw [← List.range'_succ]
  congr 1
  omega

section Scan

variable {σ : Type*}

/-- The body of a loop that compares a position with the one before it: it acts where a run of the
state's predicate starts, and right after its end. -/
def edgeStep (pos : σ → ℕ → Prop) [∀ s, DecidablePred (pos s)] (rise fall : ℕ → σ → σ)
    (s : σ) (i : ℕ) : σ :=
  let s := if pos s i ∧ ¬pos s (i - 1) then rise i s else s
  if ¬pos s i ∧ pos s (i - 1) then fall i s else s

variable {pos : σ → ℕ → Prop} [∀ s, DecidablePred (pos s)] {rise fall : ℕ → σ → σ}

/-- The body does nothing inside a run and between runs. -/
theorem edgeStep_eq_self {s : σ} {i : ℕ} (h : pos s i ↔ pos s (i - 1)) :
    edgeStep pos rise fall s i = s := by
  have hrise : ¬(pos s i ∧ ¬pos s (i - 1)) := fun hp => hp.2 (h.mp hp.1)
  have hfall : ¬(¬pos s i ∧ pos s (i - 1)) := fun hp => hp.1 (h.mpr hp.2)
  simp only [edgeStep, if_neg hrise, if_neg hfall]

/-- The loop does nothing on a stretch without an edge. -/
theorem foldl_edgeStep_eq_self {s : σ} : ∀ (n b : ℕ),
    (∀ i, b ≤ i → i < b + n → (pos s i ↔ pos s (i - 1))) →
    (List.range' b n).foldl (edgeStep pos rise fall) s = s
  | 0, _, _ => rfl
  | n + 1, b, h => by
    have hb : edgeStep pos rise fall s b = s := edgeStep_eq_self (h b (by omega) (by omega))
    rw [List.range'_succ, List.foldl_cons, hb]
    exact foldl_edgeStep_eq_self n (b + 1) fun i hi hn => h i (by omega) (by omega)

/-- The actions at the two ends of a run. -/
def onEnds (rise fall : ℕ → σ → σ) (s : σ) (r : Run) : σ := fall r.finish (rise r.start s)

/-- A loop that acts on the edges, where what it changes lies behind it, visits the runs of the
state it starts from: it acts at the two ends of each one, from left to right. -/
theorem foldl_edgeStep (hrise : ∀ i s j, i ≤ j → (pos (rise i s) j ↔ pos s j))
    (hfall : ∀ i s j, i ≤ j → (pos (fall i s) j ↔ pos s j)) {N : ℕ} :
    ∀ (rs : List Run) (a : ℕ) (s : σ), IsRuns (pos s) a N rs → 0 < a → ¬pos s (a - 1) → a ≤ N →
      (∀ r ∈ rs, r.finish < N) →
      (List.range' a (N - a)).foldl (edgeStep pos rise fall) s = rs.foldl (onEnds rise fall) s
  | [], a, s, h, ha, h0, haN, _ => by
    have hnone := isRuns_nil_iff.mp h
    refine foldl_edgeStep_eq_self _ _ fun i hi hiN => iff_of_false (hnone i hi (by omega)) ?_
    rcases Nat.eq_or_lt_of_le hi with rfl | hi
    · exact h0
    · exact hnone (i - 1) (by omega) (by omega)
  | r :: rs, a, s, h, ha, h0, haN, hlast => by
    have hb := h.bounds r List.mem_cons_self
    have hlt := r.lt
    have hfinish := hlast r List.mem_cons_self
    -- The loop in five parts: before the run, its start, the rest of it, its end, and after it.
    have hsplit : List.range' a (N - a) = List.range' a (r.start - a) ++ (r.start ::
        (List.range' (r.start + 1) (r.finish - (r.start + 1)) ++ (r.finish ::
          List.range' (r.finish + 1) (N - (r.finish + 1))))) := by
      have hN : r.start < N := by omega
      have hrun := range'_split (Nat.succ_le_of_lt hlt) hfinish.le
      rw [range'_split hb.1 hN.le, range'_cons_of_lt hN, hrun, range'_cons_of_lt hfinish]
    -- The predicate holds nowhere before the run, so there is no edge.
    have hpre : (List.range' a (r.start - a)).foldl (edgeStep pos rise fall) s = s := by
      refine foldl_edgeStep_eq_self _ _ fun i hi hir => ?_
      refine iff_of_false (h.before hi (by omega)) ?_
      rcases Nat.eq_or_lt_of_le hi with rfl | hi
      · exact h0
      · exact h.before (by omega) (by omega)
    have hprev : ¬pos s (r.start - 1) := by
      rcases Nat.eq_or_lt_of_le hb.1 with ha | ha
      · rw [← ha]
        exact h0
      · exact h.before (by omega) (by omega)
    -- Only the first action is taken at the start, only the second one right behind the run.
    have hstart : edgeStep pos rise fall s r.start = rise r.start s := by
      have hp : pos s r.start := h.inside ⟨le_refl _, hlt⟩
      have hp' : pos (rise r.start s) r.start := (hrise _ _ _ (le_refl _)).mpr hp
      simp only [edgeStep, if_pos (And.intro hp hprev), if_neg (fun hn => hn.1 hp' :
        ¬(¬pos (rise r.start s) r.start ∧ pos (rise r.start s) (r.start - 1)))]
    have hin : (List.range' (r.start + 1) (r.finish - (r.start + 1))).foldl (edgeStep pos rise fall)
        (rise r.start s) = rise r.start s := by
      refine foldl_edgeStep_eq_self _ _ fun i hi hir => ?_
      rw [hrise _ _ _ (by omega), hrise _ _ _ (by omega)]
      exact iff_of_true (h.inside ⟨by omega, by omega⟩) (h.inside ⟨by omega, by omega⟩)
    have hend : edgeStep pos rise fall (rise r.start s) r.finish =
        fall r.finish (rise r.start s) := by
      have hn : ¬pos (rise r.start s) r.finish :=
        mt (hrise _ _ _ hlt.le).mp (h.not_finish hfinish)
      have hp : pos (rise r.start s) (r.finish - 1) :=
        (hrise _ _ _ (by omega)).mpr (h.inside ⟨by omega, by omega⟩)
      have hno : ¬(pos (rise r.start s) r.finish ∧ ¬pos (rise r.start s) (r.finish - 1)) :=
        fun hc => hn hc.1
      simp only [edgeStep, if_neg hno, if_pos (And.intro hn hp)]
    -- What was changed lies behind the loop, so the other runs are still there.
    have hrest : ∀ j, r.finish ≤ j → (pos (onEnds rise fall s r) j ↔ pos s j) := fun j hj => by
      rw [onEnds, hfall _ _ _ hj, hrise _ _ _ (by omega)]
    rw [hsplit, List.foldl_append, hpre, List.foldl_cons, hstart, List.foldl_append, hin,
      List.foldl_cons, hend, List.foldl_cons]
    exact foldl_edgeStep hrise hfall rs (r.finish + 1) (onEnds rise fall s r)
      (h.tail.congr fun i hi _ => hrest i (by omega)) (by omega)
      (mt (hrest _ (by omega)).mp (h.not_finish hfinish)) hfinish
      fun q hq => hlast q (List.mem_cons_of_mem _ hq)

/-- The body of a loop that remembers whether it is inside a run. A run ends where the loop sees a
stop, and at the last position. -/
def flagStep (p stop : ℕ → Prop) [DecidablePred p] [DecidablePred stop] (last : ℕ) (flag : σ → Bool)
    (rise fall : ℕ → σ → σ) (s : σ) (i : ℕ) : σ :=
  let s := if p i ∧ flag s = false then rise i s else s
  if (stop i ∨ i = last) ∧ flag s = true then fall i s else s

variable {stop : ℕ → Prop} [DecidablePred p] [DecidablePred stop] {flag : σ → Bool} {last : ℕ}

/-- Between runs the body does nothing. -/
theorem foldl_flagStep_outside {s : σ} (hs : flag s = false) : ∀ (n b : ℕ),
    (∀ i, b ≤ i → i < b + n → ¬p i) →
    (List.range' b n).foldl (flagStep p stop last flag rise fall) s = s
  | 0, _, _ => rfl
  | n + 1, b, h => by
    have hb : flagStep p stop last flag rise fall s b = s := by
      simp [flagStep, h b (by omega) (by omega), hs]
    rw [List.range'_succ, List.foldl_cons, hb]
    exact foldl_flagStep_outside hs n (b + 1) fun i hi hn => h i (by omega) (by omega)

/-- Inside a run the body does nothing. -/
theorem foldl_flagStep_inside {s : σ} (hs : flag s = true) : ∀ (n b : ℕ),
    (∀ i, b ≤ i → i < b + n → p i ∧ ¬stop i ∧ i ≠ last) →
    (List.range' b n).foldl (flagStep p stop last flag rise fall) s = s
  | 0, _, _ => rfl
  | n + 1, b, h => by
    have hb : flagStep p stop last flag rise fall s b = s := by
      obtain ⟨hp, hst, hl⟩ := h b (by omega) (by omega)
      simp [flagStep, hp, hst, hl, hs]
    rw [List.range'_succ, List.foldl_cons, hb]
    exact foldl_flagStep_inside hs n (b + 1) fun i hi hn => h i (by omega) (by omega)

/-- The actions of a loop with a flag at a run. -/
def onFlags (last : ℕ) (rise fall : ℕ → σ → σ) (s : σ) (r : Run) : σ :=
  fall (min r.finish last) (rise r.start s)

/-- A loop with a flag visits the runs from left to right. -/
theorem foldl_flagStep (hstop : ∀ i, stop i ↔ ¬p i) (hrise : ∀ i s, flag (rise i s) = true)
    (hfall : ∀ i s, flag (fall i s) = false) {N : ℕ} :
    ∀ (rs : List Run) (a : ℕ) (s : σ), IsRuns p a N rs → flag s = false →
      (List.range' a (N - a)).foldl (flagStep p stop (N - 1) flag rise fall) s =
        rs.foldl (onFlags (N - 1) rise fall) s
  | [], a, s, h, hs => by
    have hnone := isRuns_nil_iff.mp h
    exact foldl_flagStep_outside hs _ _ fun i hi hiN => hnone i hi (by omega)
  | r :: rs, a, s, h, hs => by
    have hb := h.bounds r List.mem_cons_self
    have hlt := r.lt
    -- The loop waits for the run without the flag.
    have hpre : (List.range' a (r.start - a)).foldl (flagStep p stop (N - 1) flag rise fall) s =
        s :=
      foldl_flagStep_outside hs _ _ fun i hi hir => h.before hi (by omega)
    have hp : p r.start := h.inside ⟨le_refl _, hlt⟩
    rw [range'_split hb.1 (by omega), List.foldl_append, hpre, range'_cons_of_lt (by omega),
      List.foldl_cons, List.foldl_cons]
    by_cases hone : r.start = N - 1
    · -- The run is the last position: it starts and ends in one step.
      have hrs : rs = [] := h.tail.eq_nil_of_le (by omega)
      have hp' : p (N - 1) := hone ▸ hp
      have hstep : flagStep p stop (N - 1) flag rise fall s r.start =
          onFlags (N - 1) rise fall s r := by
        rw [onFlags, show min r.finish (N - 1) = r.start by omega]
        simp [flagStep, hp', hs, hone, hrise]
      rw [hstep, hrs, show N - (r.start + 1) = 0 by omega]
      rfl
    · -- The run has a start of its own, and goes on to where the loop sees its end.
      have hstart : flagStep p stop (N - 1) flag rise fall s r.start = rise r.start s := by
        simp [flagStep, hp, hs, hone, hstop]
      have hin : (List.range' (r.start + 1) (min r.finish (N - 1) - (r.start + 1))).foldl
          (flagStep p stop (N - 1) flag rise fall) (rise r.start s) = rise r.start s :=
        foldl_flagStep_inside (hrise _ _) _ _ fun i hi hir =>
          have hpi : p i := h.inside ⟨by omega, by omega⟩
          ⟨hpi, fun hi => (hstop i).mp hi hpi, by omega⟩
      have hend : flagStep p stop (N - 1) flag rise fall (rise r.start s) (min r.finish (N - 1)) =
          onFlags (N - 1) rise fall s r := by
        have hlast : stop (min r.finish (N - 1)) ∨ min r.finish (N - 1) = N - 1 := by
          rcases Nat.lt_or_ge r.finish N with hf | hf
          · rw [show min r.finish (N - 1) = r.finish by omega]
            exact Or.inl ((hstop _).mpr (h.not_finish hf))
          · exact Or.inr (by omega)
        simp only [flagStep, hrise, reduceCtorEq, and_false, if_false, hlast, true_and, if_true,
          onFlags]
      rw [hstart, range'_split (show r.start + 1 ≤ min r.finish (N - 1) by omega) (by omega),
        List.foldl_append, hin, range'_cons_of_lt (show min r.finish (N - 1) < N by omega),
        List.foldl_cons, hend]
      -- A run that reaches the last position is the last one.
      rcases Nat.lt_or_ge r.finish N with hf | hf
      · rw [show min r.finish (N - 1) + 1 = r.finish + 1 by omega]
        exact foldl_flagStep hstop hrise hfall rs _ _ h.tail (hfall _ _)
      · have hrs : rs = [] := h.tail.eq_nil_of_le (by omega)
        rw [hrs, show N - (min r.finish (N - 1) + 1) = 0 by omega]
        rfl

end Scan

end Runs
