import Mathlib.Data.List.Basic
import Mathlib.Logic.Function.Iterate

/-!
# Loops that end, and items that share a loop

A loop (`Loop`) carries the reason why it ends: a variant that its body decreases. Besides the rules
for one loop there is one for two loops with the same body: a run with a stronger guard may be
continued with a weaker one, and gives what the weaker one alone gives (`Loop.run_resume`).

The second part uses this for the evaluation of many items that each have a loop of their own
(`Shared`). Items with the same key start alike, so they share one run, which goes from item to item
as long as the guards get weaker. Every item gets what its own loop computes (`Shared.run_eq`).
-/

namespace Loops

variable {ι κ σ τ ρ : Type*}

/-! ## Loops -/

/-- A loop, and a variant that shows that it ends. -/
structure Loop (σ : Type*) where
  /-- The loop goes on. -/
  guard : σ → Prop
  /-- The guard can be evaluated. -/
  [decGuard : DecidablePred guard]
  /-- One round. -/
  body : σ → σ
  /-- What gets smaller in every round. -/
  variant : σ → ℕ
  /-- A round makes the variant smaller. -/
  decreases : ∀ s, guard s → variant (body s) < variant s

attribute [instance] Loop.decGuard

/-- The state in which the loop ends. -/
def Loop.run (loop : Loop σ) (s : σ) : σ :=
  if loop.guard s then loop.run (loop.body s) else s
termination_by loop.variant s
decreasing_by exact loop.decreases s ‹_›

/-- The loop takes a state to another one in a number of rounds, and ends there. -/
structure Loop.Ends (loop : Loop σ) (s s' : σ) (n : ℕ) : Prop where
  /-- The state after the rounds. -/
  iterate : loop.body^[n] s = s'
  /-- Before each round the guard holds. -/
  guard : ∀ k < n, loop.guard (loop.body^[k] s)
  /-- After the last one it does not. -/
  not_guard : ¬loop.guard s'

section Rules

variable (loop : Loop σ) {s : σ}

/-- A loop whose guard holds makes a round. -/
theorem Loop.run_of_guard (h : loop.guard s) : loop.run s = loop.run (loop.body s) := by
  rw [Loop.run, if_pos h]

/-- A loop whose guard fails is over. -/
theorem Loop.run_of_not_guard (h : ¬loop.guard s) : loop.run s = s := by
  rw [Loop.run, if_neg h]

/-- What holds at the end of a loop: it is kept from the last state backwards to the first. -/
theorem Loop.run_induction {P : σ → σ → Prop} (done : ∀ s, ¬loop.guard s → P s s)
    (round : ∀ s s', loop.guard s → P (loop.body s) s' → P s s') (s : σ) : P s (loop.run s) := by
  by_cases h : loop.guard s
  · rw [loop.run_of_guard h]
    exact round s _ h (Loop.run_induction done round (loop.body s))
  · rw [loop.run_of_not_guard h]
    exact done s h
termination_by loop.variant s
decreasing_by exact loop.decreases s h

/-- After a loop its guard fails. -/
theorem Loop.not_guard_run (s : σ) : ¬loop.guard (loop.run s) :=
  loop.run_induction (P := fun _ s' => ¬loop.guard s') (fun _ h => h) (fun _ _ _ h => h) s

/-- An invariant of the rounds holds after the loop. -/
theorem Loop.run_invariant {I : σ → Prop} (round : ∀ s, loop.guard s → I s → I (loop.body s))
    (h : I s) : I (loop.run s) :=
  loop.run_induction (P := fun s s' => I s → I s') (fun _ _ h => h)
    (fun s _ hguard ih h => ih (round s hguard h)) s h

/-- A loop ends after at most as many rounds as the variant says. -/
theorem Loop.run_ends (s : σ) : ∃ n ≤ loop.variant s, loop.Ends s (loop.run s) n := by
  refine loop.run_induction (P := fun s s' => ∃ n ≤ loop.variant s, loop.Ends s s' n)
    (fun s h => ⟨0, Nat.zero_le _, rfl, fun k hk => absurd hk (Nat.not_lt_zero k), h⟩) ?_ s
  rintro s s' hguard ⟨n, hn, hends⟩
  have hlt := loop.decreases s hguard
  refine ⟨n + 1, by omega, hends.iterate, fun k hk => ?_, hends.not_guard⟩
  cases k with
  | zero => exact hguard
  | succ k => exact hends.guard k (by omega)

variable {loop} {s' : σ} {n : ℕ}

/-- An invariant of the rounds holds before and after each of them. -/
theorem Loop.Ends.invariant {I : σ → Prop} (h : loop.Ends s s' n)
    (round : ∀ s, loop.guard s → I s → I (loop.body s)) (hs : I s) :
    ∀ k ≤ n, I (loop.body^[k] s) := by
  intro k
  induction k with
  | zero => exact fun _ => hs
  | succ k ih =>
    intro hk
    rw [Function.iterate_succ_apply']
    exact round _ (h.guard k (by omega)) (ih (by omega))

/-- Two loops that go on together, and whose rounds keep a relation of their states, keep it. -/
theorem Loop.run_related {loop : Loop σ} {loop' : Loop τ} {R : σ → τ → Prop}
    (guard : ∀ s t, R s t → (loop.guard s ↔ loop'.guard t))
    (body : ∀ s t, R s t → loop.guard s → R (loop.body s) (loop'.body t)) (s : σ) {t : τ}
    (h : R s t) : R (loop.run s) (loop'.run t) := by
  refine loop.run_induction (P := fun s s' => ∀ t, R s t → R s' (loop'.run t)) ?_ ?_ s t h
  · intro s hs t h
    rwa [loop'.run_of_not_guard (mt (guard s t h).mpr hs)]
  · intro s s' hs ih t h
    rw [loop'.run_of_guard ((guard s t h).mp hs)]
    exact ih _ (body s t h hs)

end Rules

/-- A loop goes on wherever another one with the same body does. -/
structure Loop.Extends (longer loop : Loop σ) : Prop where
  /-- The rounds are the same. -/
  body_eq : longer.body = loop.body
  /-- The guard is weaker. -/
  guard : ∀ s, loop.guard s → longer.guard s

/-- A run may be continued by a loop that goes on for longer. -/
theorem Loop.run_resume {longer loop : Loop σ} (h : longer.Extends loop) (s : σ) :
    longer.run (loop.run s) = longer.run s := by
  refine loop.run_induction (P := fun s s' => longer.run s' = longer.run s) (fun _ _ => rfl) ?_ s
  intro s s' hguard ih
  calc longer.run s' = longer.run (loop.body s) := ih
    _ = longer.run (longer.body s) := by rw [h.body_eq]
    _ = longer.run s := (longer.run_of_guard (h.guard s hguard)).symm

/-! ## Items that share a loop -/

/-- Items, each with a loop, whose results are filled into a table. -/
structure Shared (ι κ σ ρ : Type*) where
  /-- The items, in the order in which they are visited. -/
  order : List ι
  /-- Items with the same key start alike. -/
  key : ι → κ
  /-- Where the loop of an item starts. -/
  start : κ → σ
  /-- The loop of an item. -/
  loop : ι → Loop σ
  /-- What an item gets. -/
  result : κ → σ → ρ
  /-- The item still waits for its result. -/
  isOpen : ρ → Prop
  /-- This can be evaluated. -/
  [decOpen : DecidablePred isOpen]
  /-- An item that has got its result does not wait. -/
  closed : ∀ k s, ¬isOpen (result k s)

attribute [instance] Shared.decOpen

namespace Shared

variable (scan : Shared ι κ σ ρ)

/-- What an item gets from its own loop. -/
def alone (i : ι) : ρ := scan.result (scan.key i) ((scan.loop i).run (scan.start (scan.key i)))

/-- The first open item, and the items behind it. -/
def firstOpen (table : ι → ρ) : List ι → Option (ι × List ι)
  | [] => none
  | i :: later => if scan.isOpen (table i) then some (i, later) else firstOpen table later

variable {scan}

/-- Nothing is open. -/
theorem firstOpen_eq_none_iff {table : ι → ρ} {items : List ι} :
    scan.firstOpen table items = none ↔ ∀ i ∈ items, ¬scan.isOpen (table i) := by
  induction items with
  | nil => simp [firstOpen]
  | cons i later ih =>
    unfold firstOpen
    by_cases h : scan.isOpen (table i)
    · simp [h]
    · simp [h, ih]

/-- The first open item, with what is before and behind it. -/
theorem firstOpen_eq_some {table : ι → ρ} {items later : List ι} {i : ι}
    (h : scan.firstOpen table items = some (i, later)) :
    scan.isOpen (table i) ∧ ∃ before, items = before ++ i :: later := by
  induction items with
  | nil => cases h
  | cons j rest ih =>
    unfold firstOpen at h
    by_cases hopen : scan.isOpen (table j)
    · rw [if_pos hopen] at h
      cases h
      exact ⟨hopen, [], rfl⟩
    · rw [if_neg hopen] at h
      obtain ⟨hi, before, hsplit⟩ := ih h
      exact ⟨hi, j :: before, by rw [hsplit, List.cons_append]⟩

variable [DecidableEq ι] [DecidableEq κ] (scan)

/-- Continues the run for an item, if it is open and has the key. -/
def visit (k : κ) (st : σ × (ι → ρ)) (i : ι) : σ × (ι → ρ) :=
  if scan.key i = k ∧ scan.isOpen (st.2 i) then
    let s := (scan.loop i).run st.1
    (s, Function.update st.2 i (scan.result k s))
  else st

/-- One round: a run for the first open item, and for those behind it with the same key. -/
def round (table : ι → ρ) : ι → ρ :=
  match scan.firstOpen table scan.order with
  | none => table
  | some (i, later) =>
    let s := (scan.loop i).run (scan.start (scan.key i))
    let table := Function.update table i (scan.result (scan.key i) s)
    (later.foldl (scan.visit (scan.key i)) (s, table)).2

variable {scan}

/-- A visit opens no item. -/
theorem foldl_visit_isOpen {k : κ} {j : ι} : ∀ (items : List ι) (st : σ × (ι → ρ)),
    scan.isOpen ((items.foldl (scan.visit k) st).2 j) → scan.isOpen (st.2 j) := by
  intro items
  induction items with
  | nil => exact fun _ h => h
  | cons i items ih =>
    intro st h
    have hvisited := ih _ h
    unfold visit at hvisited
    split at hvisited
    · rename_i hi
      by_cases hj : j = i
      · exact hj ▸ hi.2
      · dsimp only at hvisited
        rwa [Function.update_of_ne hj] at hvisited
    · exact hvisited

/-- A round closes the first open item, and opens none. -/
theorem round_isOpen {table : ι → ρ} {later : List ι} {i j : ι}
    (h : scan.firstOpen table scan.order = some (i, later))
    (hj : scan.isOpen (scan.round table j)) :
    j ≠ i ∧ scan.isOpen (table j) := by
  unfold round at hj
  rw [h] at hj
  have hopen := foldl_visit_isOpen later _ hj
  dsimp only at hopen
  by_cases hji : j = i
  · subst hji
    rw [Function.update_self] at hopen
    exact absurd hopen (scan.closed _ _)
  · rw [Function.update_of_ne hji] at hopen
    exact ⟨hji, hopen⟩

variable (scan) in
/-- The loop that fills the table: it ends, because every round closes an item. -/
def fill : Loop (ι → ρ) where
  guard table := (scan.firstOpen table scan.order).isSome
  body := scan.round
  variant table := scan.order.countP fun i => scan.isOpen (table i)
  decreases table hguard := by
    obtain ⟨⟨i, later⟩, hfirst⟩ := Option.isSome_iff_exists.mp hguard
    obtain ⟨hi, before, horder⟩ := firstOpen_eq_some hfirst
    have hmono : ∀ items : List ι, (items.countP fun j => scan.isOpen (scan.round table j)) ≤
        items.countP fun j => scan.isOpen (table j) := fun items =>
      List.countP_mono_left fun j _ hj => by
        simpa using (round_isOpen hfirst (of_decide_eq_true hj)).2
    have hclosed : ¬scan.isOpen (scan.round table i) := fun h => (round_isOpen hfirst h).1 rfl
    have hbefore := hmono before
    have hlater := hmono later
    -- The item itself no longer counts, and the others count at most as before.
    simp only [horder, List.countP_append, List.countP_cons, hi, hclosed, decide_true, decide_false,
      if_true, Bool.false_eq_true, if_false]
    omega

variable (scan) in
/-- The table is filled after at most as many rounds as there are items. -/
theorem fill_ends (table : ι → ρ) {N : ℕ} (hN : scan.order.length = N) :
    ∃ n ≤ N, scan.fill.Ends table (scan.fill.run table) n := by
  obtain ⟨n, hn, hends⟩ := scan.fill.run_ends table
  refine ⟨n, ?_, hends⟩
  calc n ≤ scan.order.countP _ := hn
    _ ≤ scan.order.length := List.countP_le_length
    _ = N := hN

/-! ## Every item gets what it would get alone -/

/-- Along the order the loops of items with the same key go on for longer and longer. -/
def Grows (scan : Shared ι κ σ ρ) : Prop :=
  scan.order.Pairwise fun i j => scan.key i = scan.key j → (scan.loop j).Extends (scan.loop i)

/-- An entry is as it was, or it was open and is what the item gets alone. -/
def FilledFrom (scan : Shared ι κ σ ρ) (table table' : ι → ρ) : Prop :=
  ∀ i, table' i = table i ∨ scan.isOpen (table i) ∧ table' i = scan.alone i

/-- The run that has come to an item goes on for the items behind it. -/
theorem foldl_visit_filledFrom {k : κ} {table₀ : ι → ρ} : ∀ (later : List ι) (i : ι)
    (st : σ × (ι → ρ)), ((i :: later).Pairwise fun i j => scan.key i = scan.key j →
        (scan.loop j).Extends (scan.loop i)) →
      scan.key i = k → st.1 = (scan.loop i).run (scan.start k) → scan.FilledFrom table₀ st.2 →
      scan.FilledFrom table₀ (later.foldl (scan.visit k) st).2 := by
  -- Induction on the items behind `i`, where `i` is the last item that the run was made for.
  intro later
  induction later with
  | nil => exact fun _ _ _ _ _ h => h
  | cons j later ih =>
    intro i st hgrows hi hst hfilled
    obtain ⟨hfrom, hgrows'⟩ := List.pairwise_cons.mp hgrows
    rw [List.foldl_cons]
    by_cases hj : scan.key j = k ∧ scan.isOpen (st.2 j)
    · -- The run is continued to the item.
      have hrun : (scan.loop j).run st.1 = (scan.loop j).run (scan.start k) := by
        rw [hst]
        exact Loop.run_resume (hfrom j List.mem_cons_self (hi.trans hj.1.symm)) _
      have hopen : scan.isOpen (table₀ j) := by
        rcases hfilled j with h | h
        · exact h ▸ hj.2
        · exact h.1
      refine ih j _ hgrows' hj.1 ?_ ?_
      · unfold visit
        rw [if_pos hj]
        exact hrun
      · intro l
        unfold visit
        rw [if_pos hj]
        by_cases hl : l = j
        · subst hl
          right
          refine ⟨hopen, ?_⟩
          dsimp only
          rw [Function.update_self, hrun, ← hj.1]
          rfl
        · dsimp only
          rw [Function.update_of_ne hl]
          exact hfilled l
    · -- The item is passed over, and the run still stands where `i` left it.
      have hsame : scan.visit k st j = st := if_neg hj
      rw [hsame]
      refine ih i st ?_ hi hst hfilled
      refine List.pairwise_cons.mpr ⟨fun l hl => hfrom l (List.mem_cons_of_mem _ hl), ?_⟩
      exact (List.pairwise_cons.mp hgrows').2

/-- A round fills entries with what their items get alone. -/
theorem round_filledFrom (hgrows : scan.Grows) {table₀ table : ι → ρ}
    (h : scan.FilledFrom table₀ table) : scan.FilledFrom table₀ (scan.round table) := by
  unfold round
  split
  · exact h
  · rename_i i later hfirst
    obtain ⟨hi, before, horder⟩ := firstOpen_eq_some hfirst
    unfold Grows at hgrows
    rw [horder] at hgrows
    refine foldl_visit_filledFrom later i _ (List.pairwise_append.mp hgrows).2.1 rfl rfl
      fun j => ?_
    dsimp only
    by_cases hj : j = i
    · subst hj
      rw [Function.update_self]
      rcases h j with hsame | hwas
      · exact Or.inr ⟨hsame ▸ hi, rfl⟩
      · exact Or.inr ⟨hwas.1, rfl⟩
    · rw [Function.update_of_ne hj]
      exact h j

/-- The table in the end: what was open has what its item gets alone, the rest is as it was. -/
theorem fill_run_eq (hgrows : scan.Grows) (table : ι → ρ) {i : ι} (hi : i ∈ scan.order) :
    scan.fill.run table i = if scan.isOpen (table i) then scan.alone i else table i := by
  have hfilled : scan.FilledFrom table (scan.fill.run table) :=
    scan.fill.run_invariant (I := scan.FilledFrom table)
      (fun _ _ h => round_filledFrom hgrows h) fun _ => Or.inl rfl
  have hclosed : ¬scan.isOpen (scan.fill.run table i) := by
    have hnone := scan.fill.not_guard_run table
    exact firstOpen_eq_none_iff.mp (Option.not_isSome_iff_eq_none.mp hnone) i hi
  -- An entry that was not filled is as it was, so it was not open.
  rcases hfilled i with h | ⟨hopen, h⟩
  · rw [h] at hclosed ⊢
    rw [if_neg hclosed]
  · rw [h, if_pos hopen]

end Shared

end Loops
