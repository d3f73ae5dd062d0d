import Mathlib.Data.Int.Range
import TgVoipRate.Lib.Loop

/-!
# Accesses of arrays

What a piece of code does with its arrays, as far as bounds are concerned: the list of the entries
that it reads or writes (`Trace`). Pieces are put together from single accesses, sequences,
conditions (`when`) and counting loops (`forRange`), and each of them is in bounds exactly if its
parts are. So the bounds of a trace reduce to one inequality for each access.

A loop with a state is in bounds if its rounds are, in the states that an invariant allows
(`inBounds_loopTrace`). The same holds for items that share such a loop (`inBounds_fillTrace`).
-/

namespace Accesses

open Loops (Loop Shared)

/-- The entries that are accessed, each with its array. -/
abbrev Trace (A : Type*) := List (A × ℤ)

variable {A : Type*}

/-- Every access is inside its array. -/
def InBounds (length : A → ℤ) (trace : Trace A) : Prop :=
  ∀ access ∈ trace, 0 ≤ access.2 ∧ access.2 < length access.1

/-- Accesses under a condition. -/
def when (c : Prop) [Decidable c] (trace : Trace A) : Trace A := if c then trace else []

/-- The accesses of a loop that counts up. -/
def forRange (start stop : ℤ) (body : ℤ → Trace A) : Trace A := (Int.range start stop).flatMap body

variable {length : A → ℤ}

@[simp] theorem inBounds_nil : InBounds length [] := fun _ h => absurd h List.not_mem_nil

@[simp] theorem inBounds_cons {array : A} {index : ℤ} {trace : Trace A} :
    InBounds length ((array, index) :: trace) ↔
      (0 ≤ index ∧ index < length array) ∧ InBounds length trace := by
  rw [InBounds, List.forall_mem_cons]
  rfl

@[simp] theorem inBounds_append {trace trace' : Trace A} :
    InBounds length (trace ++ trace') ↔ InBounds length trace ∧ InBounds length trace' :=
  List.forall_mem_append

@[simp] theorem inBounds_when {c : Prop} [Decidable c] {trace : Trace A} :
    InBounds length (when c trace) ↔ (c → InBounds length trace) := by
  by_cases h : c <;> simp [when, h]

@[simp] theorem inBounds_forRange {start stop : ℤ} {body : ℤ → Trace A} :
    InBounds length (forRange start stop body) ↔
      ∀ i, start ≤ i → i < stop → InBounds length (body i) := by
  constructor
  · intro h i hstart hstop access haccess
    exact h access (List.mem_flatMap.mpr ⟨i, Int.mem_range_iff.mpr ⟨hstart, hstop⟩, haccess⟩)
  · intro h access haccess
    obtain ⟨i, hi, hbody⟩ := List.mem_flatMap.mp haccess
    obtain ⟨hstart, hstop⟩ := Int.mem_range_iff.mp hi
    exact h i hstart hstop access hbody

/-! ## Loops with a state -/

section Loop

variable {σ : Type*} (loop : Loop σ) (body : σ → Trace A)

/-- The accesses of a loop, round by round. -/
def loopTrace (s : σ) : Trace A := if loop.guard s then body s ++ loopTrace (loop.body s) else []
termination_by loop.variant s
decreasing_by exact loop.decreases s ‹_›

variable {loop body}

/-- A loop is in bounds if each round is, in the states of an invariant. -/
theorem inBounds_loopTrace {I : σ → Prop} (round : ∀ s, loop.guard s → I s → I (loop.body s))
    (h : ∀ s, loop.guard s → I s → InBounds length (body s)) {s : σ} (hs : I s) :
    InBounds length (loopTrace loop body s) := by
  induction s using loopTrace.induct loop with
  | case1 s hguard ih =>
    rw [loopTrace, if_pos hguard, inBounds_append]
    exact ⟨h s hguard hs, ih (round s hguard hs)⟩
  | case2 s hguard =>
    rw [loopTrace, if_neg hguard]
    exact inBounds_nil

end Loop

/-! ## Items that share a loop -/

section Shared

variable {ι κ σ ρ : Type*} [DecidableEq ι] [DecidableEq κ] (scan : Shared ι κ σ ρ)
  (before : Trace A) (body : σ → Trace A) (after : Trace A)

/-- The accesses of the visits to some items. -/
def visitsTrace (k : κ) : List ι → σ × (ι → ρ) → Trace A
  | [], _ => []
  | i :: later, st =>
    when (scan.key i = k ∧ scan.isOpen (st.2 i)) (loopTrace (scan.loop i) body st.1 ++ after) ++
      visitsTrace k later (scan.visit k st i)

/-- The accesses of a round: before it, in each loop, and after each loop. -/
def roundTrace (table : ι → ρ) : Trace A :=
  match scan.firstOpen table scan.order with
  | none => []
  | some (i, later) =>
    let s := (scan.loop i).run (scan.start (scan.key i))
    let table := Function.update table i (scan.result (scan.key i) s)
    before ++ loopTrace (scan.loop i) body (scan.start (scan.key i)) ++ after ++
      visitsTrace scan body after (scan.key i) later (s, table)

/-- The accesses until the table is filled. -/
def fillTrace (table : ι → ρ) : Trace A :=
  loopTrace scan.fill (roundTrace scan before body after) table

variable {scan before body after}

/-- The visits are in bounds if the rounds of all loops are. -/
theorem inBounds_visitsTrace {I : σ → Prop} {k : κ} {items : List ι}
    (round : ∀ i ∈ items, ∀ s, (scan.loop i).guard s → I s → I ((scan.loop i).body s))
    (hbody : ∀ i ∈ items, ∀ s, (scan.loop i).guard s → I s → InBounds length (body s))
    (hafter : InBounds length after) {st : σ × (ι → ρ)} (hs : I st.1) :
    InBounds length (visitsTrace scan body after k items st) := by
  induction items generalizing st with
  | nil => exact inBounds_nil
  | cons i later ih =>
    have hi := List.mem_cons_self (a := i) (l := later)
    unfold visitsTrace
    rw [inBounds_append, inBounds_when, inBounds_append]
    refine ⟨fun _ => ⟨inBounds_loopTrace (round i hi) (hbody i hi) hs, hafter⟩, ?_⟩
    apply ih (fun j hj => round j (List.mem_cons_of_mem i hj))
      (fun j hj => hbody j (List.mem_cons_of_mem i hj))
    unfold Shared.visit
    split
    · exact (scan.loop i).run_invariant (round i hi) hs
    · exact hs

/-- All rounds are in bounds if those of all loops are, from an invariant of their starts on. -/
theorem inBounds_fillTrace {I : σ → Prop} (start : ∀ i ∈ scan.order, I (scan.start (scan.key i)))
    (round : ∀ i ∈ scan.order, ∀ s, (scan.loop i).guard s → I s → I ((scan.loop i).body s))
    (hbefore : InBounds length before)
    (hbody : ∀ i ∈ scan.order, ∀ s, (scan.loop i).guard s → I s → InBounds length (body s))
    (hafter : InBounds length after) (table : ι → ρ) :
    InBounds length (fillTrace scan before body after table) := by
  refine inBounds_loopTrace (I := fun _ => True) (fun _ _ _ => trivial) (fun table _ _ => ?_)
    trivial
  unfold roundTrace
  split
  · exact inBounds_nil
  · rename_i i later hfirst
    obtain ⟨-, front, horder⟩ := Shared.firstOpen_eq_some hfirst
    have hi : i ∈ scan.order := horder ▸ List.mem_append_right front List.mem_cons_self
    have hlater : ∀ j ∈ later, j ∈ scan.order := fun j hj =>
      horder ▸ List.mem_append_right front (List.mem_cons_of_mem i hj)
    have hstart := start i hi
    simp only [inBounds_append]
    exact ⟨⟨⟨hbefore, inBounds_loopTrace (round i hi) (hbody i hi) hstart⟩, hafter⟩,
      inBounds_visitsTrace (fun j hj => round j (hlater j hj)) (fun j hj => hbody j (hlater j hj))
        hafter ((scan.loop i).run_invariant (round i hi) hstart)⟩

end Shared

end Accesses
