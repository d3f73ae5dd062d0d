import Mathlib.Data.List.Nodup
import Mathlib.Logic.Function.Basic

/-!
# Stages that process a signal

A stage takes a state and a list of samples to a list of samples and the next state, as a digital
filter does. A signal may come in blocks: a stage is `Blockwise` if it does not matter where it is
cut as long as the state is carried on. This holds for a stage that makes one round for each sample
(`blockwise_run`), for one that keeps no state (`blockwise_map`), and for several stages in a row,
each with a state of its own, when each of them is blockwise (`blockwise_cascade`).
-/

namespace Stages

variable {ι σ α β : Type*}

/-- What processes samples, with a state. -/
abbrev SignalStage (σ α β : Type*) := σ → List α → List β × σ

/-- It does not matter where the samples are cut. -/
def Blockwise (stage : SignalStage σ α β) : Prop :=
  ∀ s xs ys, stage s (xs ++ ys) =
    ((stage s xs).1 ++ (stage (stage s xs).2 ys).1, (stage (stage s xs).2 ys).2)

/-! ## One stage -/

/-- The stage that makes a round for each sample. -/
def run (round : σ → α → β × σ) : SignalStage σ α β
  | s, [] => ([], s)
  | s, x :: xs =>
    let now := round s x
    let later := run round now.2 xs
    (now.1 :: later.1, later.2)

section Run

variable (round : σ → α → β × σ) (s : σ)

@[simp] theorem run_nil : run round s [] = ([], s) := rfl

@[simp] theorem run_cons (x : α) (xs : List α) :
    run round s (x :: xs) =
      ((round s x).1 :: (run round (round s x).2 xs).1, (run round (round s x).2 xs).2) := rfl

/-- Rounds may be interrupted. -/
theorem blockwise_run : Blockwise (run round) := by
  intro s xs ys
  induction xs generalizing s with
  | nil => simp
  | cons x xs ih => rw [List.cons_append, run_cons, ih, run_cons, List.cons_append]

variable {round}

/-- Rounds whose outputs do not depend on the state. -/
theorem run_fst_of_stateless {f : α → β} (h : ∀ s x, (round s x).1 = f x) (xs : List α) :
    (run round s xs).1 = xs.map f := by
  induction xs generalizing s with
  | nil => simp
  | cons x xs ih => rw [run_cons, List.map_cons, h, ih]

end Run

/-- A stage that keeps its state, and takes every sample by itself. -/
theorem blockwise_map (f : α → β) : Blockwise fun (s : σ) xs => (xs.map f, s) := fun s _ _ =>
  congrArg (·, s) List.map_append

/-! ## Stages in a row -/

section Cascade

variable [DecidableEq ι] (stage : ι → SignalStage σ α α)

/-- Some stages, one after the other, each on all samples. -/
def cascade : List ι → SignalStage (ι → σ) α α
  | [], z, xs => (xs, z)
  | i :: order, z, xs =>
    cascade order (Function.update z i (stage i (z i) xs).2) (stage i (z i) xs).1

/-- The state of another stage is neither used nor changed. -/
theorem cascade_update {order : List ι} {i : ι} (hi : i ∉ order) (z : ι → σ) (s : σ)
    (xs : List α) :
    cascade stage order (Function.update z i s) xs =
      ((cascade stage order z xs).1, Function.update (cascade stage order z xs).2 i s) := by
  induction order generalizing z xs with
  | nil => rfl
  | cons j order ih =>
    obtain ⟨hne, hi⟩ := List.ne_and_not_mem_of_not_mem_cons hi
    unfold cascade
    rw [Function.update_of_ne hne.symm, Function.update_comm hne, ih hi]

/-- The first stage, and the others, which do not touch its state. -/
theorem cascade_cons {order : List ι} {i : ι} (hi : i ∉ order) (z : ι → σ) (xs : List α) :
    cascade stage (i :: order) z xs =
      ((cascade stage order z (stage i (z i) xs).1).1,
        Function.update (cascade stage order z (stage i (z i) xs).1).2 i (stage i (z i) xs).2) :=
  cascade_update stage hi z _ _

variable {stage}

/-- Stages in a row are blockwise if each of them is. -/
theorem blockwise_cascade (h : ∀ i, Blockwise (stage i)) {order : List ι} (hnodup : order.Nodup) :
    Blockwise (cascade stage order) := by
  induction order with
  | nil => exact fun _ _ _ => rfl
  | cons i order ih =>
    obtain ⟨hi, hnodup⟩ := List.nodup_cons.mp hnodup
    intro z xs ys
    have hothers := ih hnodup z (stage i (z i) xs).1 (stage i (stage i (z i) xs).2 ys).1
    rw [cascade_cons stage hi z (xs ++ ys), h i (z i) xs ys, hothers]
    -- The others do not see whether this stage has been given its second block yet.
    rw [cascade_cons stage hi z xs, cascade_cons stage hi _ ys]
    dsimp only
    rw [Function.update_self, cascade_update stage hi, Function.update_idem]

end Cascade

end Stages
