import Mathlib.Algebra.Order.Ring.Rat
import Mathlib.Tactic.Ring
import TgVoipRate.Dsp.Iir

/-!
# The loops of `IIRsos` compute one recurrence

The rounds of all loops are those of the general recurrence (`generalRound`), with the terms that
are zero left out; only the loop for a section without delays does not keep the delay line
(`sosLoops_eq`). No section that leaves it alone looks at it either, so a signal may be filtered in
blocks, by a section (`blockwise_sosLoops`) and by a number of sections (`IIRFilt_blocks`).
-/

namespace TgVoipRate.Dsp

open Stages (SignalStage run run_fst_of_stateless Blockwise blockwise_run blockwise_map cascade
  blockwise_cascade)

variable {𝕜 : Type*} [CommRing 𝕜]

/-! ## The general recurrence -/

/-- The recurrence of a section: `z0 = x - a1*z1 - a2*z2` and `y = b0*z0 + b1*z1 + b2*z2`. -/
def generalRound (c : Sos 𝕜) (z : Delays 𝕜) (x : 𝕜) : 𝕜 × Delays 𝕜 :=
  let z0 := x - c.a1 * z.z1 - c.a2 * z.z2
  (c.b0 * z0 + c.b1 * z.z1 + c.b2 * z.z2, { z1 := z0, z2 := z.z1 })

/-- The section as its recurrence. -/
def general (c : Sos 𝕜) : SignalStage (Delays 𝕜) 𝕜 𝕜 := run (generalRound c)

/-- A section of which only `b0` is not zero. -/
def Sos.IsGain (c : Sos 𝕜) : Prop := (c.a1 = 0 ∧ c.a2 = 0) ∧ c.b1 = 0 ∧ c.b2 = 0

/-- Without `b1` and `b2` the last two products are zero. -/
theorem polesRound_eq {c : Sos 𝕜} (h1 : c.b1 = 0) (h2 : c.b2 = 0) :
    polesRound c = generalRound c := by
  funext z x
  unfold polesRound generalRound Delays.shift
  rw [h1, h2]
  simp

/-- If `b0` is one besides, the output is the new value of the delay line. -/
theorem unitPolesRound_eq {c : Sos 𝕜} (h0 : c.b0 = 1) (h1 : c.b1 = 0) (h2 : c.b2 = 0) :
    unitPolesRound c = generalRound c := by
  rw [← polesRound_eq h1 h2]
  funext z x
  unfold unitPolesRound polesRound
  rw [h0]
  simp

/-- Without `a1` and `a2` the new value of the delay line is the input. -/
theorem zerosRound_eq {c : Sos 𝕜} (h1 : c.a1 = 0) (h2 : c.a2 = 0) :
    zerosRound c = generalRound c := by
  funext z x
  unfold zerosRound generalRound Delays.shift
  rw [h1, h2]
  simp

/-- The outputs of a gain do not depend on the delay line. -/
theorem Sos.IsGain.general_fst {c : Sos 𝕜} (h : c.IsGain) (z : Delays 𝕜) (x : List 𝕜) :
    (general c z x).1 = x.map fun x => c.b0 * x := by
  obtain ⟨⟨ha1, ha2⟩, hb1, hb2⟩ := h
  refine run_fst_of_stateless z (fun z x => ?_) x
  unfold generalRound
  rw [ha1, ha2, hb1, hb2]
  simp

/-! ## The loops -/

variable [DecidableEq 𝕜]

instance (c : Sos 𝕜) : Decidable c.IsGain := inferInstanceAs (Decidable (_ ∧ _))

/-- A gain has no loop with a delay line. -/
theorem Sos.IsGain.sosLoops_eq {c : Sos 𝕜} (h : c.IsGain) (z : Delays 𝕜) (x : List 𝕜) :
    sosLoops c z x = (x.map fun x => c.b0 * x, z) := by
  obtain ⟨⟨ha1, ha2⟩, hb1, hb2⟩ := h
  unfold sosLoops
  rw [if_neg (by simp [ha1, ha2]), if_neg (by simp [hb1, hb2])]
  split
  · rfl
  · rename_i hb0
    have hone : c.b0 = 1 := not_not.mp hb0
    simp [hone]

/-- All other sections have the general recurrence. -/
theorem sosLoops_of_not_isGain {c : Sos 𝕜} (h : ¬c.IsGain) : sosLoops c = general c := by
  funext z x
  unfold sosLoops general
  split
  · split
    · rfl
    · rename_i hb
      obtain ⟨hb1, hb2⟩ := not_or.mp hb
      split
      · rw [polesRound_eq (not_not.mp hb1) (not_not.mp hb2)]
      · rename_i hb0
        rw [unitPolesRound_eq (not_not.mp hb0) (not_not.mp hb1) (not_not.mp hb2)]
  · rename_i ha
    obtain ⟨ha1, ha2⟩ := not_or.mp ha
    split
    · rw [zerosRound_eq (not_not.mp ha1) (not_not.mp ha2)]
    · rename_i hb
      obtain ⟨hb1, hb2⟩ := not_or.mp hb
      exact absurd ⟨⟨not_not.mp ha1, not_not.mp ha2⟩, not_not.mp hb1, not_not.mp hb2⟩ h

/-- The loops compute the general recurrence, but a gain leaves the delay line alone. -/
theorem sosLoops_eq (c : Sos 𝕜) (z : Delays 𝕜) (x : List 𝕜) :
    sosLoops c z x = ((general c z x).1, if c.IsGain then z else (general c z x).2) := by
  by_cases h : c.IsGain
  · rw [if_pos h, h.sosLoops_eq, h.general_fst]
  · rw [if_neg h, sosLoops_of_not_isGain h]

/-- A section may be given a signal in blocks. -/
theorem blockwise_sosLoops (c : Sos 𝕜) : Blockwise (sosLoops c) := by
  by_cases h : c.IsGain
  · have hloops : sosLoops c = fun z x => (x.map fun x => c.b0 * x, z) := by
      funext z x
      exact h.sosLoops_eq z x
    rw [hloops]
    exact blockwise_map _
  · rw [sosLoops_of_not_isGain h]
    exact blockwise_run _

/-! ## Sections in a row -/

/-- The delay line of a section in the array `z`. -/
def delaysAt (z : ℕ → 𝕜) (C : ℕ) : Delays 𝕜 := { z1 := z (2 * C), z2 := z (2 * C + 1) }

/-- The sections of `IIRFilt`. -/
def sections (h : ℕ → 𝕜) (C : ℕ) : SignalStage (Delays 𝕜) 𝕜 𝕜 := sosLoops (sosAt h C)

omit [CommRing 𝕜] [DecidableEq 𝕜] in
/-- The delay lines are all that is in the array. -/
theorem delaysAt_injective : Function.Injective (delaysAt : (ℕ → 𝕜) → ℕ → Delays 𝕜) := by
  intro z z' h
  funext i
  have hline := congrFun h (i / 2)
  rcases Nat.even_or_odd' i with ⟨C, rfl | rfl⟩
  · rw [Nat.mul_div_cancel_left C Nat.two_pos] at hline
    exact congrArg Delays.z1 hline
  · rw [show (2 * C + 1) / 2 = C by omega] at hline
    exact congrArg Delays.z2 hline

omit [CommRing 𝕜] [DecidableEq 𝕜] in
/-- What a section writes to the array is its delay line. -/
theorem delaysAt_update (z : ℕ → 𝕜) (C : ℕ) (d : Delays 𝕜) :
    delaysAt (Function.update (Function.update z (2 * C) d.z1) (2 * C + 1) d.z2) =
      Function.update (delaysAt z) C d := by
  funext k
  unfold delaysAt
  by_cases hk : k = C
  · subst hk
    rw [Function.update_self, Function.update_self, Function.update_of_ne (by omega),
      Function.update_self]
  · rw [Function.update_of_ne hk, Function.update_of_ne (by omega),
      Function.update_of_ne (by omega), Function.update_of_ne (by omega),
      Function.update_of_ne (by omega)]

/-- A section in a row filters with its delay line in the array. -/
theorem filterSection_some (h : ℕ → 𝕜) (y : List 𝕜) (z : ℕ → 𝕜) (C : ℕ) :
    ∃ z', filterSection h { y, z := some z } C =
        { y := (sections h C (delaysAt z C) y).1, z := some z' } ∧
      delaysAt z' = Function.update (delaysAt z) C (sections h C (delaysAt z C) y).2 :=
  ⟨_, rfl, delaysAt_update z C _⟩

/-- The sections in a row are a cascade. -/
theorem foldl_filterSection (h : ℕ → 𝕜) (order : List ℕ) (y : List 𝕜) (z : ℕ → 𝕜) :
    ∃ z', order.foldl (filterSection h) { y, z := some z } =
        { y := (cascade (sections h) order (delaysAt z) y).1, z := some z' } ∧
      delaysAt z' = (cascade (sections h) order (delaysAt z) y).2 := by
  induction order generalizing y z with
  | nil => exact ⟨z, rfl, rfl⟩
  | cons C order ih =>
    obtain ⟨z₁, hsection, hz₁⟩ := filterSection_some h y z C
    obtain ⟨z₂, hothers, hz₂⟩ := ih (sections h C (delaysAt z C) y).1 z₁
    rw [hz₁] at hothers hz₂
    rw [List.foldl_cons, hsection]
    exact ⟨z₂, hothers, hz₂⟩

/-- `IIRFilt` is the cascade of its sections, in place or not, and leaves their delay lines in the
array. -/
theorem IIRFilt_some (h : ℕ → 𝕜) (Nsos : ℕ) (z : ℕ → 𝕜) (x : List 𝕜) (y : Option (List 𝕜)) :
    ∃ z', (IIRFilt h Nsos (some z) x y).z = some z' ∧
      cascade (sections h) (List.range Nsos) (delaysAt z) x =
        ((IIRFilt h Nsos (some z) x y).samples, delaysAt z') := by
  obtain ⟨z', hfiltered, hz'⟩ := foldl_filterSection h (List.range Nsos) x z
  unfold IIRFilt FiltResult.samples
  rw [hfiltered]
  cases y <;> exact ⟨z', rfl, Prod.ext rfl hz'.symm⟩

/-- A signal may be filtered in blocks if the array of the delay lines is kept. -/
theorem IIRFilt_blocks (h : ℕ → 𝕜) (Nsos : ℕ) (z : ℕ → 𝕜) (x x' : List 𝕜)
    (y y₁ y₂ : Option (List 𝕜)) :
    let first := IIRFilt h Nsos (some z) x y₁
    let second := IIRFilt h Nsos first.z x' y₂
    (IIRFilt h Nsos (some z) (x ++ x') y).samples = first.samples ++ second.samples ∧
      (IIRFilt h Nsos (some z) (x ++ x') y).z = second.z := by
  intro first second
  have hsections : Blockwise (cascade (sections h) (List.range Nsos)) :=
    blockwise_cascade (fun C => blockwise_sosLoops (sosAt h C)) List.nodup_range
  have hblocks := hsections (delaysAt z) x x'
  obtain ⟨z', hz', hwhole⟩ := IIRFilt_some h Nsos z (x ++ x') y
  obtain ⟨z₁, hz₁, hfirst⟩ := IIRFilt_some h Nsos z x y₁
  obtain ⟨z₂, hz₂, hsecond⟩ := IIRFilt_some h Nsos z₁ x' y₂
  rw [hwhole, hfirst, hsecond] at hblocks
  have hcarried : second = IIRFilt h Nsos (some z₁) x' y₂ := congrArg (IIRFilt h Nsos · x' y₂) hz₁
  rw [hcarried, hz', hz₂]
  exact ⟨congrArg Prod.fst hblocks,
    congrArg some (delaysAt_injective (congrArg Prod.snd hblocks))⟩

/-! ## A section -/

/-- `IIRsos` is the general recurrence, from zeros where a pointer is `NULL`, in its samples and, if
the section is not only a gain, in what it leaves behind the pointers; a gain leaves them as they
are. A signal may be filtered in blocks, by a section and by sections in a row. -/
theorem IIRsos_refines_general :
    (∀ (x : List 𝕜) (c : Sos 𝕜) (tz1 tz2 : Option 𝕜),
      let recurrence := general c { z1 := tz1.getD 0, z2 := tz2.getD 0 } x
      IIRsos x c tz1 tz2 =
        { x := recurrence.1
          tz1 := if c.IsGain then tz1 else tz1.map fun _ => recurrence.2.z1
          tz2 := if c.IsGain then tz2 else tz2.map fun _ => recurrence.2.z2 }) ∧
      (∀ (x x' : List 𝕜) (c : Sos 𝕜) (z1 z2 : 𝕜),
        let first := IIRsos x c (some z1) (some z2)
        let second := IIRsos x' c first.tz1 first.tz2
        IIRsos (x ++ x') c (some z1) (some z2) = { second with x := first.x ++ second.x }) ∧
      ∀ (h : ℕ → 𝕜) (Nsos : ℕ) (z : ℕ → 𝕜) (x x' : List 𝕜) (y y₁ y₂ : Option (List 𝕜)),
        let first := IIRFilt h Nsos (some z) x y₁
        let second := IIRFilt h Nsos first.z x' y₂
        (IIRFilt h Nsos (some z) (x ++ x') y).samples = first.samples ++ second.samples ∧
          (IIRFilt h Nsos (some z) (x ++ x') y).z = second.z := by
  refine ⟨fun x c tz1 tz2 => ?_, fun x x' c z1 z2 => ?_, IIRFilt_blocks⟩
  · unfold IIRsos
    rw [sosLoops_eq]
    by_cases hgain : c.IsGain
    · simp only [if_pos hgain]
      cases tz1 <;> cases tz2 <;> rfl
    · simp only [if_neg hgain]
  · have hblocks := blockwise_sosLoops c { z1, z2 } x x'
    unfold IIRsos
    dsimp only [Option.getD_some, Option.map_some]
    rw [hblocks]

/-- A section that doubles its samples. -/
def doubler : Sos ℚ := { b0 := 2, b1 := 0, b2 := 0, a1 := 0, a2 := 0 }

/-- The general recurrence of a gain keeps the last samples in its delay line, and `IIRsos` does
not. -/
theorem IIRsos_leaves_delays :
    (IIRsos [1] doubler (some 0) (some 0)).tz1 ≠
      some (general doubler { z1 := 0, z2 := 0 } [1]).2.z1 := by
  decide +kernel

end TgVoipRate.Dsp
