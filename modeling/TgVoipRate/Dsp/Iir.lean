import Mathlib.Algebra.Ring.Defs
import TgVoipRate.Lib.Stages

/-!
# Recursive filters in `dsp.c`

`IIRsos` is a second-order section. It has one loop for each kind of coefficients, without the terms
that are zero. `IIRFilt` is a number of sections in a row. Arithmetic is exact.
-/

namespace TgVoipRate.Dsp

open Stages (SignalStage run)

variable {𝕜 : Type*} [CommRing 𝕜] [DecidableEq 𝕜]

/-! ## One section -/

/-- The coefficients of a section. -/
structure Sos (𝕜 : Type*) where
  b0 : 𝕜
  b1 : 𝕜
  b2 : 𝕜
  a1 : 𝕜
  a2 : 𝕜

/-- The delay line of a section. -/
structure Delays (𝕜 : Type*) where
  z1 : 𝕜
  z2 : 𝕜

/-- The delay line takes a new value. -/
def Delays.shift (z : Delays 𝕜) (z0 : 𝕜) : Delays 𝕜 := { z1 := z0, z2 := z.z1 }

/-- A round of the first loop, which has all terms. -/
def fullRound (c : Sos 𝕜) (z : Delays 𝕜) (x : 𝕜) : 𝕜 × Delays 𝕜 :=
  let z0 := x - c.a1 * z.z1 - c.a2 * z.z2
  (c.b0 * z0 + c.b1 * z.z1 + c.b2 * z.z2, z.shift z0)

/-- A round of the loop for a section without `b1` and `b2`. -/
def polesRound (c : Sos 𝕜) (z : Delays 𝕜) (x : 𝕜) : 𝕜 × Delays 𝕜 :=
  let z0 := x - c.a1 * z.z1 - c.a2 * z.z2
  (c.b0 * z0, z.shift z0)

/-- The same if `b0` is one. -/
def unitPolesRound (c : Sos 𝕜) (z : Delays 𝕜) (x : 𝕜) : 𝕜 × Delays 𝕜 :=
  let z0 := x - c.a1 * z.z1 - c.a2 * z.z2
  (z0, z.shift z0)

/-- A round of the loop for a section without `a1` and `a2`. -/
def zerosRound (c : Sos 𝕜) (z : Delays 𝕜) (x : 𝕜) : 𝕜 × Delays 𝕜 :=
  let z0 := x
  (c.b0 * z0 + c.b1 * z.z1 + c.b2 * z.z2, z.shift z0)

/-- The loops of `IIRsos`. -/
def sosLoops (c : Sos 𝕜) : SignalStage (Delays 𝕜) 𝕜 𝕜 := fun z x =>
  if c.a1 ≠ 0 ∨ c.a2 ≠ 0 then
    if c.b1 ≠ 0 ∨ c.b2 ≠ 0 then run (fullRound c) z x
    else if c.b0 ≠ 1 then run (polesRound c) z x
    else run (unitPolesRound c) z x
  else
    if c.b1 ≠ 0 ∨ c.b2 ≠ 0 then run (zerosRound c) z x
    -- The last loop leaves the delay line alone, and without a factor there is no loop at all.
    else if c.b0 ≠ 1 then (x.map fun x => c.b0 * x, z)
    else (x, z)

/-- The samples after `IIRsos`, and what is behind its two pointers then. -/
structure SosResult (𝕜 : Type*) where
  x : List 𝕜
  tz1 : Option 𝕜
  tz2 : Option 𝕜

/-- `IIRsos`: a pointer may be `NULL`. -/
def IIRsos (x : List 𝕜) (c : Sos 𝕜) (tz1 tz2 : Option 𝕜) : SosResult 𝕜 :=
  let filtered := sosLoops c { z1 := tz1.getD 0, z2 := tz2.getD 0 } x
  { x := filtered.1
    tz1 := tz1.map fun _ => filtered.2.z1
    tz2 := tz2.map fun _ => filtered.2.z2 }

/-! ## Sections in a row -/

/-- The coefficients of a section in the array `h`, which is moved on by 5 for each section. -/
def sosAt (h : ℕ → 𝕜) (C : ℕ) : Sos 𝕜 where
  b0 := h (5 * C)
  b1 := h (5 * C + 1)
  b2 := h (5 * C + 2)
  a1 := h (5 * C + 3)
  a2 := h (5 * C + 4)

/-- The samples and the states between two sections. -/
structure Cascade (𝕜 : Type*) where
  y : List 𝕜
  z : Option (ℕ → 𝕜)

/-- Filters the samples by a section. Its state is in the array `z`, which is moved on by 2 for each
section. -/
def filterSection (h : ℕ → 𝕜) (s : Cascade 𝕜) (C : ℕ) : Cascade 𝕜 :=
  match s.z with
  | some z =>
    let res := IIRsos s.y (sosAt h C) (some (z (2 * C))) (some (z (2 * C + 1)))
    let z := Function.update z (2 * C) (res.tz1.getD (z (2 * C)))
    let z := Function.update z (2 * C + 1) (res.tz2.getD (z (2 * C + 1)))
    { y := res.x, z := some z }
  | none => { y := (IIRsos s.y (sosAt h C) none none).x, z := none }

/-- The arrays after `IIRFilt`. -/
structure FiltResult (𝕜 : Type*) where
  x : List 𝕜
  y : Option (List 𝕜)
  z : Option (ℕ → 𝕜)

/-- `IIRFilt` -/
def IIRFilt (h : ℕ → 𝕜) (Nsos : ℕ) (z : Option (ℕ → 𝕜)) (x : List 𝕜) (y : Option (List 𝕜)) :
    FiltResult 𝕜 :=
  let filtered := (List.range Nsos).foldl (filterSection h) { y := x, z }
  match y with
  -- The samples are filtered in place.
  | none => { x := filtered.y, y := none, z := filtered.z }
  -- They are copied first, over what was there.
  | some _ => { x, y := some filtered.y, z := filtered.z }

/-- The samples that `IIRFilt` was called for. -/
def FiltResult.samples (res : FiltResult 𝕜) : List 𝕜 := res.y.getD res.x

end TgVoipRate.Dsp
