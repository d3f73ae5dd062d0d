import Mathlib
import TgVoipRate.Lib.Loop
import TgVoipRate.Lib.Numerals

/-!
# The Fourier transforms of `dsp.c`

`FFT` and `IFFT`: a network of butterflies that works in place, and a pass of swaps behind it, with
tables that are kept from call to call as long as the size stays the same (`FFTInit`, `FFTFree`).
An array holds complex numbers, the real part of number `k` at `2 * k` and the imaginary part behind
it.

Arithmetic is exact, and the cosine and sine of an angle are given by functions (`Angles`). What
`malloc` returns is unknown (`FFTTables` as an argument), and so is what freed tables hold.
-/

namespace TgVoipRate.Dsp

open Loops (Loop)

variable {𝕜 : Type*}

/-- The cosine and the sine of the angle `TWOPI * C / N`. -/
structure Angles (𝕜 : Type*) where
  cos : ℕ → ℕ → 𝕜
  sin : ℕ → ℕ → 𝕜

/-! ## The tables -/

/-- The contents of the tables. -/
structure FFTTables (𝕜 : Type*) where
  FFTButter : ℕ → ℕ
  FFTBitSwap : ℕ → ℕ
  FFTPhi : ℕ → 𝕜

/-- The globals. -/
structure FFTState (𝕜 : Type*) extends FFTTables 𝕜 where
  /-- The size that the tables are for, or 0 if there are no tables. -/
  FFTSwapInitialised : ℕ
  FFTLog2N : ℕ

/-- `FFTFree` -/
def FFTFree (s : FFTState 𝕜) : FFTState 𝕜 :=
  if s.FFTSwapInitialised ≠ 0 then { s with FFTSwapInitialised := 0 } else s

/-- How often a number can be halved until it is at most 1. -/
def halvings (C : ℕ) : ℕ := if C > 1 then halvings (C / 2) + 1 else 0

/-- The angles of the first half of the circle. -/
def fillPhi (angles : Angles 𝕜) (N : ℕ) (FFTPhi : ℕ → 𝕜) : ℕ → 𝕜 :=
  (List.range (N / 2)).foldl
    (fun FFTPhi C =>
      Function.update (Function.update FFTPhi (2 * C) (angles.cos C N)) (2 * C + 1)
        (angles.sin C N))
    FFTPhi

/-- The first entries of a table, moved up and increased. -/
def doubleButter (L K : ℕ) (FFTButter : ℕ → ℕ) : ℕ → ℕ :=
  (List.range L).foldl
    (fun FFTButter C => Function.update FFTButter (C + L) (FFTButter C + K)) FFTButter

/-- The table of exponents is built by doubling. -/
def fillButter (L K : ℕ) (FFTButter : ℕ → ℕ) : ℕ → ℕ :=
  if K ≥ 1 then fillButter (2 * L) (K / 2) (doubleButter L K FFTButter) else FFTButter
termination_by K

/-- `FFTInit` -/
def FFTInit (angles : Angles 𝕜) (memory : FFTTables 𝕜) (N : ℕ) (s : FFTState 𝕜) : FFTState 𝕜 :=
  let s := if s.FFTSwapInitialised ≠ N ∧ s.FFTSwapInitialised ≠ 0 then FFTFree s else s
  if s.FFTSwapInitialised = N then s
  else
    -- The tables are in new memory, and only the entries that are written here are known. A size
    -- that is not a power of two is not noted, so that the next call builds its tables again.
    { FFTButter := fillButter 1 (N / 4) (Function.update memory.FFTButter 0 0)
      FFTBitSwap := memory.FFTBitSwap
      FFTPhi := fillPhi angles N memory.FFTPhi
      FFTSwapInitialised := if N = 2 ^ halvings N then N else s.FFTSwapInitialised
      FFTLog2N := halvings N }

/-! ## The butterflies -/

/-- A complex number in an array. -/
def setPair (x : ℕ → 𝕜) (K : ℕ) (z : 𝕜 × 𝕜) : ℕ → 𝕜 :=
  Function.update (Function.update x K z.1) (K + 1) z.2

/-- What a butterfly makes of two complex numbers, with the cosine and the sine of an angle. -/
abbrev Butterfly (𝕜 : Type*) := 𝕜 → 𝕜 → 𝕜 → 𝕜 → 𝕜 → 𝕜 → (𝕜 × 𝕜) × (𝕜 × 𝕜)

/-- The butterfly of `FFT`. -/
def FFT_butterfly [CommRing 𝕜] : Butterfly 𝕜 := fun ReFFTPhi ImFFTPhi R1 I1 R2 I2 =>
  ((R1 + ReFFTPhi * R2 + ImFFTPhi * I2, I1 - ImFFTPhi * R2 + ReFFTPhi * I2),
    (R1 - ReFFTPhi * R2 - ImFFTPhi * I2, I1 + ImFFTPhi * R2 - ReFFTPhi * I2))

/-- The butterfly of `IFFT`, with the opposite angle. -/
def IFFT_butterfly [CommRing 𝕜] : Butterfly 𝕜 := fun ReFFTPhi ImFFTPhi R1 I1 R2 I2 =>
  ((R1 + ReFFTPhi * R2 - ImFFTPhi * I2, I1 + ImFFTPhi * R2 + ReFFTPhi * I2),
    (R1 - ReFFTPhi * R2 + ImFFTPhi * I2, I1 - ImFFTPhi * R2 - ReFFTPhi * I2))

/-- The array, and the positions of the next butterfly. -/
structure Wings (𝕜 : Type*) where
  x : ℕ → 𝕜
  K1 : ℕ
  K2 : ℕ

/-- One butterfly. -/
def combine (butterfly : Butterfly 𝕜) (ReFFTPhi ImFFTPhi : 𝕜) (s : Wings 𝕜) : Wings 𝕜 :=
  let wings := butterfly ReFFTPhi ImFFTPhi (s.x s.K1) (s.x (s.K1 + 1)) (s.x s.K2) (s.x (s.K2 + 1))
  { x := setPair (setPair s.x s.K1 wings.1) s.K2 wings.2
    K1 := s.K1 + 2
    K2 := s.K2 + 2 }

/-- The butterflies of a block, all with the same angle. -/
def combineBlock (butterfly : Butterfly 𝕜) (tables : FFTTables 𝕜) (Step : ℕ) (s : Wings 𝕜) (C : ℕ) :
    Wings 𝕜 :=
  let NC := 2 * tables.FFTButter C
  let s := (List.range Step).foldl
    (fun s _ => combine butterfly (tables.FFTPhi NC) (tables.FFTPhi (NC + 1)) s) s
  -- The second half of this block ends where the next block starts.
  { x := s.x, K1 := s.K2, K2 := s.K2 + 2 * Step }

/-- One stage: the butterflies of all blocks. -/
def combineBlocks (butterfly : Butterfly 𝕜) (tables : FFTTables 𝕜) (Cycle Step : ℕ) (x : ℕ → 𝕜) :
    ℕ → 𝕜 :=
  ((List.range Cycle).foldl (combineBlock butterfly tables Step) { x, K1 := 0, K2 := 2 * Step }).x

/-- The array before a stage, and the number of blocks and half their length. -/
structure Stage (𝕜 : Type*) where
  Cycle : ℕ
  Step : ℕ
  x : ℕ → 𝕜
  /-- There is a block. -/
  Cycle_pos : 0 < Cycle

/-- The stages, each with twice as many blocks. -/
def stages (butterfly : Butterfly 𝕜) (tables : FFTTables 𝕜) (N : ℕ) : Loop (Stage 𝕜) where
  guard s := s.Cycle < N
  body s :=
    { Cycle := 2 * s.Cycle
      Step := s.Step / 2
      x := combineBlocks butterfly tables s.Cycle s.Step s.x
      Cycle_pos := Nat.mul_pos Nat.two_pos s.Cycle_pos }
  variant s := N - s.Cycle
  decreases s hguard := by
    have hpos := s.Cycle_pos
    show N - 2 * s.Cycle < N - s.Cycle
    omega

/-! ## The swaps -/

/-- The table of swaps is filled from the table of exponents. -/
def fillBitSwap (NC : ℕ) (FFTButter FFTBitSwap : ℕ → ℕ) : ℕ → ℕ :=
  (List.range NC).foldl
    (fun FFTBitSwap C =>
      let FFTBitSwap := Function.update FFTBitSwap C (2 * FFTButter C)
      Function.update FFTBitSwap (C + NC) (1 + FFTBitSwap C))
    FFTBitSwap

/-- Swaps two entries of an array. -/
def swapEntries (x : ℕ → 𝕜) (K1 K2 : ℕ) : ℕ → 𝕜 :=
  Function.update (Function.update x K1 (x K2)) K2 (x K1)

/-- Swaps a complex number with the one that the table says, and notes that the other one is done.
-/
def swapPairs (s : (ℕ → 𝕜) × (ℕ → ℕ)) (C : ℕ) : (ℕ → 𝕜) × (ℕ → ℕ) :=
  let S := s.2 C
  if S ≠ C then
    (swapEntries (swapEntries s.1 (2 * C) (2 * S)) (2 * C + 1) (2 * S + 1),
      Function.update s.2 S S)
  else s

/-! ## The transforms -/

/-- What `FFT` and `IFFT` have in common. -/
def transform (butterfly : Butterfly 𝕜) (angles : Angles 𝕜) (memory : FFTTables 𝕜)
    (s : FFTState 𝕜) (x : ℕ → 𝕜) (N : ℕ) : FFTState 𝕜 × (ℕ → 𝕜) :=
  if N > 1 then
    let s := FFTInit angles memory N s
    let network := (stages butterfly s.toFFTTables N).run
      { Cycle := 1, Step := N / 2, x, Cycle_pos := Nat.one_pos }
    let swapped := (List.range N).foldl swapPairs
      (network.x, fillBitSwap (N / 2) s.FFTButter s.FFTBitSwap)
    ({ s with FFTBitSwap := swapped.2 }, swapped.1)
  else (s, x)

/-- `FFT` -/
def FFT [CommRing 𝕜] (angles : Angles 𝕜) (memory : FFTTables 𝕜) (s : FFTState 𝕜) (x : ℕ → 𝕜)
    (N : ℕ) : FFTState 𝕜 × (ℕ → 𝕜) :=
  transform FFT_butterfly angles memory s x N

/-- `IFFT` divides by the number of entries. -/
def IFFT [Field 𝕜] (angles : Angles 𝕜) (memory : FFTTables 𝕜) (s : FFTState 𝕜) (x : ℕ → 𝕜)
    (N : ℕ) : FFTState 𝕜 × (ℕ → 𝕜) :=
  let transformed := transform IFFT_butterfly angles memory s x N
  if N > 1 then
    (transformed.1, fun C => if C < 2 * N then transformed.2 C / N else transformed.2 C)
  else transformed

end TgVoipRate.Dsp
