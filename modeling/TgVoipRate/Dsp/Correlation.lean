import TgVoipRate.Dsp.Fft

/-!
# Cross-correlation in `dsp.c`

`RealFFT` and `RealIFFT`, which use the transforms of complex numbers and only keep the first half
of a spectrum, and `FFTNXCorr`, which correlates two sequences by the product of their spectra.
-/

namespace TgVoipRate.Dsp

open Loops (Loop)

variable {𝕜 : Type*}

/-! ## The size -/

/-- The loop of `nextpow2`. The number is not 0. -/
def doubleUpTo (X : ℕ) : Loop { C : ℕ // 0 < C } where
  guard C := C.val < X
  body C := ⟨2 * C.val, Nat.mul_pos Nat.two_pos C.property⟩
  variant C := X - C.val
  decreases C hguard := by
    have hpos := C.property
    show X - 2 * C.val < X - C.val
    omega

/-- `nextpow2`, for numbers below the largest power of two in an `unsigned long`. -/
def nextpow2 (X : ℕ) : ℕ := ((doubleUpTo X).run ⟨1, Nat.one_pos⟩).val

/-! ## Transforms of real numbers -/

/-- What `malloc` returns in a transform of real numbers. -/
structure RealMemory (𝕜 : Type*) where
  tables : FFTTables 𝕜
  y : ℕ → 𝕜

/-- Complex numbers in an array, one after the other. -/
def setPairs (numbers : List ℕ) (z : ℕ → 𝕜 × 𝕜) (y : ℕ → 𝕜) : ℕ → 𝕜 :=
  numbers.foldl (fun y i => setPair y (2 * i) (z i)) y

/-- The complex number in an array. -/
def getPair (x : ℕ → 𝕜) (i : ℕ) : 𝕜 × 𝕜 := (x (2 * i), x (2 * i + 1))

/-- `RealFFT` -/
def RealFFT [CommRing 𝕜] (angles : Angles 𝕜) (memory : RealMemory 𝕜) (s : FFTState 𝕜) (x : ℕ → 𝕜)
    (N : ℕ) : FFTState 𝕜 × (ℕ → 𝕜) :=
  let y := setPairs (List.range N) (fun i => (x i, 0)) memory.y
  let transformed := FFT angles memory.tables s y N
  (transformed.1, setPairs (List.range (N / 2 + 1)) (getPair transformed.2) x)

/-- `RealIFFT`: the second half of the spectrum is the first one, mirrored and conjugated. -/
def RealIFFT [Field 𝕜] (angles : Angles 𝕜) (memory : RealMemory 𝕜) (s : FFTState 𝕜) (x : ℕ → 𝕜)
    (N : ℕ) : FFTState 𝕜 × (ℕ → 𝕜) :=
  let y := setPairs (List.range (N / 2 + 1)) (getPair x) memory.y
  let y := setPairs (List.range' (N / 2 + 1) (N - (N / 2 + 1)))
    (fun i => (x (2 * (N - i)), -x (2 * (N - i) + 1))) y
  let transformed := IFFT angles memory.tables s y N
  (transformed.1, fun i => if i < N then transformed.2 (2 * i) else x i)

/-! ## The correlation -/

/-- What `malloc` returns in a correlation. -/
structure CorrelationMemory (𝕜 : Type*) where
  tmp1 : ℕ → 𝕜
  tmp2 : ℕ → 𝕜
  first : RealMemory 𝕜
  second : RealMemory 𝕜
  back : RealMemory 𝕜

/-- The first sequence is reversed, and followed by zeros. -/
def reversePad [Zero 𝕜] (x1 : ℕ → 𝕜) (n1 N : ℕ) (tmp1 : ℕ → 𝕜) : ℕ → 𝕜 :=
  let tmp1 := (List.range n1).foldl (fun tmp1 i => Function.update tmp1 (n1 - 1 - i) (x1 i)) tmp1
  fun C => if n1 ≤ C ∧ C < N then 0 else tmp1 C

/-- The second sequence is followed by zeros. -/
def pad [Zero 𝕜] (x2 : ℕ → 𝕜) (n2 N : ℕ) (tmp2 : ℕ → 𝕜) : ℕ → 𝕜 := fun C =>
  if C < n2 then x2 C else if C < N then 0 else tmp2 C

/-- The product of two complex numbers in arrays. -/
def mulPair [CommRing 𝕜] (tmp1 tmp2 : ℕ → 𝕜) (C : ℕ) : 𝕜 × 𝕜 :=
  let r1 := tmp1 (2 * C)
  let i1 := tmp1 (2 * C + 1)
  (r1 * tmp2 (2 * C) - i1 * tmp2 (2 * C + 1), r1 * tmp2 (2 * C + 1) + i1 * tmp2 (2 * C))

/-- The globals behind a correlation, its length, and the array that it is written to. -/
structure Correlated (𝕜 : Type*) where
  state : FFTState 𝕜
  Ny : ℕ
  y : ℕ → 𝕜

/-- `FFTNXCorr` -/
def FFTNXCorr [Field 𝕜] (angles : Angles 𝕜) (memory : CorrelationMemory 𝕜) (s : FFTState 𝕜)
    (x1 : ℕ → 𝕜) (n1 : ℕ) (x2 : ℕ → 𝕜) (n2 : ℕ) (y : ℕ → 𝕜) : Correlated 𝕜 :=
  let Nx := nextpow2 (max n1 n2)
  let first := RealFFT angles memory.first s (reversePad x1 n1 (2 * Nx) memory.tmp1) (2 * Nx)
  let second := RealFFT angles memory.second first.1 (pad x2 n2 (2 * Nx) memory.tmp2) (2 * Nx)
  -- The product goes to the array of the first spectrum, and only its first half is set.
  let product := setPairs (List.range (Nx + 1)) (mulPair first.2 second.2) first.2
  let back := RealIFFT angles memory.back second.1 product (2 * Nx)
  { state := back.1
    Ny := n1 + n2 - 1
    y := fun C => if C < n1 + n2 - 1 then back.2 C else y C }

end TgVoipRate.Dsp
