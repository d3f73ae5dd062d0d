import Mathlib.Algebra.BigOperators.Group.Finset.Basic
import Mathlib.Algebra.Order.Field.Basic
import Mathlib.Data.Nat.Count
import Mathlib.Logic.Function.Iterate
import Mathlib.Order.Interval.Finset.Nat
import TgVoipRate.Lib.Runs
import TgVoipRate.Pesq.Params

/-!
# Voice activity detection

`apply_VAD` of `pesqdsp.c`. It measures the energy of every window of a signal, finds a threshold
between noise and speech, and leaves an array whose entries are positive in the windows of speech
and zero elsewhere. On the way the sign of an entry says whether its window counts as speech; the
passes that drop and join runs of speech change signs and entries in place while they look for the
ends of runs (`Runs.edgeStep`).

The arithmetic is exact here: the entries are elements of an ordered field, and the functions of the
C library are given by a `Math`. An array is a function on all positions; the entries from its
length on play no role.
-/

namespace TgVoipRate.Pesq

open Runs (edgeStep)

/-- The functions of the C library that the detection uses. -/
structure Math (𝕜 : Type*) where
  sqrt : 𝕜 → 𝕜
  log : 𝕜 → 𝕜

variable {𝕜 : Type*} [Field 𝕜] [LinearOrder 𝕜]

/-! ## Threshold -/

/-- The energy of a window: the mean square of its samples. -/
def windowEnergy (Downsample : ℕ) (data : ℕ → 𝕜) (count : ℕ) : 𝕜 :=
  (∑ iteration ∈ Finset.range Downsample, data (count * Downsample + iteration)^2) / Downsample

/-- The lowest level: a small part of the highest energy, or one in silence. -/
def lowestLevel (VAD : ℕ → 𝕜) (Nwindows : ℕ) : 𝕜 :=
  let LevelMin := (List.range Nwindows).foldl
    (fun m count => if VAD count > m then VAD count else m) 0
  if LevelMin > 0 then LevelMin * (1 / 10000) else 1

/-- Raises the entries below a level to it. -/
def raise (LevelMin : 𝕜) (VAD : ℕ → 𝕜) (count : ℕ) : 𝕜 :=
  if VAD count < LevelMin then LevelMin else VAD count

/-- One step towards the threshold: a bound on the noise, from the mean and the deviation of the
windows up to the threshold so far. -/
def nextThresh (math : Math 𝕜) (VAD : ℕ → 𝕜) (Nwindows : ℕ) (LevelThresh : 𝕜) : 𝕜 :=
  let length := Nat.count (fun count => VAD count ≤ LevelThresh) Nwindows
  let LevelNoise := ∑ count ∈ Finset.range Nwindows,
    if VAD count ≤ LevelThresh then VAD count else 0
  let LevelNoise := if length > 0 then LevelNoise / length else LevelNoise
  let StDNoise := ∑ count ∈ Finset.range Nwindows,
    if VAD count ≤ LevelThresh then (VAD count - LevelNoise)^2 else 0
  let StDNoise := if length > 0 then math.sqrt (StDNoise / length) else 0
  1001 / 1000 * (LevelNoise + 2 * StDNoise)

/-- What the detection knows about the signal as a whole. -/
structure Levels (𝕜 : Type*) where
  /-- The lowest level. -/
  LevelMin : 𝕜
  /-- The energy that a window of speech exceeds. -/
  LevelThresh : 𝕜
  /-- The mean energy of the windows up to the threshold. -/
  LevelNoise : 𝕜
  /-- The mean energy of the windows above the threshold. -/
  LevelSig : 𝕜

/-- The levels of a signal, from the energies of its windows. -/
def levels (math : Math 𝕜) (energy : ℕ → 𝕜) (Nwindows : ℕ) : Levels 𝕜 :=
  let LevelThresh := (∑ count ∈ Finset.range Nwindows, energy count) / Nwindows
  let LevelMin := lowestLevel energy Nwindows
  let VAD := raise LevelMin energy
  -- The first threshold is the mean over all windows, from before they were raised.
  let LevelThresh := (nextThresh math VAD Nwindows)^[12] LevelThresh
  let LevelSig := ∑ count ∈ Finset.range Nwindows, if VAD count > LevelThresh then VAD count else 0
  let LevelNoise := ∑ count ∈ Finset.range Nwindows,
    if VAD count > LevelThresh then 0 else VAD count
  let length := Nat.count (fun count => VAD count > LevelThresh) Nwindows
  { LevelMin
    LevelThresh := if length > 0 then LevelThresh else -1
    LevelNoise := if length < Nwindows then LevelNoise / (Nwindows - length : ℕ) else 1
    LevelSig := if length > 0 then LevelSig / length else LevelSig }

/-! ## Runs of speech -/

/-- Changes the sign of the entries between two positions. -/
def negate (start finish : ℕ) (VAD : ℕ → 𝕜) (i : ℕ) : 𝕜 :=
  if start ≤ i ∧ i < finish then -VAD i else VAD i

/-- Sets the entries between two positions. -/
def fill (start finish : ℕ) (x : 𝕜) (VAD : ℕ → 𝕜) (i : ℕ) : 𝕜 :=
  if start ≤ i ∧ i < finish then x else VAD i

/-- Marks the windows up to the threshold, and the first and the last one. -/
def markNoise (lv : Levels 𝕜) (Nwindows : ℕ) (VAD : ℕ → 𝕜) : ℕ → 𝕜 :=
  let VAD := fun count => if VAD count ≤ lv.LevelThresh then -VAD count else VAD count
  Function.update (Function.update VAD 0 (-lv.LevelMin)) (Nwindows - 1) (-lv.LevelMin)

/-- The variables of the passes over the array. -/
structure Pass (𝕜 : Type*) where
  VAD : ℕ → 𝕜
  start : ℕ
  finish : ℕ

/-- `start = count` -/
def setStart (count : ℕ) (s : Pass 𝕜) : Pass 𝕜 := { s with start := count }

/-- `finish = count` -/
def setFinish (count : ℕ) (s : Pass 𝕜) : Pass 𝕜 := { s with finish := count }

/-- A pass over the array with an action where a run of positive entries starts, and one where it
has ended. -/
def pass (rise fall : ℕ → Pass 𝕜 → Pass 𝕜) (Nwindows : ℕ) (s : Pass 𝕜) : Pass 𝕜 :=
  (List.range' 1 (Nwindows - 1)).foldl (edgeStep (fun s i => 0 < s.VAD i) rise fall) s

/-- Drops the run that has ended, if a test says so. -/
def dropIf (test : Pass 𝕜 → Bool) (count : ℕ) (s : Pass 𝕜) : Pass 𝕜 :=
  let s := setFinish count s
  if test s then { s with VAD := negate s.start s.finish s.VAD } else s

/-- The pass that drops short runs. -/
def dropShort : ℕ → Pass 𝕜 → Pass 𝕜 :=
  pass setStart (dropIf fun s => (s.finish : ℤ) - s.start ≤ MINSPEECHLGTH)

/-- The pass that drops runs whose mean energy is not well above the threshold. -/
def dropQuiet (lv : Levels 𝕜) : ℕ → Pass 𝕜 → Pass 𝕜 :=
  pass setStart (dropIf fun s =>
    ∑ iteration ∈ Finset.Ico s.start s.finish, s.VAD iteration <
      3 * lv.LevelThresh * ((s.finish : 𝕜) - s.start))

/-- Where a run starts: fills the gap before it, if there is a run before it and the gap is short.
-/
def joinRise (lv : Levels 𝕜) (count : ℕ) (s : Pass 𝕜) : Pass 𝕜 :=
  let s := setStart count s
  if s.finish > 0 ∧ (s.start : ℤ) - s.finish ≤ JOINSPEECHLGTH then
    { s with VAD := fill s.finish s.start lv.LevelMin s.VAD }
  else s

/-- The pass that joins runs over short gaps. -/
def joinSpeech (lv : Levels 𝕜) : ℕ → Pass 𝕜 → Pass 𝕜 := pass (joinRise lv) setFinish

/-- Takes the whole signal for speech if no run of speech is left. -/
def orAllSpeech (lv : Levels 𝕜) (Nwindows : ℕ) (VAD : ℕ → 𝕜) : ℕ → 𝕜 :=
  if (pass setStart (fun _ s => s) Nwindows { VAD, start := 0, finish := 0 }).start = 0 then
    Function.update (Function.update (fun count => |VAD count|) 0 (-lv.LevelMin)) (Nwindows - 1)
      (-lv.LevelMin)
  else VAD

/-! ## Edges of speech -/

/-- Writes two low values before a position where a run starts. -/
def taperRise (VAD : ℕ → 𝕜) (count : ℕ) : ℕ → 𝕜 :=
  let VAD := Function.update VAD (count - 2) (VAD count * (1 / 10))
  -- The window at `count` itself is not written.
  Function.update VAD (count - 1) (VAD count * (3 / 10))

/-- Writes two low values from a position behind a run on. -/
def taperFall (VAD : ℕ → 𝕜) (count : ℕ) : ℕ → 𝕜 :=
  let VAD := Function.update VAD count (VAD (count - 1) * (3 / 10))
  Function.update VAD (count + 1) (VAD (count - 1) * (1 / 10))

/-- The body of the loop that smooths the edges of the runs: the array and the next position. -/
def taperStep (VAD : ℕ → 𝕜) (count : ℕ) : (ℕ → 𝕜) × ℕ :=
  let (VAD, count) :=
    if VAD count > 0 ∧ VAD (count - 2) ≤ 0 then (taperRise VAD count, count + 1) else (VAD, count)
  -- The second test is made at the position that the first one has moved to.
  let (VAD, count) :=
    if VAD count ≤ 0 ∧ VAD (count - 1) > 0 then (taperFall VAD count, count + 3) else (VAD, count)
  (VAD, count + 1)

/-- The position moves forward. -/
theorem lt_taperStep (VAD : ℕ → 𝕜) (count : ℕ) : count < (taperStep VAD count).2 := by
  unfold taperStep
  dsimp only
  split <;> split <;> dsimp only <;> omega

/-- Smooths the edges of the runs from a position on. -/
def taper (Nwindows : ℕ) (VAD : ℕ → 𝕜) (count : ℕ) : ℕ → 𝕜 :=
  if count < Nwindows - 2 then taper Nwindows (taperStep VAD count).1 (taperStep VAD count).2
  else VAD
termination_by Nwindows - count
decreasing_by
  have := lt_taperStep VAD count
  omega

/-! ## The detection -/

/-- The array with the signs of speech, after runs were dropped and joined. -/
def speechSigns (lv : Levels 𝕜) (energy : ℕ → 𝕜) (Nwindows : ℕ) : ℕ → 𝕜 :=
  let VAD := markNoise lv Nwindows (raise lv.LevelMin energy)
  let s := dropShort Nwindows { VAD, start := 0, finish := 0 }
  -- The mean energy only decides where speech is far above the noise.
  let s := if lv.LevelSig ≥ lv.LevelNoise * 1000 then dropQuiet lv Nwindows s else s
  let s := joinSpeech lv Nwindows { s with start := 0, finish := 0 }
  orAllSpeech lv Nwindows s.VAD

/-- The detected activity. -/
structure Activity (𝕜 : Type*) where
  /-- Positive in the windows of speech, zero elsewhere. -/
  VAD : ℕ → 𝕜
  /-- Its logarithm over the threshold. -/
  logVAD : ℕ → 𝕜

/-- The activity in a signal, from the energies of its windows. -/
def detectActivity (math : Math 𝕜) (energy : ℕ → 𝕜) (Nwindows : ℕ) : Activity 𝕜 :=
  let lv := levels math energy Nwindows
  let VAD := taper Nwindows (speechSigns lv energy Nwindows) 3
  let VAD := fun count => if VAD count < 0 then 0 else VAD count
  let LevelThresh := if lv.LevelThresh ≤ 0 then lv.LevelMin else lv.LevelThresh
  { VAD
    logVAD := fun count =>
      if VAD count ≤ LevelThresh then 0 else math.log (VAD count / LevelThresh) }

/-- `apply_VAD` -/
def apply_VAD (math : Math 𝕜) (Downsample : ℕ) (Nsamples : ℕ) (data : ℕ → 𝕜) : Activity 𝕜 :=
  detectActivity math (windowEnergy Downsample data) (Nsamples / Downsample)

end TgVoipRate.Pesq
