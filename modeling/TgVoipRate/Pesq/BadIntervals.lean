import Mathlib.Data.Bool.Basic
import Mathlib.Data.Int.Notation
import TgVoipRate.Lib.Loop

/-!
# Intervals of bad frames

The part of `pesq_psychoacoustic_model` in `pesqmod.c` that smears the flags of bad frames and
collects the runs of bad frames that are long enough. The two tables for the intervals have a fixed
length and nothing checks an index; a table is a function on all indices here, and the indices that
are written are recorded next to it.
-/

namespace TgVoipRate.Pesq

open Loops (Loop)

/-- The number of entries of the tables of bad intervals. -/
def MAX_NUMBER_OF_BAD_INTERVALS : ℕ := 1000

/-- The shortest interval that is kept. -/
def MINIMUM_NUMBER_OF_BAD_FRAMES_IN_BAD_INTERVAL : ℤ := 5

/-- How far a frame looks when the flags are smeared. -/
def SMEAR_RANGE : ℕ := 2

/-- The largest one of a flag and the flags of some frames. -/
def maxFlag (frame_is_bad : ℕ → Bool) (itself : Bool) (frames : List ℕ) : Bool :=
  frames.foldl (fun max frame => if max < frame_is_bad frame then frame_is_bad frame else max)
    itself

/-- The smeared flags: a frame is bad if a frame in reach on the left and one on the right is, each
time up to the frame itself. The first and the last frames are not bad. -/
def smear (stop_frame : ℤ) (frame_is_bad : ℕ → Bool) (frame : ℕ) : Bool :=
  let frame_is_bad := Function.update frame_is_bad 0 false
  if SMEAR_RANGE ≤ frame ∧ (frame : ℤ) < stop_frame - SMEAR_RANGE then
    let max_itself_and_left := maxFlag frame_is_bad (frame_is_bad frame)
      ((List.range (SMEAR_RANGE + 1)).map fun i => frame - SMEAR_RANGE + i)
    let max_itself_and_right := maxFlag frame_is_bad (frame_is_bad frame)
      ((List.range (SMEAR_RANGE + 1)).map fun i => frame + i)
    if max_itself_and_left > max_itself_and_right then max_itself_and_right else max_itself_and_left
  else false

/-- Goes on while the flag has a value. -/
def skip (stop_frame : ℤ) (smeared_frame_is_bad : ℕ → Bool) (value : Bool) (frame : ℕ) : ℕ :=
  if (frame : ℤ) ≤ stop_frame ∧ smeared_frame_is_bad frame = value then
    skip stop_frame smeared_frame_is_bad value (frame + 1)
  else frame
termination_by (stop_frame + 1 - frame).toNat

/-- Going on does not go back. -/
theorem le_skip (stop_frame : ℤ) (smeared_frame_is_bad : ℕ → Bool) (value : Bool) (frame : ℕ) :
    frame ≤ skip stop_frame smeared_frame_is_bad value frame := by
  rw [skip]
  split
  · have hle := le_skip stop_frame smeared_frame_is_bad value (frame + 1)
    omega
  · exact Nat.le_refl frame
termination_by (stop_frame + 1 - frame).toNat

/-- Going on from a frame with the value leaves the frame. -/
theorem lt_skip {stop_frame : ℤ} {smeared_frame_is_bad : ℕ → Bool} {value : Bool} {frame : ℕ}
    (hframe : (frame : ℤ) ≤ stop_frame) (hvalue : smeared_frame_is_bad frame = value) :
    frame < skip stop_frame smeared_frame_is_bad value frame := by
  rw [skip, if_pos ⟨hframe, hvalue⟩]
  exact le_skip stop_frame smeared_frame_is_bad value (frame + 1)

/-- The variables of the loop that collects the intervals. -/
structure Collected where
  frame : ℕ
  number_of_bad_intervals : ℕ
  start_frame_of_bad_interval : ℕ → ℤ
  stop_frame_of_bad_interval : ℕ → ℤ
  /-- The indices that were written so far, in both tables. -/
  written : List ℕ

/-- The body of the loop: finds the next run of bad frames, and keeps it if it is over and long
enough. -/
def collectStep (stop_frame : ℤ) (smeared_frame_is_bad : ℕ → Bool) (s : Collected) : Collected :=
  let n := s.number_of_bad_intervals
  let frame := skip stop_frame smeared_frame_is_bad false s.frame
  if (frame : ℤ) ≤ stop_frame then
    let starts := Function.update s.start_frame_of_bad_interval n frame
    let behind := skip stop_frame smeared_frame_is_bad true frame
    if (behind : ℤ) ≤ stop_frame then
      let stops := Function.update s.stop_frame_of_bad_interval n behind
      { frame := behind
        number_of_bad_intervals :=
          if stops n - starts n ≥ MINIMUM_NUMBER_OF_BAD_FRAMES_IN_BAD_INTERVAL then n + 1 else n
        start_frame_of_bad_interval := starts
        stop_frame_of_bad_interval := stops
        written := s.written ++ [n, n] }
    else
      { s with
        frame := behind
        start_frame_of_bad_interval := starts
        written := s.written ++ [n] }
  else { s with frame }

/-- The body moves on. -/
theorem lt_collectStep {stop_frame : ℤ} (smeared_frame_is_bad : ℕ → Bool) {s : Collected}
    (h : (s.frame : ℤ) ≤ stop_frame) :
    s.frame < (collectStep stop_frame smeared_frame_is_bad s).frame := by
  have hle := le_skip stop_frame smeared_frame_is_bad false s.frame
  have hle' := le_skip stop_frame smeared_frame_is_bad true
    (skip stop_frame smeared_frame_is_bad false s.frame)
  have hlt : s.frame < skip stop_frame smeared_frame_is_bad true
      (skip stop_frame smeared_frame_is_bad false s.frame) := by
    cases hvalue : smeared_frame_is_bad s.frame with
    | false => exact Nat.lt_of_lt_of_le (lt_skip h hvalue) hle'
    | true =>
      have hstays : skip stop_frame smeared_frame_is_bad false s.frame = s.frame := by
        rw [skip, if_neg (by simp [hvalue])]
      rw [hstays]
      exact lt_skip h hvalue
  unfold collectStep
  dsimp only
  split
  · split
    · exact hlt
    · exact hlt
  · rename_i hover
    show s.frame < skip stop_frame smeared_frame_is_bad false s.frame
    omega

/-- The loop that collects the intervals. -/
def collect (stop_frame : ℤ) (smeared_frame_is_bad : ℕ → Bool) : Loop Collected where
  guard s := (s.frame : ℤ) ≤ stop_frame
  body := collectStep stop_frame smeared_frame_is_bad
  variant s := (stop_frame + 1 - s.frame).toNat
  decreases s h := by
    have hlt := lt_collectStep smeared_frame_is_bad h
    omega

/-- Takes the end of an interval back to the last frame, if it is behind it. -/
def clampStep (stop_frame : ℤ) (s : Collected) (bad_interval : ℕ) : Collected :=
  if s.stop_frame_of_bad_interval bad_interval > stop_frame then
    { s with
      stop_frame_of_bad_interval :=
        Function.update s.stop_frame_of_bad_interval bad_interval stop_frame
      written := s.written ++ [bad_interval] }
  else s

/-- The bad intervals of a recording in which some frame is bad, from the flags of its frames. -/
def badIntervals (stop_frame : ℤ) (frame_is_bad : ℕ → Bool) : Collected :=
  let s := (collect stop_frame (smear stop_frame frame_is_bad)).run
    { frame := 0
      number_of_bad_intervals := 0
      start_frame_of_bad_interval := fun _ => 0
      stop_frame_of_bad_interval := fun _ => 0
      written := [] }
  (List.range s.number_of_bad_intervals).foldl (clampStep stop_frame) s

end TgVoipRate.Pesq
