import Mathlib.Data.List.GetD
import TgVoipRate.Pesq.UtterancesSpec

/-!
# The table of utterances

`id_utterances` computes the ends of the utterances in several passes over its tables. Each pass
changes, for two neighbours, the start of the second and the end of the first, and nothing that
another pair depends on (`foldl_pairs`). So the passes add up to a formula for each end
(`id_utterances_table`): the boundaries lie in the middle between two runs, and move apart by half
of a drop of the delay.
-/

namespace TgVoipRate.Pesq

open Runs (Run IsRuns)

variable {𝕜 : Type*} [Zero 𝕜] [LinearOrder 𝕜]

/-! ## The ends of the utterances -/

/-- The runs of activity of the reference. -/
def speechOf (sig : Signals 𝕜) : List Run :=
  Runs.runsFrom (fun i => 0 < sig.VAD i) 0 sig.VAD_length

/-- The runs that are utterances. -/
def utteranceRuns (sig : Signals 𝕜) (Crude_DelayEst : ℤ) : List Run :=
  (speechOf sig).filter (isAccepted sig Crude_DelayEst)

/-- A run of a list. -/
def runAt (rs : List Run) (k : ℕ) : Run := rs.getD k ⟨0, 1, Nat.one_pos⟩

/-- The window between two neighbours: in the middle between their runs, or at a fixed distance from
the ends of the signal. -/
def boundary (sig : Signals 𝕜) (rs : List Run) (k : ℕ) : ℤ :=
  if k = 0 then SEARCHBUFFER
  else if k = rs.length then sig.VAD_length - SEARCHBUFFER
  else ((runAt rs k).start + lastSeen sig (runAt rs (k - 1)) : ℤ).tdiv 2

/-- The sample of the degraded signal in the middle between where two delays put a window. -/
def middle (Downsample b delay delay' : ℤ) : ℤ :=
  (b * Downsample + delay + (b * Downsample + delay')).tdiv 2

/-- The start of an utterance. -/
def utteranceStart (sig : Signals 𝕜) (rs : List Run) (delay : ℤ → ℤ) (k : ℕ) : ℤ :=
  if k = 0 then
    if delay 0 < 0 then
      SEARCHBUFFER + (sig.rate.Downsample - 1 - delay 0).tdiv sig.rate.Downsample
    else SEARCHBUFFER
  else if delay k < delay (k - 1) then
    (sig.rate.Downsample - 1 +
      middle sig.rate.Downsample (boundary sig rs k) (delay k) (delay (k - 1)) - delay k).tdiv
        sig.rate.Downsample
  else boundary sig rs k

/-- The end of an utterance. -/
def utteranceEnd (sig : Signals 𝕜) (rs : List Run) (delay : ℤ → ℤ) (k : ℕ) : ℤ :=
  if k + 1 = rs.length then
    if boundary sig rs (k + 1) * sig.rate.Downsample + delay k >
        sig.deg_Nsamples - SEARCHBUFFER * sig.rate.Downsample then
      (sig.deg_Nsamples - delay k).tdiv sig.rate.Downsample - SEARCHBUFFER
    else boundary sig rs (k + 1)
  else if delay (k + 1) < delay k then
    (middle sig.rate.Downsample (boundary sig rs (k + 1)) (delay (k + 1)) (delay k) -
      delay k).tdiv sig.rate.Downsample
  else boundary sig rs (k + 1)

/-! ## Passes over neighbours -/

omit [Zero 𝕜] [LinearOrder 𝕜] in
/-- A pass that changes the start of an utterance and the end of the one before it, by what these
two were, changes each pair on its own. -/
theorem foldl_pairs {delay : ℤ → ℤ} (step : ErrorInfo 𝕜 → ℤ → ErrorInfo 𝕜)
    (newStart newEnd : ℤ → ℤ → ℤ → ℤ)
    (hdelay : ∀ err k, (step err k).Utt_Delay = err.Utt_Delay)
    (hstart : ∀ err k, err.Utt_Delay = delay → (step err k).Utt_Start =
      Function.update err.Utt_Start k (newStart k (err.Utt_Start k) (err.Utt_End (k - 1))))
    (hend : ∀ err k, err.Utt_Delay = delay → (step err k).Utt_End =
      Function.update err.Utt_End (k - 1) (newEnd k (err.Utt_Start k) (err.Utt_End (k - 1)))) :
    ∀ (ks : List ℤ) (err : ErrorInfo 𝕜), ks.Nodup → err.Utt_Delay = delay → ∀ i,
      (ks.foldl step err).Utt_Delay = delay ∧
      (ks.foldl step err).Utt_Start i =
        (if i ∈ ks then newStart i (err.Utt_Start i) (err.Utt_End (i - 1)) else err.Utt_Start i) ∧
      (ks.foldl step err).Utt_End (i - 1) =
        if i ∈ ks then newEnd i (err.Utt_Start i) (err.Utt_End (i - 1)) else err.Utt_End (i - 1)
  | [], _, _, hd, _ => ⟨hd, by simp, by simp⟩
  | k :: ks, err, hnodup, hd, i => by
    obtain ⟨hk, hks⟩ := List.nodup_cons.mp hnodup
    -- The later steps change other pairs, so they find each of them as it was.
    obtain ⟨hd', hs, he⟩ := foldl_pairs step newStart newEnd hdelay hstart hend ks (step err k) hks
      ((hdelay err k).trans hd) i
    rw [List.foldl_cons]
    refine ⟨hd', ?_, ?_⟩
    · rw [hs, hstart err k hd, hend err k hd]
      by_cases hi : i = k
      · subst hi
        rw [if_neg hk, if_pos List.mem_cons_self, Function.update_self]
      · rw [Function.update_of_ne hi, Function.update_of_ne (by omega)]
        simp only [List.mem_cons, hi, false_or]
    · rw [he, hstart err k hd, hend err k hd]
      by_cases hi : i = k
      · subst hi
        rw [if_neg hk, if_pos List.mem_cons_self, Function.update_self]
      · rw [Function.update_of_ne hi, Function.update_of_ne (by omega)]
        simp only [List.mem_cons, hi, false_or]

omit [Zero 𝕜] [LinearOrder 𝕜] in
/-- Every utterance is visited once. -/
theorem nodup_utterancesFrom (a : ℕ) (err : ErrorInfo 𝕜) : (utterancesFrom a err).Nodup :=
  (List.nodup_range').map Nat.cast_injective

/-! ## The passes of `id_utterances` -/

section Passes

variable {sig : Signals 𝕜} {err : ErrorInfo 𝕜} {rs : List Run}

/-- The runs of activity are maximal. -/
theorem isRuns_speechOf (sig : Signals 𝕜) :
    IsRuns (fun i => 0 < sig.VAD i) 0 sig.VAD_length (speechOf sig) := by
  have h := Runs.isRuns_runsFrom (p := fun i => 0 < sig.VAD i) sig.VAD_length 0
  rwa [Nat.zero_add] at h

/-- The scan records the ends of the runs that are utterances. -/
theorem scan_table (hVAD : ∀ i, 0 ≤ sig.VAD i) (hrs : utteranceRuns sig err.Crude_DelayEst = rs)
    {k : ℕ} (hk : k < rs.length) :
    (scan record_start record_end sig err).err.Utt_Start k = (runAt rs k).start ∧
      (scan record_start record_end sig err).err.Utt_End k = lastSeen sig (runAt rs k) := by
  subst hrs
  have hrun : runAt (utteranceRuns sig err.Crude_DelayEst) k =
      (utteranceRuns sig err.Crude_DelayEst)[k] := List.getD_eq_getElem _ _ hk
  have hzero : (k : ℤ) = 0 + k := (zero_add _).symm
  rw [scan_eq_foldl hVAD (isRuns_speechOf sig), hrun, hzero]
  exact ⟨(foldl_scanRun_table ErrorInfo.Utt_Start (fun r => (r.start : ℤ)) (fun _ _ => rfl)
      (speechOf sig) _).2 k hk,
    (foldl_scanRun_table ErrorInfo.Utt_End (fun r => (lastSeen sig r : ℤ)) (fun _ _ => rfl)
      (speechOf sig) _).2 k hk⟩

/-- The ends of the runs, with the outer ends moved. -/
theorem setOuterEnds_table (hVAD : ∀ i, 0 ≤ sig.VAD i)
    (hrs : utteranceRuns sig err.Crude_DelayEst = rs) (hN : err.Nutterances = rs.length) {k : ℕ}
    (hk : k < rs.length) :
    let e := setOuterEnds sig (scan record_start record_end sig err).err
    e.Utt_Start k = (if k = 0 then SEARCHBUFFER else ((runAt rs k).start : ℤ)) ∧
      e.Utt_End k = if k + 1 = rs.length then sig.VAD_length - SEARCHBUFFER
        else (lastSeen sig (runAt rs k) : ℤ) := by
  have hscan : (scan record_start record_end sig err).err.Nutterances = err.Nutterances :=
    scan_frame ErrorInfo.Nutterances (fun _ _ _ => rfl) fun _ _ _ => rfl
  obtain ⟨hs, he⟩ := scan_table hVAD hrs hk
  dsimp only [setOuterEnds]
  rw [hscan, hN]
  constructor
  · split
    · rename_i h
      rw [h]
      exact Function.update_self _ _ _
    · rw [Function.update_of_ne (by omega), hs]
  · split
    · rename_i h
      rw [← h, show ((k + 1 : ℕ) : ℤ) - 1 = k by push_cast; ring]
      exact Function.update_self _ _ _
    · rw [Function.update_of_ne (by omega), he]

/-- The utterances meet at the boundaries. -/
theorem meet_table (hVAD : ∀ i, 0 ≤ sig.VAD i)
    (hrs : utteranceRuns sig err.Crude_DelayEst = rs) (hN : err.Nutterances = rs.length) {k : ℕ}
    (hk : k < rs.length) :
    let e := (utterancesFrom 1 err).foldl meet
      (setOuterEnds sig (scan record_start record_end sig err).err)
    e.Utt_Start k = boundary sig rs k ∧ e.Utt_End k = boundary sig rs (k + 1) := by
  intro e
  have hpairs := foldl_pairs meet (fun _ s e => (s + e).tdiv 2) (fun _ s e => (s + e).tdiv 2)
    (fun _ _ => rfl) (fun _ _ _ => rfl) (fun _ _ _ => rfl) (utterancesFrom 1 err)
    (setOuterEnds sig (scan record_start record_end sig err).err) (nodup_utterancesFrom 1 err) rfl
  -- What the pass makes of the pair at an inner boundary.
  have hinner : ∀ j, j + 1 < rs.length →
      e.Utt_Start (j + 1 : ℕ) = boundary sig rs (j + 1) ∧
        e.Utt_End j = boundary sig rs (j + 1) := by
    intro j hj
    obtain ⟨-, hstart, hend⟩ := hpairs (j + 1 : ℕ)
    have hmem : ((j + 1 : ℕ) : ℤ) ∈ utterancesFrom 1 err := mem_utterancesFrom.mpr (by omega)
    have hprev : ((j + 1 : ℕ) : ℤ) - 1 = j := by push_cast; ring
    obtain ⟨hs, -⟩ := setOuterEnds_table hVAD hrs hN hj
    obtain ⟨-, he⟩ := setOuterEnds_table hVAD hrs hN (show j < rs.length by omega)
    rw [if_pos hmem, hprev, hs, he, if_neg (by omega), if_neg (by omega)] at hstart hend
    rw [boundary, if_neg (by omega), if_neg (by omega)]
    exact ⟨hstart, hend⟩
  -- The first start and the last end are in no pair, and are as `setOuterEnds` left them.
  constructor
  · cases k with
    | zero =>
      have hmem : ((0 : ℕ) : ℤ) ∉ utterancesFrom 1 err := fun h => by
        have := mem_utterancesFrom.mp h
        omega
      obtain ⟨-, hstart, -⟩ := hpairs (0 : ℕ)
      rw [if_neg hmem] at hstart
      exact hstart.trans (setOuterEnds_table hVAD hrs hN hk).1
    | succ j => exact (hinner j hk).1
  · rcases Nat.lt_or_ge (k + 1) rs.length with hlast | hlast
    · exact (hinner k hlast).2
    · have hmem : ((k + 1 : ℕ) : ℤ) ∉ utterancesFrom 1 err := fun h => by
        have := mem_utterancesFrom.mp h
        omega
      have hprev : ((k + 1 : ℕ) : ℤ) - 1 = k := by push_cast; ring
      obtain ⟨-, -, hend⟩ := hpairs (k + 1 : ℕ)
      obtain ⟨-, he⟩ := setOuterEnds_table hVAD hrs hN hk
      rw [if_neg hmem, hprev, he, if_pos (by omega)] at hend
      rw [boundary, if_neg (by omega), if_pos (by omega)]
      exact hend

omit [Zero 𝕜] [LinearOrder 𝕜] in
/-- The outer ends, clamped to the degraded signal. -/
theorem clamp_table (sig : Signals 𝕜) {e : ErrorInfo 𝕜} (hrs : rs ≠ [])
    (hN : e.Nutterances = rs.length) (hstart : e.Utt_Start 0 = boundary sig rs 0)
    (hend : e.Utt_End (rs.length - 1 : ℕ) = boundary sig rs rs.length) :
    let e' := clampEnd sig (clampStart sig e)
    e'.Utt_Delay = e.Utt_Delay ∧
      e'.Utt_Start = Function.update e.Utt_Start 0 (utteranceStart sig rs e.Utt_Delay 0) ∧
      e'.Utt_End = Function.update e.Utt_End (rs.length - 1 : ℕ)
        (utteranceEnd sig rs e.Utt_Delay (rs.length - 1)) := by
  have hpos : 0 < rs.length := List.length_pos_of_ne_nil hrs
  have hb0 : boundary sig rs 0 = SEARCHBUFFER := rfl
  -- An end that needs no clamping is the boundary, so writing it again changes nothing.
  have hfirst : clampStart sig e =
      { e with Utt_Start :=
        Function.update e.Utt_Start 0 (utteranceStart sig rs e.Utt_Delay 0) } := by
    unfold clampStart utteranceStart
    dsimp only
    rw [hstart, hb0, if_pos rfl]
    by_cases hneg : e.Utt_Delay 0 < 0
    · rw [if_pos (by omega), if_pos hneg]
    · rw [if_neg (by omega), if_neg hneg, ← hb0, ← hstart, Function.update_eq_self]
  have hlast : e.Nutterances - 1 = (rs.length - 1 : ℕ) := by omega
  have hsucc : rs.length - 1 + 1 = rs.length := by omega
  dsimp only
  rw [hfirst]
  unfold clampEnd utteranceEnd
  dsimp only
  rw [hlast, hend, hsucc, if_pos rfl]
  split
  · exact ⟨rfl, rfl, rfl⟩
  · rw [← hend, Function.update_eq_self]
    exact ⟨rfl, rfl, rfl⟩

/-- Where two neighbours overlap in the degraded signal. -/
def overlaps (Downsample : ℤ) (delay : ℤ → ℤ) (k start finish : ℤ) : Prop :=
  start * Downsample + delay k < finish * Downsample + delay (k - 1)

instance (Downsample : ℤ) (delay : ℤ → ℤ) (k start finish : ℤ) :
    Decidable (overlaps Downsample delay k start finish) := inferInstanceAs (Decidable (_ < _))

/-- The middle of the overlap. -/
def overlapMiddle (Downsample : ℤ) (delay : ℤ → ℤ) (k start finish : ℤ) : ℤ :=
  (start * Downsample + delay k + (finish * Downsample + delay (k - 1))).tdiv 2

/-- The start of an utterance after it was separated from the one before. -/
def separatedStart (Downsample : ℤ) (delay : ℤ → ℤ) (k start finish : ℤ) : ℤ :=
  if overlaps Downsample delay k start finish then
    (Downsample - 1 + overlapMiddle Downsample delay k start finish - delay k).tdiv Downsample
  else start

/-- The end of the one before. -/
def separatedEnd (Downsample : ℤ) (delay : ℤ → ℤ) (k start finish : ℤ) : ℤ :=
  if overlaps Downsample delay k start finish then
    (overlapMiddle Downsample delay k start finish - delay (k - 1)).tdiv Downsample
  else finish

omit [Zero 𝕜] [LinearOrder 𝕜] in
/-- Separating two neighbours changes two entries of the tables. -/
theorem separate_eq (e : ErrorInfo 𝕜) (k : ℤ) :
    separate sig e k =
      { e with
        Utt_Start := Function.update e.Utt_Start k
          (separatedStart sig.rate.Downsample e.Utt_Delay k (e.Utt_Start k) (e.Utt_End (k - 1)))
        Utt_End := Function.update e.Utt_End (k - 1)
          (separatedEnd sig.rate.Downsample e.Utt_Delay k (e.Utt_Start k)
            (e.Utt_End (k - 1))) } := by
  unfold separate separatedStart separatedEnd
  by_cases h : overlaps sig.rate.Downsample e.Utt_Delay k (e.Utt_Start k) (e.Utt_End (k - 1))
  · have h' : e.Utt_Start k * sig.rate.Downsample + e.Utt_Delay k <
        e.Utt_End (k - 1) * sig.rate.Downsample + e.Utt_Delay (k - 1) := h
    dsimp only
    rw [if_pos h', if_pos h, if_pos h]
    rfl
  · have h' : ¬e.Utt_Start k * sig.rate.Downsample + e.Utt_Delay k <
        e.Utt_End (k - 1) * sig.rate.Downsample + e.Utt_Delay (k - 1) := h
    dsimp only
    rw [if_neg h', if_neg h, if_neg h, Function.update_eq_self, Function.update_eq_self]

omit [Zero 𝕜] [LinearOrder 𝕜] in
/-- The neighbours are separated where they overlap. -/
theorem foldl_separate (sig : Signals 𝕜) (us : List ℤ) (e : ErrorInfo 𝕜) (hus : us.Nodup) (i : ℤ) :
    (us.foldl (separate sig) e).Utt_Start i =
        (if i ∈ us then
          separatedStart sig.rate.Downsample e.Utt_Delay i (e.Utt_Start i) (e.Utt_End (i - 1))
        else e.Utt_Start i) ∧
      (us.foldl (separate sig) e).Utt_End (i - 1) =
        if i ∈ us then
          separatedEnd sig.rate.Downsample e.Utt_Delay i (e.Utt_Start i) (e.Utt_End (i - 1))
        else e.Utt_End (i - 1) :=
  (foldl_pairs (separate sig) (separatedStart sig.rate.Downsample e.Utt_Delay)
    (separatedEnd sig.rate.Downsample e.Utt_Delay) (fun err k => by rw [separate_eq])
    (fun err k hd => by rw [separate_eq, hd]) (fun err k hd => by rw [separate_eq, hd]) us e hus
    rfl i).2

/-- Neighbours that meet at a window overlap where the delay drops. -/
theorem overlaps_iff {Downsample b k : ℤ} {delay : ℤ → ℤ} :
    overlaps Downsample delay k b b ↔ delay k < delay (k - 1) := by
  unfold overlaps
  omega

/-- The middle of their overlap. -/
theorem overlapMiddle_self {Downsample b k : ℤ} {delay : ℤ → ℤ} :
    overlapMiddle Downsample delay k b b = middle Downsample b (delay k) (delay (k - 1)) :=
  rfl

omit [Zero 𝕜] [LinearOrder 𝕜] in
/-- The neighbours that meet at the boundaries, separated. -/
theorem separate_table {us : List ℤ} {e : ErrorInfo 𝕜} (hus : us.Nodup)
    (hmem : ∀ i, i ∈ us ↔ 1 ≤ i ∧ i < rs.length)
    (hstart : ∀ j, j + 1 < rs.length → e.Utt_Start (j + 1 : ℕ) = boundary sig rs (j + 1))
    (hend : ∀ j, j + 1 < rs.length → e.Utt_End j = boundary sig rs (j + 1))
    (hfirst : e.Utt_Start 0 = utteranceStart sig rs e.Utt_Delay 0)
    (hlast : e.Utt_End (rs.length - 1 : ℕ) = utteranceEnd sig rs e.Utt_Delay (rs.length - 1))
    {k : ℕ} (hk : k < rs.length) :
    (us.foldl (separate sig) e).Utt_Start k = utteranceStart sig rs e.Utt_Delay k ∧
      (us.foldl (separate sig) e).Utt_End k = utteranceEnd sig rs e.Utt_Delay k := by
  -- The pass visits the inner boundaries.
  have hinner : ∀ j, j + 1 < rs.length →
      (us.foldl (separate sig) e).Utt_Start (j + 1 : ℕ) =
        utteranceStart sig rs e.Utt_Delay (j + 1) ∧
        (us.foldl (separate sig) e).Utt_End j = utteranceEnd sig rs e.Utt_Delay j := by
    intro j hj
    obtain ⟨hs, he⟩ := foldl_separate sig us e hus (j + 1 : ℕ)
    have hprev : ((j + 1 : ℕ) : ℤ) - 1 = j := by push_cast; ring
    rw [if_pos ((hmem _).mpr (by omega)), hprev, hstart j hj, hend j hj] at hs he
    simp only [separatedStart, separatedEnd, overlaps_iff, overlapMiddle_self, hprev] at hs he
    refine ⟨hs.trans ?_, he.trans ?_⟩
    · rw [utteranceStart, if_neg (Nat.succ_ne_zero j), hprev]
    · rw [utteranceEnd, if_neg (show ¬j + 1 = rs.length by omega)]
      rfl
  -- The first start and the last end are in no pair.
  constructor
  · cases k with
    | zero =>
      have hzero : ((0 : ℕ) : ℤ) ∉ us := fun h => by
        have := (hmem _).mp h
        omega
      have hs := (foldl_separate sig us e hus (0 : ℕ)).1
      rw [if_neg hzero] at hs
      exact hs.trans hfirst
    | succ j => exact (hinner j hk).1
  · rcases Nat.lt_or_ge (k + 1) rs.length with hnext | hnext
    · exact (hinner k hnext).2
    · obtain rfl : k = rs.length - 1 := by omega
      have hout : ((rs.length - 1 : ℕ) : ℤ) + 1 ∉ us := fun h => by
        have := (hmem _).mp h
        omega
      have hend' := (foldl_separate sig us e hus ((rs.length - 1 : ℕ) + 1)).2
      rw [add_sub_cancel_right, if_neg hout] at hend'
      exact hend'.trans hlast

/-- The ends of the utterances. -/
theorem id_utterances_table (hVAD : ∀ i, 0 ≤ sig.VAD i)
    (hrs : utteranceRuns sig err.Crude_DelayEst = rs) (hN : err.Nutterances = rs.length) {k : ℕ}
    (hk : k < rs.length) :
    (id_utterances sig err).err.Utt_Start k = utteranceStart sig rs err.Utt_Delay k ∧
      (id_utterances sig err).err.Utt_End k = utteranceEnd sig rs err.Utt_Delay k := by
  have hne : rs ≠ [] := fun h => by simp [h] at hk
  -- The delays and the count are read by the last passes and changed by none.
  have hscan : (scan record_start record_end sig err).err.Utt_Delay = err.Utt_Delay :=
    scan_frame ErrorInfo.Utt_Delay (fun _ _ _ => rfl) fun _ _ _ => rfl
  have hcount : (scan record_start record_end sig err).err.Nutterances = err.Nutterances :=
    scan_frame ErrorInfo.Nutterances (fun _ _ _ => rfl) fun _ _ _ => rfl
  have hmeet : ∀ j < rs.length, _ := fun j hj => meet_table hVAD hrs hN hj
  have hdelay := foldl_frame ErrorInfo.Utt_Delay meet (fun _ _ => rfl) (utterancesFrom 1 err)
    (setOuterEnds sig (scan record_start record_end sig err).err)
  have hNutterances := foldl_frame ErrorInfo.Nutterances meet (fun _ _ => rfl)
    (utterancesFrom 1 err) (setOuterEnds sig (scan record_start record_end sig err).err)
  -- The passes behind the one that makes the utterances meet start from any tables with its result.
  show ((utterancesFrom 1 err).foldl (separate sig) (clampEnd sig (clampStart sig
      ((utterancesFrom 1 err).foldl meet
        (setOuterEnds sig (scan record_start record_end sig err).err))))).Utt_Start k = _ ∧
    ((utterancesFrom 1 err).foldl (separate sig) (clampEnd sig (clampStart sig
      ((utterancesFrom 1 err).foldl meet
        (setOuterEnds sig (scan record_start record_end sig err).err))))).Utt_End k = _
  dsimp only at hmeet
  generalize (utterancesFrom 1 err).foldl meet
    (setOuterEnds sig (scan record_start record_end sig err).err) = e at *
  have hd : e.Utt_Delay = err.Utt_Delay := hdelay.trans hscan
  have hn : e.Nutterances = rs.length :=
    calc e.Nutterances = (scan record_start record_end sig err).err.Nutterances := hNutterances
      _ = err.Nutterances := hcount
      _ = rs.length := hN
  obtain ⟨hd', hs, he⟩ := clamp_table sig hne hn (hmeet 0 (by omega)).1
    (by rw [(hmeet (rs.length - 1) (by omega)).2, Nat.sub_add_cancel (by omega)])
  rw [← hd, ← hd']
  refine separate_table (nodup_utterancesFrom 1 err) (fun i => ?_) (fun j hj => ?_) (fun j hj => ?_)
    ?_ ?_ hk
  · rw [mem_utterancesFrom, hN]
    rfl
  · rw [hs, Function.update_of_ne (by omega)]
    exact (hmeet (j + 1) hj).1
  · rw [he, Function.update_of_ne (by omega)]
    exact (hmeet j (by omega)).2
  · rw [hs, hd', Function.update_self]
  · rw [he, hd', Function.update_self]

end Passes

/-! ## The invariant of the table -/

/-- A quotient is at most a bound whose multiple the dividend does not exceed. -/
theorem tdiv_le_of_le_mul {b D x : ℤ} (hD : 0 < D) (h : x ≤ b * D) : x.tdiv D ≤ b :=
  calc x.tdiv D ≤ (b * D).tdiv D := Int.tdiv_le_tdiv hD h
    _ = b := Int.mul_tdiv_cancel b hD.ne'

/-- The middle of an overlap lies between its ends. -/
theorem middle_mem (Downsample b : ℤ) {d d' : ℤ} (h : d < d') :
    b * Downsample + d ≤ middle Downsample b d d' ∧
      middle Downsample b d d' ≤ b * Downsample + d' := by
  unfold middle
  constructor
  · exact Int.le_tdiv_of_mul_le (by omega) (by omega)
  · exact tdiv_le_of_le_mul (by omega) (by omega)

/-- The live entries of the tables of utterances are in order: each utterance lies in the signal,
and none starts before the one in front of it. -/
structure TableInvariant (sig : Signals 𝕜) (err : ErrorInfo 𝕜) : Prop where
  nonneg : ∀ i, 0 ≤ i → i < err.Nutterances → 0 ≤ err.Utt_Start i
  start_le_end : ∀ i, 0 ≤ i → i < err.Nutterances → err.Utt_Start i ≤ err.Utt_End i
  le_length : ∀ i, 0 ≤ i → i < err.Nutterances → err.Utt_End i ≤ sig.VAD_length
  sorted : ∀ i, 0 ≤ i → i + 1 < err.Nutterances → err.Utt_Start i ≤ err.Utt_Start (i + 1)

section Invariant

variable {sig : Signals 𝕜} {rs : List Run} {delay : ℤ → ℤ}

omit [Zero 𝕜] [LinearOrder 𝕜] in
/-- The first utterance does not start before the padding of the signal ends. -/
theorem utteranceStart_zero (hD : 0 < sig.rate.Downsample) :
    SEARCHBUFFER ≤ utteranceStart sig rs delay 0 := by
  unfold utteranceStart
  rw [if_pos rfl]
  split
  · have : 0 ≤ (sig.rate.Downsample - 1 - delay 0).tdiv sig.rate.Downsample :=
      Int.tdiv_nonneg (by omega) hD.le
    omega
  · exact le_refl _

omit [Zero 𝕜] [LinearOrder 𝕜] in
/-- An utterance does not start before its boundary. -/
theorem boundary_le_utteranceStart (hD : 0 < sig.rate.Downsample) (k : ℕ) :
    boundary sig rs (k + 1) ≤ utteranceStart sig rs delay (k + 1) := by
  unfold utteranceStart
  rw [if_neg (Nat.succ_ne_zero k)]
  split
  · rename_i h
    have hmid := (middle_mem sig.rate.Downsample (boundary sig rs (k + 1)) h).1
    exact Int.le_tdiv_of_mul_le hD (by omega)
  · exact le_refl _

omit [Zero 𝕜] [LinearOrder 𝕜] in
/-- An utterance before another one does not end after their boundary. -/
theorem utteranceEnd_le_boundary (hD : 0 < sig.rate.Downsample) {k : ℕ} (hk : k + 1 < rs.length) :
    utteranceEnd sig rs delay k ≤ boundary sig rs (k + 1) := by
  unfold utteranceEnd
  rw [if_neg (by omega)]
  split
  · rename_i h
    have hmid := (middle_mem sig.rate.Downsample (boundary sig rs (k + 1)) h).2
    exact tdiv_le_of_le_mul hD (by omega)
  · exact le_refl _

omit [Zero 𝕜] [LinearOrder 𝕜] in
/-- A boundary lies in the signal. -/
theorem boundary_le_length (hrs : ∀ r ∈ rs, r.start ≤ sig.VAD_length) {k : ℕ} (hk : k < rs.length) :
    boundary sig rs (k + 1) ≤ sig.VAD_length := by
  unfold boundary
  rw [if_neg (Nat.succ_ne_zero k)]
  split
  · unfold SEARCHBUFFER
    omega
  · -- An inner boundary is in the middle between two windows of the signal.
    have hrun : runAt rs (k + 1) ∈ rs := by
      unfold runAt
      rw [List.getD_eq_getElem _ _ (show k + 1 < rs.length by omega)]
      exact List.getElem_mem _
    have hstart := hrs _ hrun
    have hlast : lastSeen sig (runAt rs (k + 1 - 1)) ≤ sig.VAD_length := by
      unfold lastSeen
      omega
    exact tdiv_le_of_le_mul (by omega) (by omega)

omit [Zero 𝕜] [LinearOrder 𝕜] in
/-- An utterance does not end after the signal. -/
theorem utteranceEnd_le_length (hD : 0 < sig.rate.Downsample)
    (hrs : ∀ r ∈ rs, r.start ≤ sig.VAD_length) {k : ℕ} (hk : k < rs.length) :
    utteranceEnd sig rs delay k ≤ sig.VAD_length := by
  have hb := boundary_le_length hrs hk
  rcases Nat.lt_or_ge (k + 1) rs.length with hnext | hnext
  · calc utteranceEnd sig rs delay k
        ≤ boundary sig rs (k + 1) := utteranceEnd_le_boundary hD hnext
      _ ≤ sig.VAD_length := hb
  · have hlast : k + 1 = rs.length := by omega
    have hbound : boundary sig rs (k + 1) = sig.VAD_length - SEARCHBUFFER := by
      unfold boundary
      rw [if_neg (Nat.succ_ne_zero k), if_pos hlast]
    unfold utteranceEnd
    rw [if_pos hlast]
    split
    · rename_i h
      rw [hbound] at h
      -- The clamped end lies in front of the end that was too late.
      have hquot : (sig.deg_Nsamples - delay k).tdiv sig.rate.Downsample ≤ sig.VAD_length :=
        tdiv_le_of_le_mul hD (by linarith)
      unfold SEARCHBUFFER
      omega
    · exact hb

/-- The runs that are utterances lie in the signal. -/
theorem start_le_length {Crude_DelayEst : ℤ} :
    ∀ r ∈ utteranceRuns sig Crude_DelayEst, r.start ≤ sig.VAD_length := by
  intro r hr
  have hb := (isRuns_speechOf sig).bounds r (List.mem_filter.mp hr).1
  have := r.lt
  omega

/-- After `id_utterances` the table is in order exactly if every utterance has room between its
ends. -/
theorem tableInvariant_id_utterances_iff {err : ErrorInfo 𝕜} (hVAD : ∀ i, 0 ≤ sig.VAD i)
    (hD : 0 < sig.rate.Downsample) (hrs : utteranceRuns sig err.Crude_DelayEst = rs)
    (hN : err.Nutterances = rs.length) :
    TableInvariant sig (id_utterances sig err).err ↔
      ∀ k < rs.length, utteranceStart sig rs err.Utt_Delay k ≤
        utteranceEnd sig rs err.Utt_Delay k := by
  have hcount : (id_utterances sig err).err.Nutterances = rs.length :=
    (id_utterances_Nutterances sig err).trans hN
  have htable : ∀ k < rs.length, _ := fun k hk => id_utterances_table hVAD hrs hN hk
  have hlength : ∀ r ∈ rs, r.start ≤ sig.VAD_length := hrs ▸ start_le_length
  constructor
  · intro h k hk
    rw [← (htable k hk).1, ← (htable k hk).2]
    exact h.start_le_end k (by omega) (by omega)
  · intro h
    -- The starts grow: between two neighbours lies their boundary.
    have hnext : ∀ k, k + 1 < rs.length →
        utteranceStart sig rs err.Utt_Delay k ≤ utteranceStart sig rs err.Utt_Delay (k + 1) :=
      fun k hk =>
        calc utteranceStart sig rs err.Utt_Delay k
            ≤ utteranceEnd sig rs err.Utt_Delay k := h k (by omega)
          _ ≤ boundary sig rs (k + 1) := utteranceEnd_le_boundary hD hk
          _ ≤ utteranceStart sig rs err.Utt_Delay (k + 1) := boundary_le_utteranceStart hD k
    have hnonneg : ∀ k, k < rs.length → 0 ≤ utteranceStart sig rs err.Utt_Delay k := by
      intro k
      induction k with
      | zero => exact fun _ => (show (0 : ℤ) ≤ 75 by omega).trans (utteranceStart_zero hD)
      | succ k ih => exact fun hk => (ih (by omega)).trans (hnext k hk)
    refine ⟨fun i hi hiN => ?_, fun i hi hiN => ?_, fun i hi hiN => ?_, fun i hi hiN => ?_⟩
    all_goals
      obtain ⟨k, rfl⟩ := Int.eq_ofNat_of_zero_le hi
      have hk : k < rs.length := by omega
    · rw [(htable k hk).1]
      exact hnonneg k hk
    · rw [(htable k hk).1, (htable k hk).2]
      exact h k hk
    · rw [(htable k hk).2]
      exact utteranceEnd_le_length hD hlength hk
    · have hk' : k + 1 < rs.length := by omega
      rw [(htable k hk).1, show (k : ℤ) + 1 = (k + 1 : ℕ) by push_cast; ring,
        (htable (k + 1) hk').1]
      exact hnext k hk'

end Invariant

end TgVoipRate.Pesq
