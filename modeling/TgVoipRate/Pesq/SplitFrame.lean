import Mathlib.Algebra.Order.Ring.Rat
import TgVoipRate.Pesq.SplitSpec

/-!
# The other utterances at a split

A split puts two parts in the place of an utterance and moves those behind it up by one slot. Five
of the seven tables are moved as they are (`split_insertParts`). The two tables of search windows
are not: their moved entries are the ends of the utterances (`split_search`). So the other
utterances keep all their fields exactly if the search windows of those behind are their ends
already (`splitStep_keepsOthers_iff`).
-/

namespace TgVoipRate.Pesq

variable {𝕜 : Type*}

/-! ## Tables that are moved -/

/-- A table with an entry replaced by two, and the entries behind it moved up. -/
def insertParts {α : Type*} (T : ℤ → α) (N Utt_id : ℤ) (x y : α) (i : ℤ) : α :=
  if i = Utt_id then x
  else if i = Utt_id + 1 then y
  else if Utt_id + 1 < i ∧ i ≤ N then T (i - 1)
  else T i

/-- The entries before stay. -/
theorem insertParts_before {α : Type*} (T : ℤ → α) {N Utt_id i : ℤ} (x y : α) (hi : i < Utt_id) :
    insertParts T N Utt_id x y i = T i := by
  unfold insertParts
  rw [if_neg (by omega), if_neg (by omega), if_neg (by omega)]

/-- The entries behind move up. -/
theorem insertParts_behind {α : Type*} (T : ℤ → α) {N Utt_id i : ℤ} (x y : α) (hi : Utt_id < i)
    (hN : i < N) : insertParts T N Utt_id x y (i + 1) = T i := by
  unfold insertParts
  rw [if_neg (by omega), if_neg (by omega), if_pos (by omega), add_sub_cancel_right]

/-- Each entry is a new one, or an old one. -/
theorem insertParts_forall {α : Type*} {P : α → Prop} {T : ℤ → α} {N M Utt_id i : ℤ} {x y : α}
    (hx : P x) (hy : P y) (hT : ∀ j, 0 ≤ j → j < M → P (T j)) (hid : 0 ≤ Utt_id) (hN : Utt_id < N)
    (hi : 0 ≤ i) (hM : i < M ∨ i = N ∧ N ≤ M) : P (insertParts T N Utt_id x y i) := by
  unfold insertParts
  split
  · exact hx
  · split
    · exact hy
    · split
      · exact hT (i - 1) (by omega) (by omega)
      · exact hT i hi (by omega)

/-- Two entries written where room was made. -/
theorem update_update_room {α : Type*} {T room : ℤ → α} {N Utt_id : ℤ}
    (hroom : ∀ i, room i = if Utt_id + 1 < i ∧ i ≤ N then T (i - 1) else T i) (x y : α) :
    Function.update (Function.update room Utt_id x) (Utt_id + 1) y =
      insertParts T N Utt_id x y := by
  funext i
  unfold insertParts
  by_cases hfirst : i = Utt_id
  · rw [if_pos hfirst, Function.update_of_ne (by omega), hfirst, Function.update_self]
  · rw [if_neg hfirst]
    by_cases hsecond : i = Utt_id + 1
    · rw [if_pos hsecond, hsecond, Function.update_self]
    · rw [if_neg hsecond, Function.update_of_ne hsecond, Function.update_of_ne hfirst, hroom]

/-- Moving an utterance up copies its ends to the search window of the next slot. -/
theorem shiftUp_search (err : ErrorInfo 𝕜) (step : ℤ) :
    (shiftUp err step).UttSearch_Start =
        Function.update err.UttSearch_Start (step + 1) (err.Utt_Start step) ∧
      (shiftUp err step).UttSearch_End =
        Function.update err.UttSearch_End (step + 1) (err.Utt_End step) := by
  have hne : step ≠ step + 1 := by omega
  unfold shiftUp
  dsimp only
  rw [Function.update_of_ne hne, Function.update_of_ne hne]
  exact ⟨rfl, rfl⟩

section Split

variable [Zero 𝕜] [LinearOrder 𝕜] (sig : Signals 𝕜) (res : SplitResult 𝕜) {err : ErrorInfo 𝕜}
  {Utt_id : ℤ}

omit [Zero 𝕜] [LinearOrder 𝕜] in
/-- The delays and confidences after a split. -/
theorem split_insertParts (hid : Utt_id < err.Nutterances) :
    (split sig res Utt_id err).Utt_DelayEst =
        insertParts err.Utt_DelayEst err.Nutterances Utt_id res.Best_ED1 res.Best_ED2 ∧
      (split sig res Utt_id err).Utt_Delay =
        insertParts err.Utt_Delay err.Nutterances Utt_id res.Best_D1 res.Best_D2 ∧
      (split sig res Utt_id err).Utt_DelayConf =
        insertParts err.Utt_DelayConf err.Nutterances Utt_id res.Best_DC1 res.Best_DC2 := by
  unfold split setParts
  dsimp only
  rw [clampPartStart_eq, clampPartEnd_eq]
  exact ⟨update_update_room (makeRoom_table ErrorInfo.Utt_DelayEst (fun _ _ => rfl)
      (fun _ _ => rfl) err hid) _ _,
    update_update_room (makeRoom_table ErrorInfo.Utt_Delay (fun _ _ => rfl)
      (fun _ _ => rfl) err hid) _ _,
    update_update_room (makeRoom_table ErrorInfo.Utt_DelayConf (fun _ _ => rfl)
      (fun _ _ => rfl) err hid) _ _⟩

omit [Zero 𝕜] [LinearOrder 𝕜] in
/-- The search windows after a split: the moved entries are the ends of the utterances. -/
theorem split_search (hid : Utt_id < err.Nutterances) {i : ℤ} (hi : i ≠ Utt_id + 1) :
    (split sig res Utt_id err).UttSearch_Start i =
        (if Utt_id + 1 < i ∧ i ≤ err.Nutterances then err.Utt_Start (i - 1)
        else err.UttSearch_Start i) ∧
      (split sig res Utt_id err).UttSearch_End i =
        if Utt_id + 1 < i ∧ i ≤ err.Nutterances then err.Utt_End (i - 1)
        else err.UttSearch_End i := by
  unfold split setParts
  dsimp only
  rw [clampPartStart_eq, clampPartEnd_eq]
  dsimp only
  rw [Function.update_of_ne hi, Function.update_of_ne hi]
  exact ⟨makeRoom_copied ErrorInfo.Utt_Start ErrorInfo.UttSearch_Start
      (fun _ _ => rfl) (fun err step => (shiftUp_search err step).1) (fun _ _ => rfl) err hid i,
    makeRoom_copied ErrorInfo.Utt_End ErrorInfo.UttSearch_End
      (fun _ _ => rfl) (fun err step => (shiftUp_search err step).2) (fun _ _ => rfl) err hid i⟩

/-! ## The other utterances -/

/-- The entries of an utterance in the tables. -/
@[ext]
structure Utterance (𝕜 : Type*) where
  UttSearch_Start : ℤ
  UttSearch_End : ℤ
  Utt_DelayEst : ℤ
  Utt_Delay : ℤ
  Utt_DelayConf : 𝕜
  Utt_Start : ℤ
  Utt_End : ℤ

/-- The utterance in a slot. -/
def ErrorInfo.utterance (err : ErrorInfo 𝕜) (i : ℤ) : Utterance 𝕜 where
  UttSearch_Start := err.UttSearch_Start i
  UttSearch_End := err.UttSearch_End i
  Utt_DelayEst := err.Utt_DelayEst i
  Utt_Delay := err.Utt_Delay i
  Utt_DelayConf := err.Utt_DelayConf i
  Utt_Start := err.Utt_Start i
  Utt_End := err.Utt_End i

/-- There is one utterance more; those before a slot are unchanged, and those behind it sit one slot
further up. -/
structure KeepsOthers (Utt_id : ℤ) (err err' : ErrorInfo 𝕜) : Prop where
  /-- The utterance is split in two. -/
  count : err'.Nutterances = err.Nutterances + 1
  /-- The utterances before it. -/
  before : ∀ i, 0 ≤ i → i < Utt_id → err'.utterance i = err.utterance i
  /-- The utterances behind it. -/
  behind : ∀ i, Utt_id < i → i < err.Nutterances → err'.utterance (i + 1) = err.utterance i

/-- The search windows of the utterances behind a slot are their ends. -/
def SearchIsEnds (Utt_id : ℤ) (err : ErrorInfo 𝕜) : Prop :=
  ∀ i, Utt_id < i → i < err.Nutterances →
    err.UttSearch_Start i = err.Utt_Start i ∧ err.UttSearch_End i = err.Utt_End i

omit [Zero 𝕜] [LinearOrder 𝕜] in
/-- The utterances before a split. -/
theorem split_utterance_before (hid : Utt_id < err.Nutterances) {i : ℤ} (hi : i < Utt_id) :
    (split sig res Utt_id err).utterance i = err.utterance i := by
  obtain ⟨hEst, hDelay, hConf⟩ := split_insertParts sig res hid
  obtain ⟨hsearch, hsearch'⟩ := split_search sig res hid (show i ≠ Utt_id + 1 by omega)
  obtain ⟨hstart, hend⟩ := split_table_before sig res hid hi
  rw [if_neg (by omega)] at hsearch hsearch'
  unfold ErrorInfo.utterance
  rw [hEst, hDelay, hConf, hsearch, hsearch', hstart, hend, insertParts_before _ _ _ hi,
    insertParts_before _ _ _ hi, insertParts_before _ _ _ hi]

omit [Zero 𝕜] [LinearOrder 𝕜] in
/-- The utterances behind a split: their search windows become their ends. -/
theorem split_utterance_behind (hid : Utt_id < err.Nutterances) {i : ℤ} (hi : Utt_id < i)
    (hN : i < err.Nutterances) :
    (split sig res Utt_id err).utterance (i + 1) =
      { err.utterance i with
        UttSearch_Start := err.Utt_Start i
        UttSearch_End := err.Utt_End i } := by
  obtain ⟨hEst, hDelay, hConf⟩ := split_insertParts sig res hid
  obtain ⟨hsearch, hsearch'⟩ := split_search sig res hid (show i + 1 ≠ Utt_id + 1 by omega)
  obtain ⟨hstart, hend⟩ := split_table_behind sig res hid hi hN
  rw [if_pos (by omega), add_sub_cancel_right] at hsearch hsearch'
  unfold ErrorInfo.utterance
  rw [hEst, hDelay, hConf, hsearch, hsearch', hstart, hend, insertParts_behind _ _ _ hi hN,
    insertParts_behind _ _ _ hi hN, insertParts_behind _ _ _ hi hN]

omit [Zero 𝕜] [LinearOrder 𝕜] in
/-- A split keeps the other utterances exactly if the search windows of those behind are their
ends. -/
theorem split_keepsOthers_iff (hid : Utt_id < err.Nutterances) :
    KeepsOthers Utt_id err (split sig res Utt_id err) ↔ SearchIsEnds Utt_id err := by
  constructor
  · intro h i hi hN
    have hmoved := (split_utterance_behind sig res hid hi hN).symm.trans (h.behind i hi hN)
    exact ⟨(congrArg Utterance.UttSearch_Start hmoved).symm,
      (congrArg Utterance.UttSearch_End hmoved).symm⟩
  · intro h
    refine ⟨split_Nutterances sig res Utt_id err,
      fun i _ hi => split_utterance_before sig res hid hi, fun i hi hN => ?_⟩
    obtain ⟨hstart, hend⟩ := h i hi hN
    calc (split sig res Utt_id err).utterance (i + 1)
        = { err.utterance i with
            UttSearch_Start := err.Utt_Start i
            UttSearch_End := err.Utt_End i } := split_utterance_behind sig res hid hi hN
      _ = err.utterance i := by
          rw [← hstart, ← hend]
          rfl

omit [Zero 𝕜] [LinearOrder 𝕜] in
/-- The last slot, when no utterance is in it, may hold anything. -/
theorem useTestSlot_utterance (err : ErrorInfo 𝕜) {i : ℤ} (hi : i < MAXNUTTERANCES - 1) :
    (useTestSlot res err).utterance i = err.utterance i := by
  have hne : i ≠ MAXNUTTERANCES - 1 := hi.ne
  unfold useTestSlot ErrorInfo.utterance
  dsimp only
  simp only [Function.update_of_ne hne]

/-- The step splits the current utterance. -/
def Splits (split_align : SplitAlign 𝕜) (sig : Signals 𝕜) (s : SplitState 𝕜) : Prop :=
  (s.args sig).Utt_Len ≥ 200 ∧ (split_align s.err (s.args sig)).isBetter (s.args sig)

/-- The tables after a step that splits. -/
theorem splitStep_of_splits {split_align : SplitAlign 𝕜} {sig : Signals 𝕜} {s : SplitState 𝕜}
    (h : Splits split_align sig s) :
    (splitStep split_align sig s).err =
      split sig (split_align s.err (s.args sig)) s.Utt_id
        (useTestSlot (split_align s.err (s.args sig)) s.err) := by
  unfold splitStep
  dsimp only
  rw [if_pos h.1, if_pos h.2]

/-- A step of `utterance_split` that splits an utterance keeps the other ones exactly if the search
windows of those behind are their ends. -/
theorem splitStep_keepsOthers_iff (split_align : SplitAlign 𝕜) (sig : Signals 𝕜) (s : SplitState 𝕜)
    (hrunning : s.Running) (hsplits : Splits split_align sig s) :
    KeepsOthers s.Utt_id s.err (splitStep split_align sig s).err ↔ SearchIsEnds s.Utt_id s.err := by
  rw [splitStep_of_splits hsplits]
  generalize split_align s.err (s.args sig) = res
  -- No utterance is in the last slot.
  have hslot : ∀ i, i < s.err.Nutterances →
      (useTestSlot res s.err).utterance i = s.err.utterance i :=
    fun i hi => useTestSlot_utterance res s.err (by have := hrunning.2; omega)
  have hkeeps : KeepsOthers s.Utt_id s.err (split sig res s.Utt_id (useTestSlot res s.err)) ↔
      KeepsOthers s.Utt_id (useTestSlot res s.err)
        (split sig res s.Utt_id (useTestSlot res s.err)) := by
    refine ⟨fun h => ⟨h.count, fun i h0 hi => ?_, fun i hi hN => ?_⟩,
      fun h => ⟨h.count, fun i h0 hi => ?_, fun i hi hN => ?_⟩⟩
    · exact (h.before i h0 hi).trans (hslot i (hi.trans hrunning.1)).symm
    · exact (h.behind i hi hN).trans (hslot i hN).symm
    · exact (h.before i h0 hi).trans (hslot i (hi.trans hrunning.1))
    · exact (h.behind i hi hN).trans (hslot i hN)
  have hends : SearchIsEnds s.Utt_id (useTestSlot res s.err) ↔ SearchIsEnds s.Utt_id s.err := by
    refine forall_congr' fun i => forall_congr' fun _ => forall_congr' fun hN => ?_
    have hsame := hslot i hN
    rw [show (useTestSlot res s.err).UttSearch_Start i = s.err.UttSearch_Start i from
        congrArg Utterance.UttSearch_Start hsame,
      show (useTestSlot res s.err).UttSearch_End i = s.err.UttSearch_End i from
        congrArg Utterance.UttSearch_End hsame]
    rfl
  rw [hkeeps, hends.symm]
  exact split_keepsOthers_iff sig res hrunning.1

end Split

/-! ## Two utterances -/

/-- Two utterances that meet at window 400, the second one with a search window. -/
def twoUtterances (search_start search_end : ℤ) : ErrorInfo ℚ where
  Nutterances := 2
  Largest_uttsize := 325
  Crude_DelayEst := 0
  UttSearch_Start i := if i = 0 then 15 else search_start
  UttSearch_End i := if i = 0 then 465 else search_end
  Utt_DelayEst _ := 0
  Utt_Delay _ := 0
  Utt_DelayConf _ := 1 / 2
  Utt_Start i := if i = 0 then 75 else 400
  Utt_End i := if i = 0 then 400 else 700

/-- Signals of 800 windows, all with speech. -/
def allSpeech : Signals ℚ where
  rate := rate_16k
  VAD _ := 1
  ref_Nsamples := 51200
  deg_Nsamples := 51200

/-- Splits an utterance in halves with full confidence. -/
def halve : SplitAlign ℚ := fun _ a =>
  { Best_ED1 := 0
    Best_D1 := 0
    Best_DC1 := 1
    Best_ED2 := 0
    Best_D2 := 128
    Best_DC2 := 1
    Best_BP := (a.Utt_Start + a.Utt_End).tdiv 2
    test_DelayEst := 0
    test_Delay := 0
    test_Start := 0
    test_End := 0 }

/-- The first one of two utterances is split. -/
theorem splits_twoUtterances (search_start search_end : ℤ) :
    Splits halve allSpeech { err := twoUtterances search_start search_end, Utt_id := 0 } := by
  have hspeech : ∀ i : ℤ, ¬allSpeech.VAD i.toNat ≤ 0 := fun i => not_le.mpr (zero_lt_one (α := ℚ))
  have hstart : speechStart allSpeech.VAD 400 75 = 75 := by
    rw [speechStart, if_neg fun h => hspeech 75 h.2]
  have hend : speechEnd allSpeech.VAD 75 400 = 400 := by
    rw [speechEnd, if_neg fun h => hspeech 400 h.2]
  refine ⟨?_, ?_⟩
  · show speechEnd allSpeech.VAD 75 400 + 1 - speechStart allSpeech.VAD 400 75 ≥ 200
    rw [hstart, hend]
    decide
  · have hhalf : (1 : ℚ) > 1 / 2 := by decide +kernel
    exact ⟨hhalf, hhalf⟩

/-- The second utterance, whose search window is its ends, is kept. -/
theorem splitStep_keepsOthers_ends :
    KeepsOthers 0 (twoUtterances 400 700)
      (splitStep halve allSpeech { err := twoUtterances 400 700, Utt_id := 0 }).err :=
  (splitStep_keepsOthers_iff halve allSpeech { err := twoUtterances 400 700, Utt_id := 0 }
    (by decide) (splits_twoUtterances 400 700)).mpr fun i hi hN => by
      have hsecond : i ≠ 0 := ne_of_gt hi
      exact ⟨(if_neg hsecond).trans (if_neg hsecond).symm,
        (if_neg hsecond).trans (if_neg hsecond).symm⟩

/-- The search window of the second utterance, which is wider than the utterance, is lost. -/
theorem splitStep_loses_search :
    Splits halve allSpeech { err := twoUtterances 335 765, Utt_id := 0 } ∧
      ¬KeepsOthers 0 (twoUtterances 335 765)
        (splitStep halve allSpeech { err := twoUtterances 335 765, Utt_id := 0 }).err := by
  have hsplits := splits_twoUtterances 335 765
  refine ⟨hsplits, fun hkeeps => ?_⟩
  have hsearch : (splitStep halve allSpeech
      { err := twoUtterances 335 765, Utt_id := 0 }).err.UttSearch_Start 2 = 400 := by
    rw [splitStep_of_splits hsplits]
    exact (split_search allSpeech _ (by decide) (by decide)).1
  have hkept := congrArg Utterance.UttSearch_Start (hkeeps.behind 1 (by decide) (by decide))
  exact absurd (hsearch.symm.trans hkept) (by decide)

end TgVoipRate.Pesq
