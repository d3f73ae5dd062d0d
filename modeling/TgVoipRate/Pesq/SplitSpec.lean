import TgVoipRate.Pesq.LocateSpec
import TgVoipRate.Pesq.TableSpec

/-!
# The table of utterances while utterances are split

A split changes the table of utterances in a known way (`split_table`): the utterance becomes its
two parts, those behind it move up by one slot. So the table stays in order exactly if the ends of
the two parts are (`tableInvariant_split_iff`), and it is in order along a whole run of
`utterance_split` exactly if `id_utterances` left it in order and each split of the run keeps it so
(`keepsOrder_iff`).
-/

namespace TgVoipRate.Pesq

open Runs (Run IsRuns)

/-! ## Moving utterances -/

section Split

variable {𝕜 : Type*}

/-- Copying the entries of one table up into another one, from the last one down, while the first
one is moved itself. -/
theorem foldl_copyUp {α : Type*} {src dest : ErrorInfo 𝕜 → ℤ → α}
    (hsrc : ∀ err step, src (shiftUp err step) =
      Function.update (src err) (step + 1) (src err step))
    (hdest : ∀ err step, dest (shiftUp err step) =
      Function.update (dest err) (step + 1) (src err step)) (N : ℤ) (err : ErrorInfo 𝕜) (m : ℕ) :
    ∀ i : ℤ,
      src (((List.range m).map fun k : ℕ => N - 1 - (k : ℤ)).foldl shiftUp err) i =
          (if N - m < i ∧ i ≤ N then src err (i - 1) else src err i) ∧
        dest (((List.range m).map fun k : ℕ => N - 1 - (k : ℤ)).foldl shiftUp err) i =
          if N - m < i ∧ i ≤ N then src err (i - 1) else dest err i := by
  induction m with
  | zero =>
    intro i
    rw [if_neg (by omega), if_neg (by omega)]
    exact ⟨rfl, rfl⟩
  | succ m ih =>
    intro i
    rw [List.range_succ, List.map_append, List.foldl_append]
    simp only [List.map_cons, List.map_nil, List.foldl_cons, List.foldl_nil]
    rw [hsrc, hdest]
    -- The entry that is copied now was not moved before.
    have hstep := (ih (N - 1 - m)).1
    rw [if_neg (by omega)] at hstep
    by_cases hi : i = N - 1 - m + 1
    · subst hi
      rw [Function.update_self, Function.update_self, hstep, if_pos (by omega), if_pos (by omega),
        add_sub_cancel_right]
      exact ⟨rfl, rfl⟩
    · rw [Function.update_of_ne hi, Function.update_of_ne hi, (ih i).1, (ih i).2]
      by_cases hmoved : N - m < i ∧ i ≤ N
      · rw [if_pos hmoved, if_pos hmoved, if_pos (by omega), if_pos (by omega)]
        exact ⟨rfl, rfl⟩
      · rw [if_neg hmoved, if_neg hmoved, if_neg (by omega), if_neg (by omega)]
        exact ⟨rfl, rfl⟩

/-- The entries of a table that is filled from another one while room is made. -/
theorem makeRoom_copied {α : Type*} (src dest : ErrorInfo 𝕜 → ℤ → α)
    (hsrc : ∀ err step, src (shiftUp err step) =
      Function.update (src err) (step + 1) (src err step))
    (hdest : ∀ err step, dest (shiftUp err step) =
      Function.update (dest err) (step + 1) (src err step))
    (hcount : ∀ err N, dest { err with Nutterances := N } = dest err)
    (err : ErrorInfo 𝕜) {Utt_id : ℤ} (hid : Utt_id < err.Nutterances) (i : ℤ) :
    dest (makeRoom Utt_id err) i =
      if Utt_id + 1 < i ∧ i ≤ err.Nutterances then src err (i - 1) else dest err i := by
  have hfold := (foldl_copyUp hsrc hdest err.Nutterances err
    (err.Nutterances - 1 - Utt_id).toNat i).2
  have hm : err.Nutterances - ((err.Nutterances - 1 - Utt_id).toNat : ℤ) = Utt_id + 1 := by omega
  rw [hm] at hfold
  unfold makeRoom behind
  dsimp only
  rw [hcount]
  exact hfold

/-- The entries behind an utterance move up by one slot. -/
theorem makeRoom_table {α : Type*} (get : ErrorInfo 𝕜 → ℤ → α)
    (hshift : ∀ err step, get (shiftUp err step) =
      Function.update (get err) (step + 1) (get err step))
    (hcount : ∀ err N, get { err with Nutterances := N } = get err)
    (err : ErrorInfo 𝕜) {Utt_id : ℤ} (hid : Utt_id < err.Nutterances) (i : ℤ) :
    get (makeRoom Utt_id err) i =
      if Utt_id + 1 < i ∧ i ≤ err.Nutterances then get err (i - 1) else get err i :=
  makeRoom_copied get get hshift hshift hcount err hid i

variable [Zero 𝕜] [LinearOrder 𝕜] {sig : Signals 𝕜} {res : SplitResult 𝕜} {err : ErrorInfo 𝕜}
  {Utt_id : ℤ}

/-- The end of the first part. -/
def partEnd₁ (Downsample : ℤ) (res : SplitResult 𝕜) : ℤ :=
  if res.Best_D2 < res.Best_D1 then res.Best_BP
  else res.Best_BP + (res.Best_D2 - res.Best_D1).tdiv (2 * Downsample)

/-- The start of the second part. -/
def partStart₂ (Downsample : ℤ) (res : SplitResult 𝕜) : ℤ :=
  if res.Best_D2 < res.Best_D1 then res.Best_BP
  else res.Best_BP - (res.Best_D2 - res.Best_D1).tdiv (2 * Downsample)

/-- The start of the first part, from the start of the utterance. -/
def partStart₁ (Downsample : ℤ) (res : SplitResult 𝕜) (Utt_Start : ℤ) : ℤ :=
  if (Utt_Start - SEARCHBUFFER) * Downsample + res.Best_D1 < 0 then
    SEARCHBUFFER + (Downsample - 1 - res.Best_D1).tdiv Downsample
  else Utt_Start

/-- The end of the second part, from the end of the utterance. -/
def partEnd₂ (sig : Signals 𝕜) (res : SplitResult 𝕜) (Utt_End : ℤ) : ℤ :=
  if Utt_End * sig.rate.Downsample + res.Best_D2 >
      sig.deg_Nsamples - SEARCHBUFFER * sig.rate.Downsample then
    (sig.deg_Nsamples - res.Best_D2).tdiv sig.rate.Downsample - SEARCHBUFFER
  else Utt_End

omit [Zero 𝕜] [LinearOrder 𝕜] in
/-- Clamping the first part changes its start. -/
theorem clampPartStart_eq (Downsample : ℤ) (err : ErrorInfo 𝕜) :
    clampPartStart Downsample res Utt_id err =
      { err with
        Utt_Start := Function.update err.Utt_Start Utt_id
          (partStart₁ Downsample res (err.Utt_Start Utt_id)) } := by
  unfold clampPartStart partStart₁
  split
  · rfl
  · rw [Function.update_eq_self]

omit [Zero 𝕜] [LinearOrder 𝕜] in
/-- Clamping the second part changes its end. -/
theorem clampPartEnd_eq (err : ErrorInfo 𝕜) :
    clampPartEnd sig res Utt_id err =
      { err with
        Utt_End := Function.update err.Utt_End (Utt_id + 1)
          (partEnd₂ sig res (err.Utt_End (Utt_id + 1))) } := by
  unfold clampPartEnd partEnd₂
  split
  · rfl
  · rw [Function.update_eq_self]

omit [Zero 𝕜] [LinearOrder 𝕜] in
/-- The ends of the utterances after a split. -/
theorem split_table (sig : Signals 𝕜) (res : SplitResult 𝕜) (hid : Utt_id < err.Nutterances)
    (i : ℤ) :
    (split sig res Utt_id err).Utt_Start i =
        (if i = Utt_id then partStart₁ sig.rate.Downsample res (err.Utt_Start Utt_id)
        else if i = Utt_id + 1 then partStart₂ sig.rate.Downsample res
        else if Utt_id + 1 < i ∧ i ≤ err.Nutterances then err.Utt_Start (i - 1)
        else err.Utt_Start i) ∧
      (split sig res Utt_id err).Utt_End i =
        if i = Utt_id then partEnd₁ sig.rate.Downsample res
        else if i = Utt_id + 1 then partEnd₂ sig res (err.Utt_End Utt_id)
        else if Utt_id + 1 < i ∧ i ≤ err.Nutterances then err.Utt_End (i - 1)
        else err.Utt_End i := by
  have hstart := makeRoom_table ErrorInfo.Utt_Start (fun _ _ => rfl) (fun _ _ => rfl) err hid i
  have hend := makeRoom_table ErrorInfo.Utt_End (fun _ _ => rfl) (fun _ _ => rfl) err hid i
  have hne : Utt_id ≠ Utt_id + 1 := by omega
  unfold split setParts
  dsimp only
  rw [clampPartStart_eq, clampPartEnd_eq]
  dsimp only
  rw [Function.update_of_ne hne, Function.update_self, Function.update_self]
  -- The two entries of the parts are written, the others are where `makeRoom` has put them.
  constructor
  · rcases eq_or_ne i Utt_id with rfl | hi
    · rw [Function.update_self, if_pos rfl]
    · rw [Function.update_of_ne hi, if_neg hi]
      rcases eq_or_ne i (Utt_id + 1) with rfl | hi'
      · rw [Function.update_self, if_pos rfl]
        rfl
      · rw [Function.update_of_ne hi', Function.update_of_ne hi, if_neg hi', hstart]
  · rcases eq_or_ne i (Utt_id + 1) with rfl | hi
    · rw [Function.update_self, if_neg hne.symm, if_pos rfl]
    · rw [Function.update_of_ne hi, Function.update_of_ne hi, if_neg hi]
      rcases eq_or_ne i Utt_id with rfl | hi'
      · rw [Function.update_self, if_pos rfl]
        rfl
      · rw [Function.update_of_ne hi', if_neg hi', hend]

omit [Zero 𝕜] [LinearOrder 𝕜] in
/-- The utterances in front of a split stay. -/
theorem split_table_before (sig : Signals 𝕜) (res : SplitResult 𝕜) (hid : Utt_id < err.Nutterances)
    {i : ℤ} (hi : i < Utt_id) :
    (split sig res Utt_id err).Utt_Start i = err.Utt_Start i ∧
      (split sig res Utt_id err).Utt_End i = err.Utt_End i := by
  obtain ⟨hs, he⟩ := split_table sig res hid i
  rw [if_neg (by omega), if_neg (by omega), if_neg (by omega)] at hs he
  exact ⟨hs, he⟩

omit [Zero 𝕜] [LinearOrder 𝕜] in
/-- The first part. -/
theorem split_table_first (sig : Signals 𝕜) (res : SplitResult 𝕜) (hid : Utt_id < err.Nutterances) :
    (split sig res Utt_id err).Utt_Start Utt_id =
        partStart₁ sig.rate.Downsample res (err.Utt_Start Utt_id) ∧
      (split sig res Utt_id err).Utt_End Utt_id = partEnd₁ sig.rate.Downsample res := by
  obtain ⟨hs, he⟩ := split_table sig res hid Utt_id
  rw [if_pos rfl] at hs he
  exact ⟨hs, he⟩

omit [Zero 𝕜] [LinearOrder 𝕜] in
/-- The second part. -/
theorem split_table_second (sig : Signals 𝕜) (res : SplitResult 𝕜)
    (hid : Utt_id < err.Nutterances) :
    (split sig res Utt_id err).Utt_Start (Utt_id + 1) = partStart₂ sig.rate.Downsample res ∧
      (split sig res Utt_id err).Utt_End (Utt_id + 1) = partEnd₂ sig res (err.Utt_End Utt_id) := by
  obtain ⟨hs, he⟩ := split_table sig res hid (Utt_id + 1)
  rw [if_neg (by omega), if_pos rfl] at hs he
  exact ⟨hs, he⟩

omit [Zero 𝕜] [LinearOrder 𝕜] in
/-- The utterances behind a split move up. -/
theorem split_table_behind (sig : Signals 𝕜) (res : SplitResult 𝕜) (hid : Utt_id < err.Nutterances)
    {i : ℤ} (hi : Utt_id < i) (hN : i < err.Nutterances) :
    (split sig res Utt_id err).Utt_Start (i + 1) = err.Utt_Start i ∧
      (split sig res Utt_id err).Utt_End (i + 1) = err.Utt_End i := by
  obtain ⟨hs, he⟩ := split_table sig res hid (i + 1)
  rw [if_neg (by omega), if_neg (by omega), if_pos (by omega), add_sub_cancel_right] at hs he
  exact ⟨hs, he⟩

/-! ## One split -/

omit [Zero 𝕜] [LinearOrder 𝕜] in
/-- The first part does not start before the utterance. -/
theorem le_partStart₁ (res : SplitResult 𝕜) (hD : 0 < sig.rate.Downsample) (Utt_Start : ℤ) :
    Utt_Start ≤ partStart₁ sig.rate.Downsample res Utt_Start := by
  unfold partStart₁
  split
  · rename_i h
    have hquot : Utt_Start - SEARCHBUFFER ≤
        (sig.rate.Downsample - 1 - res.Best_D1).tdiv sig.rate.Downsample :=
      Int.le_tdiv_of_mul_le hD (by omega)
    omega
  · exact le_refl _

omit [Zero 𝕜] [LinearOrder 𝕜] in
/-- The second part does not end after the utterance. -/
theorem partEnd₂_le (res : SplitResult 𝕜) (hD : 0 < sig.rate.Downsample) (Utt_End : ℤ) :
    partEnd₂ sig res Utt_End ≤ Utt_End := by
  unfold partEnd₂
  split
  · rename_i h
    have hquot : (sig.deg_Nsamples - res.Best_D2).tdiv sig.rate.Downsample ≤
        Utt_End + SEARCHBUFFER := tdiv_le_of_le_mul hD (by linarith)
    omega
  · exact le_refl _

omit [Zero 𝕜] [LinearOrder 𝕜] in
/-- The parts overlap or meet. -/
theorem partStart₂_le_partEnd₁ (res : SplitResult 𝕜) (hD : 0 < sig.rate.Downsample) :
    partStart₂ sig.rate.Downsample res ≤ partEnd₁ sig.rate.Downsample res := by
  unfold partStart₂ partEnd₁
  split
  · exact le_refl _
  · have hwide : 0 ≤ (res.Best_D2 - res.Best_D1).tdiv (2 * sig.rate.Downsample) :=
      Int.tdiv_nonneg (by omega) (by omega)
    omega

/-- The parts of an utterance fit into the table: the second part starts between the start of the
first part and its own end, and not behind the next utterance, and the first part ends in the
signal. -/
structure SplitFits (sig : Signals 𝕜) (res : SplitResult 𝕜) (Utt_id : ℤ) (err : ErrorInfo 𝕜) :
    Prop where
  start_le : partStart₁ sig.rate.Downsample res (err.Utt_Start Utt_id) ≤
    partStart₂ sig.rate.Downsample res
  le_end : partStart₂ sig.rate.Downsample res ≤ partEnd₂ sig res (err.Utt_End Utt_id)
  le_next : Utt_id + 1 < err.Nutterances →
    partStart₂ sig.rate.Downsample res ≤ err.Utt_Start (Utt_id + 1)
  le_length : partEnd₁ sig.rate.Downsample res ≤ sig.VAD_length

omit [Zero 𝕜] [LinearOrder 𝕜] in
/-- If the table is in order after a split, the parts fit. -/
theorem splitFits_of_tableInvariant (hpos : 0 ≤ Utt_id) (hid : Utt_id < err.Nutterances)
    (h' : TableInvariant sig (split sig res Utt_id err)) : SplitFits sig res Utt_id err := by
  have hcount := split_Nutterances sig res Utt_id err
  obtain ⟨hs₁, he₁⟩ := split_table_first sig res hid
  obtain ⟨hs₂, he₂⟩ := split_table_second sig res hid
  refine ⟨?_, ?_, fun hnext => ?_, ?_⟩
  · rw [← hs₁, ← hs₂]
    exact h'.sorted Utt_id hpos (by omega)
  · rw [← hs₂, ← he₂]
    exact h'.start_le_end (Utt_id + 1) (by omega) (by omega)
  · rw [← hs₂, ← (split_table_behind sig res hid
      (show Utt_id < Utt_id + 1 by omega) hnext).1]
    exact h'.sorted (Utt_id + 1) (by omega) (by omega)
  · rw [← he₁]
    exact h'.le_length Utt_id hpos (by omega)

omit [Zero 𝕜] [LinearOrder 𝕜] in
/-- If the parts fit, the split keeps the table in order. -/
theorem tableInvariant_split (h : TableInvariant sig err) (hD : 0 < sig.rate.Downsample)
    (hpos : 0 ≤ Utt_id) (hid : Utt_id < err.Nutterances) (hfits : SplitFits sig res Utt_id err) :
    TableInvariant sig (split sig res Utt_id err) := by
  have hcount := split_Nutterances sig res Utt_id err
  obtain ⟨hs₁, he₁⟩ := split_table_first sig res hid
  obtain ⟨hs₂, he₂⟩ := split_table_second sig res hid
  have hfirst := le_partStart₁ res hD (err.Utt_Start Utt_id)
  have hparts := partStart₂_le_partEnd₁ res hD
  have hlast := partEnd₂_le res hD (err.Utt_End Utt_id)
  have hnonneg := h.nonneg Utt_id hpos hid
  have hlength := h.le_length Utt_id hpos hid
  obtain ⟨hstart, hend, hnext, hin⟩ := hfits
  -- An entry is in front of the split, one of its parts, or behind it.
  have hcases : ∀ i, 0 ≤ i → i < (split sig res Utt_id err).Nutterances →
      i < Utt_id ∨ i = Utt_id ∨ i = Utt_id + 1 ∨
        ∃ j, i = j + 1 ∧ Utt_id < j ∧ j < err.Nutterances := fun i _ hi => by
    rcases lt_or_ge (Utt_id + 1) i with hbehind | _
    · exact Or.inr (Or.inr (Or.inr ⟨i - 1, by omega, by omega, by omega⟩))
    · omega
  -- For each field of the invariant, the entries one kind after the other.
  refine ⟨fun i hi hiN => ?_, fun i hi hiN => ?_, fun i hi hiN => ?_, fun i hi hiN => ?_⟩
  · rcases hcases i hi hiN with hlt | rfl | rfl | ⟨j, rfl, hj, hjN⟩
    · rw [(split_table_before sig res hid hlt).1]
      exact h.nonneg i hi (by omega)
    · rw [hs₁]
      omega
    · rw [hs₂]
      omega
    · rw [(split_table_behind sig res hid hj hjN).1]
      exact h.nonneg j (by omega) hjN
  · rcases hcases i hi hiN with hlt | rfl | rfl | ⟨j, rfl, hj, hjN⟩
    · rw [(split_table_before sig res hid hlt).1, (split_table_before sig res hid hlt).2]
      exact h.start_le_end i hi (by omega)
    · rw [hs₁, he₁]
      omega
    · rw [hs₂, he₂]
      exact hend
    · rw [(split_table_behind sig res hid hj hjN).1, (split_table_behind sig res hid hj hjN).2]
      exact h.start_le_end j (by omega) hjN
  · rcases hcases i hi hiN with hlt | rfl | rfl | ⟨j, rfl, hj, hjN⟩
    · rw [(split_table_before sig res hid hlt).2]
      exact h.le_length i hi (by omega)
    · rw [he₁]
      exact hin
    · rw [he₂]
      omega
    · rw [(split_table_behind sig res hid hj hjN).2]
      exact h.le_length j (by omega) hjN
  · rcases hcases i hi (by omega) with hlt | rfl | rfl | ⟨j, rfl, hj, hjN⟩
    · have hsorted := h.sorted i hi (by omega)
      rw [(split_table_before sig res hid hlt).1]
      rcases eq_or_lt_of_le (show i + 1 ≤ Utt_id by omega) with hnext | hnext
      · rw [hnext] at hsorted ⊢
        rw [hs₁]
        omega
      · rw [(split_table_before sig res hid hnext).1]
        exact hsorted
    · rw [hs₁, hs₂]
      exact hstart
    · rw [hs₂, (split_table_behind sig res hid (show Utt_id < Utt_id + 1 by omega) (by omega)).1]
      exact hnext (by omega)
    · rw [(split_table_behind sig res hid hj hjN).1,
        (split_table_behind sig res hid (show Utt_id < j + 1 by omega) (by omega)).1]
      exact h.sorted j (by omega) (by omega)

omit [Zero 𝕜] [LinearOrder 𝕜] in
/-- A split keeps a table in order exactly if the parts fit. -/
theorem tableInvariant_split_iff (res : SplitResult 𝕜) (hD : 0 < sig.rate.Downsample)
    (h : TableInvariant sig err) (hpos : 0 ≤ Utt_id) (hid : Utt_id < err.Nutterances) :
    TableInvariant sig (split sig res Utt_id err) ↔ SplitFits sig res Utt_id err :=
  ⟨splitFits_of_tableInvariant hpos hid, tableInvariant_split h hD hpos hid⟩

end Split

/-! ## Every split of a run -/

section Steps

variable {𝕜 : Type*} [Zero 𝕜] [LinearOrder 𝕜] {split_align : SplitAlign 𝕜} {sig : Signals 𝕜}

omit [Zero 𝕜] [LinearOrder 𝕜] in
/-- The last slot, when no utterance is in it, may hold anything. -/
theorem tableInvariant_useTestSlot (sig : Signals 𝕜) (res : SplitResult 𝕜) (err : ErrorInfo 𝕜) :
    TableInvariant sig (useTestSlot res err) ↔ TableInvariant sig err :=
  ⟨fun h => ⟨h.nonneg, h.start_le_end, h.le_length, h.sorted⟩,
    fun h => ⟨h.nonneg, h.start_le_end, h.le_length, h.sorted⟩⟩

omit [Zero 𝕜] [LinearOrder 𝕜] in
/-- What is in the last slot does not matter to the parts. -/
theorem splitFits_useTestSlot (res : SplitResult 𝕜) (Utt_id : ℤ) (err : ErrorInfo 𝕜) :
    SplitFits sig res Utt_id (useTestSlot res err) ↔ SplitFits sig res Utt_id err :=
  ⟨fun h => ⟨h.start_le, h.le_end, h.le_next, h.le_length⟩,
    fun h => ⟨h.start_le, h.le_end, h.le_next, h.le_length⟩⟩

/-- If an utterance is split in a step, its parts fit into the table. -/
def StepFits (split_align : SplitAlign 𝕜) (sig : Signals 𝕜) (s : SplitState 𝕜) : Prop :=
  (s.args sig).Utt_Len ≥ 200 → (split_align s.err (s.args sig)).isBetter (s.args sig) →
    SplitFits sig (split_align s.err (s.args sig)) s.Utt_id s.err

/-- A step keeps a table in order exactly if the parts of an utterance that it splits fit. -/
theorem tableInvariant_splitStep_iff {s : SplitState 𝕜} (hD : 0 < sig.rate.Downsample)
    (h : TableInvariant sig s.err) (hpos : 0 ≤ s.Utt_id) (hrunning : s.Running) :
    TableInvariant sig (splitStep split_align sig s).err ↔ StepFits split_align sig s := by
  unfold splitStep StepFits
  dsimp only
  by_cases hlong : (s.args sig).Utt_Len ≥ 200
  · rw [if_pos hlong]
    generalize split_align s.err (s.args sig) = res
    have hslot := (tableInvariant_useTestSlot sig res s.err).mpr h
    by_cases hbetter : res.isBetter (s.args sig)
    · rw [if_pos hbetter]
      have hsplit := tableInvariant_split_iff res hD hslot hpos hrunning.1
      calc TableInvariant sig (split sig res s.Utt_id (useTestSlot res s.err))
          ↔ SplitFits sig res s.Utt_id (useTestSlot res s.err) := hsplit
        _ ↔ SplitFits sig res s.Utt_id s.err := splitFits_useTestSlot res s.Utt_id s.err
        _ ↔ _ := ⟨fun hfits _ _ => hfits, fun hfits => hfits hlong hbetter⟩
    · rw [if_neg hbetter]
      exact iff_of_true hslot fun _ hbetter' => absurd hbetter' hbetter
  · rw [if_neg hlong]
    exact iff_of_true h fun hlong' => absurd hlong' hlong

/-- The loop does not go back in front of the utterance it starts with. -/
theorem Reached.le_Utt_id {s₀ s : SplitState 𝕜} (h : Reached split_align sig s₀ s) :
    s₀.Utt_id ≤ s.Utt_id := by
  induction h with
  | start => exact le_refl _
  | step _ _ ih =>
    rename_i s _ _
    have hcounters := splitStep_counters split_align sig s
    omega

/-- The table is in order along a run exactly if it is at the start, and each step keeps it so. -/
theorem tableInvariant_reached_iff {s₀ : SplitState 𝕜} (hD : 0 < sig.rate.Downsample)
    (hpos : 0 ≤ s₀.Utt_id) :
    (∀ s, Reached split_align sig s₀ s → TableInvariant sig s.err) ↔
      TableInvariant sig s₀.err ∧
        ∀ s, Reached split_align sig s₀ s → s.Running → StepFits split_align sig s := by
  constructor
  · intro h
    refine ⟨h s₀ Reached.start, fun s hs hrunning => ?_⟩
    have hnext := h _ (hs.step hrunning)
    exact (tableInvariant_splitStep_iff hD (h s hs) (hpos.trans hs.le_Utt_id) hrunning).mp hnext
  · rintro ⟨hstart, hsteps⟩ s hs
    -- Each state of the run inherits the order from the one before it.
    induction hs with
    | start => exact hstart
    | step hs hrunning ih =>
      have hfits := hsteps _ hs hrunning
      exact (tableInvariant_splitStep_iff hD ih (hpos.trans hs.le_Utt_id) hrunning).mpr hfits

/-- While the utterances are found and split, the tables do not overflow, and they are in order
after `id_utterances` and after each iteration of `utterance_split`. -/
def KeepsOrder (al : Aligner 𝕜) (split_align : SplitAlign 𝕜) (sig : Signals 𝕜)
    (err : ErrorInfo 𝕜) : Prop :=
  TablesInBounds al sig err ∧
    ∀ s, Reached split_align sig { err := (locate al sig err).err, Utt_id := 0 } s →
      TableInvariant sig s.err

/-- The delays that are found for the utterances. -/
def delaysOf (al : Aligner 𝕜) (sig : Signals 𝕜) (err : ErrorInfo 𝕜) : ℤ → ℤ :=
  (alignAll al (id_searchwindows sig err).err).Utt_Delay

/-- What `id_utterances` gets after the delays were found: one utterance for each run that is one.
-/
theorem alignAll_runs (al : Aligner 𝕜) (err : ErrorInfo 𝕜) (hVAD : ∀ i, 0 ≤ sig.VAD i) :
    utteranceRuns sig (alignAll al (id_searchwindows sig err).err).Crude_DelayEst =
        utteranceRuns sig err.Crude_DelayEst ∧
      (alignAll al (id_searchwindows sig err).err).Nutterances =
        (utteranceRuns sig err.Crude_DelayEst).length := by
  obtain ⟨hN, hcrude⟩ := alignAll_counters al (id_searchwindows sig err).err
  have hkeep : (id_searchwindows sig err).err.Crude_DelayEst = err.Crude_DelayEst :=
    scan_frame ErrorInfo.Crude_DelayEst (fun _ _ _ => rfl) fun _ _ _ => rfl
  constructor
  · rw [hcrude, hkeep]
  · rw [hN, id_searchwindows_Nutterances hVAD (isRuns_speechOf sig), utteranceRuns,
      List.countP_eq_length_filter]

/-- The ends of the utterances after `id_utterances`. -/
theorem locate_table (al : Aligner 𝕜) (err : ErrorInfo 𝕜) (hVAD : ∀ i, 0 ≤ sig.VAD i) {k : ℕ}
    (hk : k < (utteranceRuns sig err.Crude_DelayEst).length) :
    (locate al sig err).err.Utt_Start k =
        utteranceStart sig (utteranceRuns sig err.Crude_DelayEst) (delaysOf al sig err) k ∧
      (locate al sig err).err.Utt_End k =
        utteranceEnd sig (utteranceRuns sig err.Crude_DelayEst) (delaysOf al sig err) k :=
  id_utterances_table hVAD (alignAll_runs al err hVAD).1 (alignAll_runs al err hVAD).2 hk

/-- After `id_utterances` the table is in order exactly if the delays leave room for every
utterance. -/
theorem tableInvariant_locate_iff (al : Aligner 𝕜) (err : ErrorInfo 𝕜)
    (hVAD : ∀ i, 0 ≤ sig.VAD i) (hD : 0 < sig.rate.Downsample) :
    TableInvariant sig (locate al sig err).err ↔
      ∀ k < (utteranceRuns sig err.Crude_DelayEst).length,
        utteranceStart sig (utteranceRuns sig err.Crude_DelayEst) (delaysOf al sig err) k ≤
          utteranceEnd sig (utteranceRuns sig err.Crude_DelayEst) (delaysOf al sig err) k :=
  tableInvariant_id_utterances_iff hVAD hD (alignAll_runs al err hVAD).1
    (alignAll_runs al err hVAD).2

/-- The tables do not overflow and stay in order exactly if the last run of activity comes after
fewer utterances than there are slots, the delays leave room for every utterance, and the parts of
every utterance that is split fit. -/
theorem keepsOrder_iff (al : Aligner 𝕜) (split_align : SplitAlign 𝕜) (sig : Signals 𝕜)
    (err : ErrorInfo 𝕜) (hVAD : ∀ i, 0 ≤ sig.VAD i) (hD : 0 < sig.rate.Downsample) :
    KeepsOrder al split_align sig err ↔
      (speechOf sig).dropLast.countP (isAccepted sig err.Crude_DelayEst) < MAXNUTTERANCES ∧
        (∀ k < (utteranceRuns sig err.Crude_DelayEst).length,
          utteranceStart sig (utteranceRuns sig err.Crude_DelayEst) (delaysOf al sig err) k ≤
            utteranceEnd sig (utteranceRuns sig err.Crude_DelayEst) (delaysOf al sig err) k) ∧
        ∀ s, Reached split_align sig { err := (locate al sig err).err, Utt_id := 0 } s →
          s.Running → StepFits split_align sig s := by
  unfold KeepsOrder
  rw [tablesInBounds_iff_countP al hVAD (isRuns_speechOf sig),
    tableInvariant_reached_iff hD (le_refl _), tableInvariant_locate_iff al err hVAD hD]

end Steps

/-! ## One burst -/

section Burst

/-- The activity of a signal with one burst. -/
theorem speechOf_burst {a b N : ℕ} (ha : 3 ≤ a) (hab : a + 4 < b) (hb : b + 2 < N)
    (hN : N ≤ 10000) : speechOf (burstSignals a b N) = [⟨a - 2, b + 2, burst_widened hab⟩] := by
  have hwindows : N * 64 / rate_16k.Downsample.toNat = N := Nat.mul_div_cancel N (by decide)
  have hruns : IsRuns (fun i => 0 < (burstSignals a b N).VAD i) 0 (burstSignals a b N).VAD_length
      (speechRuns (twoLevels (burst a b) 1 0) (N * 64 / rate_16k.Downsample.toNat) realMath) :=
    isRuns_ofEnergies (by omega)
  rw [hwindows, speechRuns_burst ha hab hb hN] at hruns
  exact (isRuns_speechOf _).unique hruns

/-- The same delay for every utterance. -/
theorem foldl_align_delayed (delay : ℤ) (us : List ℤ) (err : ErrorInfo ℝ) (i : ℤ) :
    (us.foldl (align (delayed delay)) err).Utt_Delay i =
      if i ∈ us then delay else err.Utt_Delay i := by
  induction us generalizing err with
  | nil => rfl
  | cons u us ih =>
    rw [List.foldl_cons, ih]
    by_cases hmem : i ∈ us
    · rw [if_pos hmem, if_pos (List.mem_cons_of_mem u hmem)]
    · rw [if_neg hmem]
      show Function.update err.Utt_Delay u delay i = _
      simp [Function.update_apply, hmem]

/-- The delays of the utterances. -/
theorem delaysOf_delayed {delay k : ℤ} {sig : Signals ℝ} {err : ErrorInfo ℝ} (hk : 0 ≤ k)
    (hN : k < (id_searchwindows sig err).err.Nutterances) :
    delaysOf (delayed delay) sig err k = delay :=
  (foldl_align_delayed delay _ _ k).trans (if_pos (mem_utterancesFrom.mpr ⟨hk, hN⟩))

/-- A burst that is an utterance is the only one. -/
theorem burst_utterance {a b N : ℕ} (err : ErrorInfo ℝ) (ha : 3 ≤ a) (hab : a + 4 < b)
    (hb : b + 2 < N) (hN : N ≤ 10000)
    (haccepted : isAccepted (burstSignals a b N) err.Crude_DelayEst
      ⟨a - 2, b + 2, burst_widened hab⟩ = true) :
    utteranceRuns (burstSignals a b N) err.Crude_DelayEst = [⟨a - 2, b + 2, burst_widened hab⟩] ∧
      (id_searchwindows (burstSignals a b N) err).err.Nutterances = 1 := by
  have hspeech := speechOf_burst ha hab hb hN
  constructor
  · rw [utteranceRuns, hspeech, List.filter_cons_of_pos haccepted]
    rfl
  · rw [id_searchwindows_Nutterances (detectActivity_nonneg _ _) (isRuns_speechOf _), hspeech,
      List.countP_cons_of_pos haccepted]
    rfl

/-- A burst of sixty windows whose degraded copy is a hundred windows early: the start of the
utterance is moved behind its end. -/
theorem early_burst_out_of_order :
    let err := { (ErrorInfo.zero : ErrorInfo ℝ) with Crude_DelayEst := -6400 }
    (id_searchwindows (burstSignals 90 150 213) err).err.Nutterances = 1 ∧
      TablesInBounds (delayed (-6400)) (burstSignals 90 150 213) err ∧
      ¬KeepsOrder (delayed (-6400)) splitHalf (burstSignals 90 150 213) err := by
  intro err
  obtain ⟨hruns, hN⟩ := burst_utterance err (show 3 ≤ 90 by omega) (show 90 + 4 < 150 by omega)
    (show 150 + 2 < 213 by omega) (by omega) (by decide)
  refine ⟨hN, ?_, fun horder => ?_⟩
  · rw [tablesInBounds_iff_countP _ (detectActivity_nonneg _ _) (isRuns_speechOf _),
      speechOf_burst (by omega) (by omega) (by omega) (by omega)]
    decide
  · have htable := horder.2 _ Reached.start
    rw [tableInvariant_locate_iff _ err (detectActivity_nonneg _ _) (by decide), hruns] at htable
    have hends := htable 0 Nat.one_pos
    have hdelay : delaysOf (delayed (-6400)) (burstSignals 90 150 213) err (0 : ℕ) = -6400 :=
      delaysOf_delayed (le_refl 0) (by omega)
    unfold utteranceStart utteranceEnd at hends
    rw [Nat.cast_zero] at hdelay
    simp only [hdelay, Nat.cast_zero] at hends
    exact absurd hends (by decide)

/-- The confidences of the two parts of an utterance that is the only one. -/
theorem split_conf {sig : Signals ℝ} {res : SplitResult ℝ} {err : ErrorInfo ℝ} :
    (split sig res 0 err).Utt_DelayConf 0 = res.Best_DC1 ∧
      (split sig res 0 err).Utt_DelayConf 1 = res.Best_DC2 := by
  unfold split setParts
  dsimp only
  rw [clampPartStart_eq, clampPartEnd_eq]
  exact ⟨rfl, rfl⟩

/-- Halves that are aligned as well as they can be are not split. -/
theorem splitHalf_not_isBetter {sig : Signals ℝ} {s : SplitState ℝ} (hrunning : s.Running)
    (hN : s.err.Nutterances = 2) (hconf₀ : s.err.Utt_DelayConf 0 = 2)
    (hconf₁ : s.err.Utt_DelayConf 1 = 2) (hpos : 0 ≤ s.Utt_id) :
    ¬(splitHalf s.err (s.args sig)).isBetter (s.args sig) := by
  have hid : s.Utt_id = 0 ∨ s.Utt_id = 1 := by
    have := hrunning.1
    omega
  have hconf : s.err.Utt_DelayConf s.Utt_id = 2 := by
    rcases hid with h | h <;> rw [h] <;> assumption
  intro hbetter
  have hmore : (2 : ℝ) > s.err.Utt_DelayConf s.Utt_id := hbetter.1
  exact absurd hmore (by rw [hconf]; exact lt_irrefl _)

/-- Splitting in halves ends after one split: the halves are aligned as well as they can be. -/
theorem reached_splitHalf {sig : Signals ℝ} {err : ErrorInfo ℝ} (hN : err.Nutterances = 1)
    {s : SplitState ℝ} (hs : Reached splitHalf sig { err, Utt_id := 0 } s) :
    s = { err, Utt_id := 0 } ∨ ¬s.Running ∨
      s.err.Nutterances = 2 ∧ s.err.Utt_DelayConf 0 = 2 ∧ s.err.Utt_DelayConf 1 = 2 ∧
        0 ≤ s.Utt_id := by
  induction hs with
  | start => exact Or.inl rfl
  | step _ hrunning ih =>
    rename_i s _
    unfold splitStep
    dsimp only
    rcases ih with rfl | hdone | ⟨hN', hconf₀, hconf₁, hpos⟩
    · -- The first step splits the utterance, or it goes behind it.
      right
      have hnext : ∀ e : ErrorInfo ℝ, e.Nutterances = 1 →
          ¬(SplitState.mk e (0 + 1)).Running := fun e he hr => absurd hr.1 (by rw [he]; simp)
      split
      · split
        · refine Or.inr ⟨?_, split_conf.1, split_conf.2, le_refl 0⟩
          rw [split_Nutterances]
          show err.Nutterances + 1 = 2
          omega
        · exact Or.inl (hnext _ hN)
      · exact Or.inl (hnext _ hN)
    · exact absurd hrunning hdone
    · refine Or.inr (Or.inr ?_)
      rw [if_neg (splitHalf_not_isBetter hrunning hN' hconf₀ hconf₁ hpos)]
      split
      · exact ⟨hN', hconf₀, hconf₁, by show 0 ≤ s.Utt_id + 1; omega⟩
      · exact ⟨hN', hconf₀, hconf₁, by show 0 ≤ s.Utt_id + 1; omega⟩

/-- Halves of one utterance from window 75 to window 425 fit. -/
theorem splitFits_halves {err : ErrorInfo ℝ} {res : SplitResult ℝ} (hN : err.Nutterances = 1)
    (hs : err.Utt_Start 0 = 75) (he : err.Utt_End 0 = 425) (hBP : res.Best_BP = 250)
    (hD1 : res.Best_D1 = 0) (hD2 : res.Best_D2 = 128) :
    SplitFits (burstSignals 90 390 500) res 0 err := by
  refine ⟨?_, ?_, fun hnext => absurd hnext (by rw [hN]; decide), ?_⟩
  all_goals
    simp only [partStart₁, partStart₂, partEnd₁, partEnd₂, hs, he, hBP, hD1, hD2]
    decide

/-- A burst of three hundred windows is split in halves that fit. -/
theorem long_burst_in_order :
    KeepsOrder (delayed 0) splitHalf (burstSignals 90 390 500) ErrorInfo.zero := by
  obtain ⟨hruns, hN⟩ := burst_utterance ErrorInfo.zero (show 3 ≤ 90 by omega)
    (show 90 + 4 < 390 by omega) (show 390 + 2 < 500 by omega) (by omega) (by decide)
  have hdelay : delaysOf (delayed 0) (burstSignals 90 390 500) ErrorInfo.zero 0 = 0 :=
    delaysOf_delayed (le_refl 0) (by omega)
  have hstart : utteranceStart (burstSignals 90 390 500) [⟨88, 392, by omega⟩]
      (delaysOf (delayed 0) (burstSignals 90 390 500) ErrorInfo.zero) 0 = 75 := by
    simp only [utteranceStart, hdelay]
    decide
  have hend : utteranceEnd (burstSignals 90 390 500) [⟨88, 392, by omega⟩]
      (delaysOf (delayed 0) (burstSignals 90 390 500) ErrorInfo.zero) 0 = 425 := by
    simp only [utteranceEnd, hdelay, Nat.cast_zero]
    decide
  have htable := locate_table (delayed 0) ErrorInfo.zero (detectActivity_nonneg _ _) (k := 0)
    (by rw [hruns]; exact Nat.one_pos)
  have hlocate : (locate (delayed 0) (burstSignals 90 390 500) ErrorInfo.zero).err.Nutterances =
      1 :=
    (locate_Nutterances _ _ _).trans hN
  rw [hruns] at htable
  refine (keepsOrder_iff _ _ _ _ (detectActivity_nonneg _ _) (by decide)).mpr ⟨?_, ?_, ?_⟩
  · rw [speechOf_burst (by omega) (by omega) (by omega) (by omega)]
    decide
  · rw [hruns]
    intro k hk
    obtain rfl : k = 0 := Nat.lt_one_iff.mp hk
    rw [hstart, hend]
    decide
  · generalize (locate (delayed 0) (burstSignals 90 390 500) ErrorInfo.zero).err = err at *
    intro s hs hrunning hlong hbetter
    have hs₀ : err.Utt_Start 0 = 75 := htable.1.trans hstart
    have he₀ : err.Utt_End 0 = 425 := htable.2.trans hend
    -- Only the first step splits.
    rcases reached_splitHalf hlocate hs with rfl | hdone | ⟨hN', hconf₀, hconf₁, hpos⟩
    · refine splitFits_halves hlocate hs₀ he₀ ?_ rfl rfl
      show (err.Utt_Start 0 + err.Utt_End 0).tdiv 2 = 250
      rw [hs₀, he₀]
      decide
    · exact absurd hrunning hdone
    · exact absurd hbetter (splitHalf_not_isBetter hrunning hN' hconf₀ hconf₁ hpos)

end Burst

end TgVoipRate.Pesq
