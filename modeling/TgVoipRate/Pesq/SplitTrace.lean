import TgVoipRate.Pesq.SplitAlign

/-!
# The slots that a split touches

A round of `utterance_split`, as far as it uses the tables: one load or store after the other, each
of which records its slot (`Traced.load`, `Traced.store`). The tables that come out are those of the
loop's step (`Traced.round_err`), and the slots are in the tables where the loop goes on
(`Traced.Within.round`).
-/

namespace TgVoipRate.Pesq

variable {𝕜 α : Type*}

/-! ## Loads and stores -/

/-- A table of utterances in the record. -/
structure Table (𝕜 α : Type*) where
  get : ErrorInfo 𝕜 → ℤ → α
  set : ErrorInfo 𝕜 → (ℤ → α) → ErrorInfo 𝕜

namespace Table

/-- The windows to search, their starts. -/
def UttSearch_Start : Table 𝕜 ℤ where
  get := ErrorInfo.UttSearch_Start
  set err T := { err with UttSearch_Start := T }

/-- The windows to search, their ends. -/
def UttSearch_End : Table 𝕜 ℤ where
  get := ErrorInfo.UttSearch_End
  set err T := { err with UttSearch_End := T }

/-- The estimated delays. -/
def Utt_DelayEst : Table 𝕜 ℤ where
  get := ErrorInfo.Utt_DelayEst
  set err T := { err with Utt_DelayEst := T }

/-- The delays. -/
def Utt_Delay : Table 𝕜 ℤ where
  get := ErrorInfo.Utt_Delay
  set err T := { err with Utt_Delay := T }

/-- The confidences in the delays. -/
def Utt_DelayConf : Table 𝕜 𝕜 where
  get := ErrorInfo.Utt_DelayConf
  set err T := { err with Utt_DelayConf := T }

/-- The starts of the utterances. -/
def Utt_Start : Table 𝕜 ℤ where
  get := ErrorInfo.Utt_Start
  set err T := { err with Utt_Start := T }

/-- The ends of the utterances. -/
def Utt_End : Table 𝕜 ℤ where
  get := ErrorInfo.Utt_End
  set err T := { err with Utt_End := T }

end Table

namespace Traced

/-- Reads an entry. -/
def load (t : Traced 𝕜) (T : Table 𝕜 α) (i : ℤ) : α × Traced 𝕜 :=
  (T.get t.err i, { t with touched := t.touched ++ [i] })

/-- Writes an entry. -/
def store (t : Traced 𝕜) (T : Table 𝕜 α) (i : ℤ) (x : α) : Traced 𝕜 where
  err := T.set t.err (Function.update (T.get t.err) i x)
  touched := t.touched ++ [i]

/-- Copies an entry of the second table to the first one. -/
def copy (t : Traced 𝕜) (T : Table 𝕜 α) (i : ℤ) (T' : Table 𝕜 α) (j : ℤ) : Traced 𝕜 :=
  let (x, t) := t.load T' j
  t.store T i x

/-! ## A round -/

/-- Moves an utterance one slot up. -/
def shiftUp (t : Traced 𝕜) (step : ℤ) : Traced 𝕜 :=
  let t := t.copy .Utt_DelayEst (step + 1) .Utt_DelayEst step
  let t := t.copy .Utt_Delay (step + 1) .Utt_Delay step
  let t := t.copy .Utt_DelayConf (step + 1) .Utt_DelayConf step
  let t := t.copy .Utt_Start (step + 1) .Utt_Start step
  let t := t.copy .Utt_End (step + 1) .Utt_End step
  let t := t.copy .UttSearch_Start (step + 1) .Utt_Start step
  t.copy .UttSearch_End (step + 1) .Utt_End step

/-- The delays and the confidences of the two parts of an utterance, and their search window. -/
def storeParts (res : SplitResult 𝕜) (Utt_id : ℤ) (t : Traced 𝕜) : Traced 𝕜 :=
  let t := t.store .Utt_DelayEst Utt_id res.Best_ED1
  let t := t.store .Utt_Delay Utt_id res.Best_D1
  let t := t.store .Utt_DelayConf Utt_id res.Best_DC1
  let t := t.store .Utt_DelayEst (Utt_id + 1) res.Best_ED2
  let t := t.store .Utt_Delay (Utt_id + 1) res.Best_D2
  let t := t.store .Utt_DelayConf (Utt_id + 1) res.Best_DC2
  let t := t.copy .UttSearch_Start (Utt_id + 1) .UttSearch_Start Utt_id
  t.copy .UttSearch_End (Utt_id + 1) .UttSearch_End Utt_id

/-- The ends of the two parts. -/
def storeEnds (Downsample : ℤ) (res : SplitResult 𝕜) (Utt_id Utt_Start Utt_End : ℤ)
    (t : Traced 𝕜) : Traced 𝕜 :=
  if res.Best_D2 < res.Best_D1 then
    let t := t.store .Utt_Start Utt_id Utt_Start
    let t := t.store .Utt_End Utt_id res.Best_BP
    let t := t.store .Utt_Start (Utt_id + 1) res.Best_BP
    t.store .Utt_End (Utt_id + 1) Utt_End
  else
    let wide := (res.Best_D2 - res.Best_D1).tdiv (2 * Downsample)
    let t := t.store .Utt_Start Utt_id Utt_Start
    let t := t.store .Utt_End Utt_id (res.Best_BP + wide)
    let t := t.store .Utt_Start (Utt_id + 1) (res.Best_BP - wide)
    t.store .Utt_End (Utt_id + 1) Utt_End

/-- The first part starts within the degraded signal. -/
def clampPartStart (Downsample : ℤ) (res : SplitResult 𝕜) (Utt_id : ℤ) (t : Traced 𝕜) :
    Traced 𝕜 :=
  let (start, t) := t.load .Utt_Start Utt_id
  if (start - SEARCHBUFFER) * Downsample + res.Best_D1 < 0 then
    t.store .Utt_Start Utt_id (SEARCHBUFFER + (Downsample - 1 - res.Best_D1).tdiv Downsample)
  else t

/-- The second part ends within the degraded signal. -/
def clampPartEnd (sig : Signals 𝕜) (res : SplitResult 𝕜) (Utt_id : ℤ) (t : Traced 𝕜) :
    Traced 𝕜 :=
  let (stop, t) := t.load .Utt_End (Utt_id + 1)
  if stop * sig.rate.Downsample + res.Best_D2 >
      sig.deg_Nsamples - SEARCHBUFFER * sig.rate.Downsample then
    t.store .Utt_End (Utt_id + 1)
      ((sig.deg_Nsamples - res.Best_D2).tdiv sig.rate.Downsample - SEARCHBUFFER)
  else t

/-- Makes room for an utterance behind one. -/
def makeRoom (Utt_id : ℤ) (t : Traced 𝕜) : Traced 𝕜 :=
  let t := (behind t.err.Nutterances Utt_id).foldl shiftUp t
  { t with err := { t.err with Nutterances := t.err.Nutterances + 1 } }

/-- Splits an utterance with these ends. -/
def split (sig : Signals 𝕜) (res : SplitResult 𝕜) (Utt_id Utt_Start Utt_End : ℤ) (t : Traced 𝕜) :
    Traced 𝕜 :=
  let t := t.makeRoom Utt_id
  let t := t.storeParts res Utt_id
  let t := t.storeEnds sig.rate.Downsample res Utt_id Utt_Start Utt_End
  let t := t.clampPartStart sig.rate.Downsample res Utt_id
  t.clampPartEnd sig res Utt_id

/-- Estimates the delay of a part, and reads it. -/
def testAlign (al : Aligner 𝕜) (Utt_DelayEst Start End : ℤ) (t : Traced 𝕜) : ℤ × Traced 𝕜 :=
  let t := t.store .Utt_DelayEst Utt_Test Utt_DelayEst
  let t := t.store .UttSearch_Start Utt_Test Start
  let t := t.store .UttSearch_End Utt_Test End
  -- `crude_align` reads what was stored, and stores the delay.
  let t := (t.load .Utt_DelayEst Utt_Test).2
  let t := (t.load .UttSearch_Start Utt_Test).2
  let t := (t.load .UttSearch_End Utt_Test).2
  let t := t.store .Utt_Delay Utt_Test (al.crude_align t.err MAXNUTTERANCES)
  t.load .Utt_Delay Utt_Test

/-- Estimates the delays of the two parts at a point. -/
def estimate (al : Aligner 𝕜) (a : SplitArgs 𝕜) (Utt_BPs : ℕ → ℤ) (t : Traced 𝕜) (bp : ℕ) :
    Traced 𝕜 :=
  let t := (t.testAlign al a.Utt_DelayEst a.Utt_Start (Utt_BPs bp)).2
  (t.testAlign al a.Utt_DelayEst (Utt_BPs bp) a.Utt_End).2

variable [Field 𝕜] [LinearOrder 𝕜] [IsStrictOrderedRing 𝕜]

/-- The estimates for all points. -/
def estimates (al : Aligner 𝕜) (rate : Rate) (a : SplitArgs 𝕜) (t : Traced 𝕜) : Traced 𝕜 :=
  (List.range (breakpoints rate a).length).foldl (estimate al a (breakpointAt rate a)) t

/-- Reads an utterance, and looks for the speech in it. -/
def loadArgs (sig : Signals 𝕜) (Utt_id : ℤ) (t : Traced 𝕜) : SplitArgs 𝕜 × Traced 𝕜 :=
  let (Utt_DelayEst, t) := t.load .Utt_DelayEst Utt_id
  let t := (t.load .Utt_Delay Utt_id).2
  let (Utt_DelayConf, t) := t.load .Utt_DelayConf Utt_id
  let (Utt_Start, t) := t.load .Utt_Start Utt_id
  let (Utt_End, t) := t.load .Utt_End Utt_id
  let a : SplitArgs 𝕜 :=
    { Utt_Start
      Utt_SpeechStart := speechStart sig.VAD Utt_End Utt_Start
      Utt_SpeechEnd := speechEnd sig.VAD Utt_Start Utt_End + 1
      Utt_End
      Utt_DelayEst
      Utt_DelayConf }
  (a, t)

/-- A round of the loop. Behind the estimates `split_align` does not use the tables. -/
def round (al : Aligner 𝕜) (sig : AlignSignals 𝕜) (votes : CallVotes 𝕜) (locals : SplitLocals)
    (unset : Unset) (Utt_id : ℤ) (t : Traced 𝕜) : Traced 𝕜 :=
  let (a, t) := t.loadArgs sig.toSignals Utt_id
  if a.Utt_Len ≥ 200 then
    let res := split_align_calls al sig votes locals unset t.err a
    let t := t.estimates al sig.rate a
    if res.isBetter a then t.split sig.toSignals res Utt_id a.Utt_Start a.Utt_End else t
  else t

end Traced

/-! ## Without the record -/

section Erase

/-- What a copy does. -/
theorem Traced.copy_err (t : Traced 𝕜) (T : Table 𝕜 α) (i : ℤ) (T' : Table 𝕜 α) (j : ℤ) :
    (t.copy T i T' j).err = T.set t.err (Function.update (T.get t.err) i (T'.get t.err j)) := rfl

/-- Moving an utterance. -/
theorem Traced.shiftUp_err (t : Traced 𝕜) (step : ℤ) :
    (t.shiftUp step).err = Pesq.shiftUp t.err step := by
  unfold Traced.shiftUp Pesq.shiftUp
  dsimp only [Traced.copy_err, Table.Utt_DelayEst, Table.Utt_Delay, Table.Utt_DelayConf,
    Table.Utt_Start, Table.Utt_End, Table.UttSearch_Start, Table.UttSearch_End]

/-- Moving some utterances. -/
theorem Traced.foldl_shiftUp_err (steps : List ℤ) (t : Traced 𝕜) :
    (steps.foldl Traced.shiftUp t).err = steps.foldl Pesq.shiftUp t.err := by
  induction steps generalizing t with
  | nil => rfl
  | cons step steps ih =>
    rw [List.foldl_cons, List.foldl_cons, ih, Traced.shiftUp_err]

/-- The ends of the parts. -/
theorem Traced.storeEnds_err (Downsample : ℤ) (res : SplitResult 𝕜)
    (Utt_id Utt_Start Utt_End : ℤ) (t : Traced 𝕜) :
    (t.storeEnds Downsample res Utt_id Utt_Start Utt_End).err =
      setParts Downsample res Utt_id Utt_Start Utt_End t.err := by
  unfold Traced.storeEnds setParts
  split <;> rfl

/-- The start of the first part. -/
theorem Traced.clampPartStart_err (Downsample : ℤ) (res : SplitResult 𝕜) (Utt_id : ℤ)
    (t : Traced 𝕜) :
    (t.clampPartStart Downsample res Utt_id).err =
      Pesq.clampPartStart Downsample res Utt_id t.err := by
  unfold Traced.clampPartStart Pesq.clampPartStart
  dsimp only [Traced.load, Table.Utt_Start]
  split <;> rfl

/-- The end of the second part. -/
theorem Traced.clampPartEnd_err (sig : Signals 𝕜) (res : SplitResult 𝕜) (Utt_id : ℤ)
    (t : Traced 𝕜) :
    (t.clampPartEnd sig res Utt_id).err = Pesq.clampPartEnd sig res Utt_id t.err := by
  unfold Traced.clampPartEnd Pesq.clampPartEnd
  dsimp only [Traced.load, Table.Utt_End]
  split <;> rfl

/-- A split. -/
theorem Traced.split_err (sig : Signals 𝕜) (res : SplitResult 𝕜) (Utt_id : ℤ) (t : Traced 𝕜) :
    (t.split sig res Utt_id (t.err.Utt_Start Utt_id) (t.err.Utt_End Utt_id)).err =
      Pesq.split sig res Utt_id t.err := by
  have hroom : (t.makeRoom Utt_id).err = Pesq.makeRoom Utt_id t.err := by
    unfold Traced.makeRoom Pesq.makeRoom
    dsimp only
    rw [foldl_shiftUp_err]
  unfold Traced.split Pesq.split
  dsimp only
  rw [clampPartEnd_err, clampPartStart_err, storeEnds_err, ← hroom]
  rfl

/-- The estimate for a part. -/
theorem Traced.testAlign_err (al : Aligner 𝕜) (Utt_DelayEst Start End : ℤ) (t : Traced 𝕜) :
    (t.testAlign al Utt_DelayEst Start End).2.err =
      Pesq.testAlign al Utt_DelayEst Start End t.err := by
  unfold Traced.testAlign Pesq.testAlign testTables
  dsimp only [Traced.load, Traced.store, Table.Utt_DelayEst, Table.UttSearch_Start,
    Table.UttSearch_End, Table.Utt_Delay]

/-- The estimates. -/
theorem Traced.foldl_estimate_err (al : Aligner 𝕜) (a : SplitArgs 𝕜) (Utt_BPs : ℕ → ℤ)
    (bps : List ℕ) (t : Traced 𝕜) (e : Estimates 𝕜) (h : t.err = e.err) :
    (bps.foldl (Traced.estimate al a Utt_BPs) t).err =
      (bps.foldl (Pesq.estimate al a Utt_BPs) e).err := by
  induction bps generalizing t e with
  | nil => exact h
  | cons bp bps ih =>
    rw [List.foldl_cons, List.foldl_cons]
    refine ih _ _ ?_
    unfold Traced.estimate Pesq.estimate
    dsimp only
    rw [testAlign_err, testAlign_err, h]

/-- The first record, with the last slot as the second one has it in the tables of `split_align`. -/
def keepTest (err err' : ErrorInfo 𝕜) : ErrorInfo 𝕜 :=
  { err with
    Utt_DelayEst := Function.update err.Utt_DelayEst Utt_Test (err'.Utt_DelayEst Utt_Test)
    Utt_Delay := Function.update err.Utt_Delay Utt_Test (err'.Utt_Delay Utt_Test)
    UttSearch_Start := Function.update err.UttSearch_Start Utt_Test (err'.UttSearch_Start Utt_Test)
    UttSearch_End := Function.update err.UttSearch_End Utt_Test (err'.UttSearch_End Utt_Test) }

/-- An estimate changes nothing but the last slot. -/
theorem keepTest_testAlign (al : Aligner 𝕜) (Utt_DelayEst Start End : ℤ) {err err' : ErrorInfo 𝕜}
    (h : keepTest err err' = err') :
    keepTest err (testAlign al Utt_DelayEst Start End err') =
      testAlign al Utt_DelayEst Start End err' := by
  unfold testAlign
  dsimp only
  generalize al.crude_align (testTables err' Utt_DelayEst Start End) MAXNUTTERANCES = delay
  unfold testTables
  rw [← h]
  unfold keepTest
  simp only [Function.update_self, Function.update_idem]

/-- The estimates change nothing but the last slot. -/
theorem keepTest_foldl_estimate (al : Aligner 𝕜) (a : SplitArgs 𝕜) (Utt_BPs : ℕ → ℤ)
    (err : ErrorInfo 𝕜) (bps : List ℕ) (e : Estimates 𝕜) (h : keepTest err e.err = e.err) :
    keepTest err (bps.foldl (estimate al a Utt_BPs) e).err =
      (bps.foldl (estimate al a Utt_BPs) e).err := by
  induction bps generalizing e with
  | nil => exact h
  | cons bp bps ih => exact ih _ (keepTest_testAlign al _ _ _ (keepTest_testAlign al _ _ _ h))

variable [Field 𝕜] [LinearOrder 𝕜] [IsStrictOrderedRing 𝕜]

/-- The tables behind the estimates are those that the loop goes on with. -/
theorem estimates_useTestSlot (al : Aligner 𝕜) (sig : AlignSignals 𝕜) (votes : CallVotes 𝕜)
    (locals : SplitLocals) (unset : Unset) (err : ErrorInfo 𝕜) (a : SplitArgs 𝕜) :
    (estimates al sig unset err a).err =
      useTestSlot (split_align_calls al sig votes locals unset err a) err := by
  have hstart : keepTest err err = err := by
    unfold keepTest
    simp only [Function.update_eq_self]
  exact (keepTest_foldl_estimate al a _ err _ { err, Utt_ED1 := _, Utt_ED2 := _ } hstart).symm

/-- The estimates in a call. -/
theorem Traced.estimates_err (al : Aligner 𝕜) (sig : AlignSignals 𝕜) (votes : CallVotes 𝕜)
    (locals : SplitLocals) (unset : Unset) (a : SplitArgs 𝕜) (t : Traced 𝕜) :
    (t.estimates al sig.rate a).err =
      useTestSlot (split_align_calls al sig votes locals unset t.err a) t.err :=
  (foldl_estimate_err al a (breakpointAt sig.rate a) _ t
    { err := t.err, Utt_ED1 := unset.Utt_ED1, Utt_ED2 := unset.Utt_ED2 } rfl).trans
      (estimates_useTestSlot al sig votes locals unset t.err a)

/-- A round, without its record, is a step of the loop. -/
theorem Traced.round_err (al : Aligner 𝕜) (sig : AlignSignals 𝕜) (votes : CallVotes 𝕜)
    (locals : SplitLocals) (unset : Unset) (s : SplitState 𝕜) (touched : List ℤ) :
    (Traced.round al sig votes locals unset s.Utt_id { err := s.err, touched }).err =
      (splitStep (split_align_calls al sig votes locals unset) sig.toSignals s).err := by
  have hargs : (Traced.loadArgs sig.toSignals s.Utt_id { err := s.err, touched }).1 =
      s.args sig.toSignals := rfl
  have herr : (Traced.loadArgs sig.toSignals s.Utt_id { err := s.err, touched }).2.err = s.err :=
    rfl
  unfold Traced.round splitStep
  generalize Traced.loadArgs sig.toSignals s.Utt_id { err := s.err, touched } = read at hargs herr ⊢
  obtain ⟨a, t⟩ := read
  dsimp only at hargs herr ⊢
  subst hargs
  rw [← herr]
  have hestimates := t.estimates_err al sig votes locals unset (s.args sig.toSignals)
  have hends : t.err.Utt_Start s.Utt_id = (s.args sig.toSignals).Utt_Start ∧
      t.err.Utt_End s.Utt_id = (s.args sig.toSignals).Utt_End := by
    rw [herr]
    exact ⟨rfl, rfl⟩
  generalize t.estimates al sig.rate (s.args sig.toSignals) = t' at hestimates ⊢
  split
  · split
    · have hsplit := t'.split_err sig.toSignals
        (split_align_calls al sig votes locals unset t.err (s.args sig.toSignals)) s.Utt_id
      rw [hestimates] at hsplit
      rw [← hends.1, ← hends.2]
      exact hsplit
    · exact hestimates
  · rfl

end Erase

/-! ## The slots -/

/-- All slots that were touched are in the tables. -/
def Traced.Within (t : Traced 𝕜) : Prop := ∀ i ∈ t.touched, 0 ≤ i ∧ i < MAXNUTTERANCES

namespace Traced.Within

/-- One more slot. -/
theorem touch {t : Traced 𝕜} (h : t.Within) {i : ℤ} (hi : 0 ≤ i ∧ i < MAXNUTTERANCES)
    (err : ErrorInfo 𝕜) : ({ err, touched := t.touched ++ [i] } : Traced 𝕜).Within := by
  unfold Traced.Within
  rw [List.forall_mem_append, List.forall_mem_singleton]
  exact ⟨h, hi⟩

/-- A read is of one slot. -/
theorem load {t : Traced 𝕜} (h : t.Within) {T : Table 𝕜 α} {i : ℤ}
    (hi : 0 ≤ i ∧ i < MAXNUTTERANCES) : (t.load T i).2.Within := h.touch hi _

/-- A write is of one slot. -/
theorem store {t : Traced 𝕜} (h : t.Within) {T : Table 𝕜 α} {i : ℤ}
    (hi : 0 ≤ i ∧ i < MAXNUTTERANCES) {x : α} : (t.store T i x).Within := h.touch hi _

/-- A copy reads one slot and writes one. -/
theorem copy {t : Traced 𝕜} (h : t.Within) {T T' : Table 𝕜 α} {i j : ℤ}
    (hi : 0 ≤ i ∧ i < MAXNUTTERANCES) (hj : 0 ≤ j ∧ j < MAXNUTTERANCES) :
    (t.copy T i T' j).Within :=
  store (t := (t.load T' j).2) (h.load hj) hi

/-- Moving an utterance. -/
theorem shiftUp {t : Traced 𝕜} (h : t.Within) {step : ℤ} (hstep : 0 ≤ step ∧ step < MAXNUTTERANCES)
    (hnext : 0 ≤ step + 1 ∧ step + 1 < MAXNUTTERANCES) : (t.shiftUp step).Within := by
  unfold Traced.shiftUp
  refine copy (copy ?_ hnext hstep) hnext hstep
  refine copy (copy ?_ hnext hstep) hnext hstep
  exact ((h.copy hnext hstep).copy hnext hstep).copy hnext hstep

/-- Moving some utterances. -/
theorem foldl_shiftUp {steps : List ℤ} (hsteps : ∀ step ∈ steps, 0 ≤ step ∧
    step + 1 < MAXNUTTERANCES) {t : Traced 𝕜} (h : t.Within) :
    (steps.foldl Traced.shiftUp t).Within := by
  induction steps generalizing t with
  | nil => exact h
  | cons step steps ih =>
    obtain ⟨⟨hpos, hlt⟩, hlater⟩ := List.forall_mem_cons.mp hsteps
    have hstep : 0 ≤ step ∧ step < MAXNUTTERANCES := ⟨hpos, by omega⟩
    have hnext : 0 ≤ step + 1 ∧ step + 1 < MAXNUTTERANCES := ⟨by omega, hlt⟩
    rw [List.foldl_cons]
    exact ih hlater (h.shiftUp hstep hnext)

/-- The delays of the parts. -/
theorem storeParts {t : Traced 𝕜} (h : t.Within) (res : SplitResult 𝕜) {Utt_id : ℤ}
    (hfirst : 0 ≤ Utt_id ∧ Utt_id < MAXNUTTERANCES)
    (hsecond : 0 ≤ Utt_id + 1 ∧ Utt_id + 1 < MAXNUTTERANCES) :
    (t.storeParts res Utt_id).Within := by
  unfold Traced.storeParts
  refine copy (copy ?_ hsecond hfirst) hsecond hfirst
  refine store (store (store ?_ hsecond) hsecond) hsecond
  exact ((h.store hfirst).store hfirst).store hfirst

/-- The ends of the parts. -/
theorem storeEnds {t : Traced 𝕜} (h : t.Within) (Downsample : ℤ) (res : SplitResult 𝕜) {Utt_id : ℤ}
    (Utt_Start Utt_End : ℤ) (hfirst : 0 ≤ Utt_id ∧ Utt_id < MAXNUTTERANCES)
    (hsecond : 0 ≤ Utt_id + 1 ∧ Utt_id + 1 < MAXNUTTERANCES) :
    (t.storeEnds Downsample res Utt_id Utt_Start Utt_End).Within := by
  unfold Traced.storeEnds
  split
  · exact (((h.store hfirst).store hfirst).store hsecond).store hsecond
  · exact (((h.store hfirst).store hfirst).store hsecond).store hsecond

/-- The start of the first part. -/
theorem clampPartStart {t : Traced 𝕜} (h : t.Within) (Downsample : ℤ) (res : SplitResult 𝕜)
    {Utt_id : ℤ} (hfirst : 0 ≤ Utt_id ∧ Utt_id < MAXNUTTERANCES) :
    (t.clampPartStart Downsample res Utt_id).Within := by
  unfold Traced.clampPartStart
  dsimp only
  split
  · exact (h.load hfirst).store hfirst
  · exact h.load hfirst

/-- The end of the second part. -/
theorem clampPartEnd {t : Traced 𝕜} (h : t.Within) (sig : Signals 𝕜) (res : SplitResult 𝕜)
    {Utt_id : ℤ} (hsecond : 0 ≤ Utt_id + 1 ∧ Utt_id + 1 < MAXNUTTERANCES) :
    (t.clampPartEnd sig res Utt_id).Within := by
  unfold Traced.clampPartEnd
  dsimp only
  split
  · exact (h.load hsecond).store hsecond
  · exact h.load hsecond

/-- A split, if the tables have room for an utterance more. -/
theorem split {t : Traced 𝕜} (h : t.Within) (sig : Signals 𝕜) (res : SplitResult 𝕜) {Utt_id : ℤ}
    (Utt_Start Utt_End : ℤ) (hid : 0 ≤ Utt_id) (hlast : Utt_id < t.err.Nutterances)
    (hroom : t.err.Nutterances < MAXNUTTERANCES) :
    (t.split sig res Utt_id Utt_Start Utt_End).Within := by
  have hfirst : 0 ≤ Utt_id ∧ Utt_id < MAXNUTTERANCES := ⟨hid, by omega⟩
  have hsecond : 0 ≤ Utt_id + 1 ∧ Utt_id + 1 < MAXNUTTERANCES := ⟨by omega, by omega⟩
  have hmoved : ((behind t.err.Nutterances Utt_id).foldl Traced.shiftUp t).Within := by
    refine h.foldl_shiftUp fun step hstep => ?_
    obtain ⟨k, hk, rfl⟩ := List.mem_map.mp hstep
    have hk' := List.mem_range.mp hk
    exact ⟨by omega, by omega⟩
  have hmade : (t.makeRoom Utt_id).Within := hmoved
  unfold Traced.split
  exact (((hmade.storeParts res hfirst hsecond).storeEnds _ _ _ _ hfirst hsecond).clampPartStart _ _
    hfirst).clampPartEnd _ _ hsecond

/-- The estimates, which use the last slot only. -/
theorem foldl_estimate (al : Aligner 𝕜) (a : SplitArgs 𝕜) (Utt_BPs : ℕ → ℤ) (bps : List ℕ)
    {t : Traced 𝕜} (h : t.Within) : (bps.foldl (Traced.estimate al a Utt_BPs) t).Within := by
  have htest : 0 ≤ Utt_Test ∧ Utt_Test < MAXNUTTERANCES := by decide
  have halign {t : Traced 𝕜} (h : t.Within) (Utt_DelayEst Start End : ℤ) :
      (t.testAlign al Utt_DelayEst Start End).2.Within := by
    unfold Traced.testAlign
    -- Three stores and three loads, and the store and the load of the delay.
    refine load (store ?_ htest) htest
    refine load (load (load ?_ htest) htest) htest
    exact ((h.store htest).store htest).store htest
  induction bps generalizing t with
  | nil => exact h
  | cons bp bps ih =>
    rw [List.foldl_cons]
    refine ih ?_
    unfold Traced.estimate
    exact halign (halign h _ _ _) _ _ _

/-- A round of the loop. -/
theorem round [Field 𝕜] [LinearOrder 𝕜] [IsStrictOrderedRing 𝕜] {t : Traced 𝕜} (h : t.Within)
    (al : Aligner 𝕜) (sig : AlignSignals 𝕜) (votes : CallVotes 𝕜) (locals : SplitLocals)
    (unset : Unset) {Utt_id : ℤ} (hid : 0 ≤ Utt_id) (hlast : Utt_id < t.err.Nutterances)
    (hroom : t.err.Nutterances < MAXNUTTERANCES) :
    (t.round al sig votes locals unset Utt_id).Within := by
  have hutt : 0 ≤ Utt_id ∧ Utt_id < MAXNUTTERANCES := ⟨hid, by omega⟩
  have hread : (t.loadArgs sig.toSignals Utt_id).2.Within := by
    unfold Traced.loadArgs
    dsimp only
    exact load (load (load (load (load h hutt) hutt) hutt) hutt) hutt
  have hcount : (t.loadArgs sig.toSignals Utt_id).2.err = t.err := rfl
  unfold Traced.round
  generalize t.loadArgs sig.toSignals Utt_id = read at hread hcount ⊢
  obtain ⟨a, t'⟩ := read
  dsimp only at hread hcount ⊢
  split
  · have hestimates : (t'.estimates al sig.rate a).Within := hread.foldl_estimate al a _ _
    have hN : (t'.estimates al sig.rate a).err.Nutterances = t.err.Nutterances := by
      rw [t'.estimates_err al sig votes locals unset a, hcount]
      rfl
    split
    · exact hestimates.split _ _ _ _ hid (by rw [hN]; exact hlast) (by rw [hN]; exact hroom)
    · exact hestimates
  · exact hread

end Traced.Within

end TgVoipRate.Pesq
