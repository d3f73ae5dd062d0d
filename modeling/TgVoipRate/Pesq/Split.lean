import TgVoipRate.Pesq.Utterances

/-!
# Splitting the utterances

`utterance_split` of `pesqmod.c`: as long as the tables have room, it tries to split an utterance at
a point in its speech where the delay changes, inserts the second part behind it and tries the first
part again, or moves on to the next utterance. Where to split, and the delays and confidences of the
parts, is what `split_align` finds in the signals, and is given by a function here; the entries that
`split_align` leaves in the last slot of the tables, which it uses for itself, are part of it.

The last part is the lookup of a frame's delay in `pesq_psychoacoustic_model`.
-/

namespace TgVoipRate.Pesq

variable {𝕜 : Type*} [Zero 𝕜] [LinearOrder 𝕜]

/-! ## The speech in an utterance -/

/-- The first window with speech from a window on, or the end. -/
def speechStart (VAD : ℕ → 𝕜) (Utt_End Utt_SpeechStart : ℤ) : ℤ :=
  if Utt_SpeechStart < Utt_End ∧ VAD Utt_SpeechStart.toNat ≤ 0 then
    speechStart VAD Utt_End (Utt_SpeechStart + 1)
  else Utt_SpeechStart
termination_by (Utt_End - Utt_SpeechStart).toNat

/-- The last window with speech up to a window, or the start. -/
def speechEnd (VAD : ℕ → 𝕜) (Utt_Start Utt_SpeechEnd : ℤ) : ℤ :=
  if Utt_SpeechEnd > Utt_Start ∧ VAD Utt_SpeechEnd.toNat ≤ 0 then
    speechEnd VAD Utt_Start (Utt_SpeechEnd - 1)
  else Utt_SpeechEnd
termination_by (Utt_SpeechEnd - Utt_Start).toNat

/-! ## A split -/

/-- What `split_align` is asked. -/
structure SplitArgs (𝕜 : Type*) where
  Utt_Start : ℤ
  Utt_SpeechStart : ℤ
  Utt_SpeechEnd : ℤ
  Utt_End : ℤ
  Utt_DelayEst : ℤ
  Utt_DelayConf : 𝕜

/-- What `split_align` finds: the delays and confidences of the two parts, the point between them,
and what it leaves in the last slot of the tables. -/
structure SplitResult (𝕜 : Type*) where
  Best_ED1 : ℤ
  Best_D1 : ℤ
  Best_DC1 : 𝕜
  Best_ED2 : ℤ
  Best_D2 : ℤ
  Best_DC2 : 𝕜
  Best_BP : ℤ
  test_DelayEst : ℤ
  test_Delay : ℤ
  test_Start : ℤ
  test_End : ℤ

/-- The last slot after `split_align` has used it. -/
def useTestSlot (res : SplitResult 𝕜) (err : ErrorInfo 𝕜) : ErrorInfo 𝕜 :=
  { err with
    Utt_DelayEst := Function.update err.Utt_DelayEst (MAXNUTTERANCES - 1) res.test_DelayEst
    Utt_Delay := Function.update err.Utt_Delay (MAXNUTTERANCES - 1) res.test_Delay
    UttSearch_Start := Function.update err.UttSearch_Start (MAXNUTTERANCES - 1) res.test_Start
    UttSearch_End := Function.update err.UttSearch_End (MAXNUTTERANCES - 1) res.test_End }

/-- Moves an utterance one slot up. -/
def shiftUp (err : ErrorInfo 𝕜) (step : ℤ) : ErrorInfo 𝕜 :=
  let err := { err with
    Utt_DelayEst := Function.update err.Utt_DelayEst (step + 1) (err.Utt_DelayEst step) }
  let err := { err with Utt_Delay := Function.update err.Utt_Delay (step + 1) (err.Utt_Delay step) }
  let err := { err with
    Utt_DelayConf := Function.update err.Utt_DelayConf (step + 1) (err.Utt_DelayConf step) }
  let err := { err with Utt_Start := Function.update err.Utt_Start (step + 1) (err.Utt_Start step) }
  let err := { err with Utt_End := Function.update err.Utt_End (step + 1) (err.Utt_End step) }
  -- The two tables of search windows get the ends of the utterance.
  let err := { err with
    UttSearch_Start := Function.update err.UttSearch_Start (step + 1) (err.Utt_Start step) }
  { err with UttSearch_End := Function.update err.UttSearch_End (step + 1) (err.Utt_End step) }

/-- The utterances behind one, from the last one down. -/
def behind (Nutterances Utt_id : ℤ) : List ℤ :=
  (List.range (Nutterances - 1 - Utt_id).toNat).map fun k : ℕ => Nutterances - 1 - (k : ℤ)

/-- Makes room for an utterance behind one. -/
def makeRoom (Utt_id : ℤ) (err : ErrorInfo 𝕜) : ErrorInfo 𝕜 :=
  let err := (behind err.Nutterances Utt_id).foldl shiftUp err
  { err with Nutterances := err.Nutterances + 1 }

/-- The ends of the two parts of an utterance: they overlap by the windows that a growing delay
leaves out. -/
def setParts (Downsample : ℤ) (res : SplitResult 𝕜) (Utt_id Utt_Start Utt_End : ℤ)
    (err : ErrorInfo 𝕜) : ErrorInfo 𝕜 :=
  let wide := (res.Best_D2 - res.Best_D1).tdiv (2 * Downsample)
  -- With a falling delay the parts meet at the point.
  let end₁ := if res.Best_D2 < res.Best_D1 then res.Best_BP else res.Best_BP + wide
  let start₂ := if res.Best_D2 < res.Best_D1 then res.Best_BP else res.Best_BP - wide
  { err with
    Utt_Start := Function.update (Function.update err.Utt_Start Utt_id Utt_Start)
      (Utt_id + 1) start₂
    Utt_End := Function.update (Function.update err.Utt_End Utt_id end₁) (Utt_id + 1) Utt_End }

/-- The first part starts within the degraded signal. -/
def clampPartStart (Downsample : ℤ) (res : SplitResult 𝕜) (Utt_id : ℤ) (err : ErrorInfo 𝕜) :
    ErrorInfo 𝕜 :=
  if (err.Utt_Start Utt_id - SEARCHBUFFER) * Downsample + res.Best_D1 < 0 then
    { err with
      Utt_Start := Function.update err.Utt_Start Utt_id
        (SEARCHBUFFER + (Downsample - 1 - res.Best_D1).tdiv Downsample) }
  else err

/-- The second part ends within the degraded signal. -/
def clampPartEnd (sig : Signals 𝕜) (res : SplitResult 𝕜) (Utt_id : ℤ) (err : ErrorInfo 𝕜) :
    ErrorInfo 𝕜 :=
  if err.Utt_End (Utt_id + 1) * sig.rate.Downsample + res.Best_D2 >
      sig.deg_Nsamples - SEARCHBUFFER * sig.rate.Downsample then
    { err with
      Utt_End := Function.update err.Utt_End (Utt_id + 1)
        ((sig.deg_Nsamples - res.Best_D2).tdiv sig.rate.Downsample - SEARCHBUFFER) }
  else err

/-- Splits an utterance in the tables. -/
def split (sig : Signals 𝕜) (res : SplitResult 𝕜) (Utt_id : ℤ) (err : ErrorInfo 𝕜) : ErrorInfo 𝕜 :=
  let Utt_Start := err.Utt_Start Utt_id
  let Utt_End := err.Utt_End Utt_id
  let err := makeRoom Utt_id err
  -- Both parts are searched in the window of the whole.
  let err :=
    { err with
      Utt_DelayEst := Function.update (Function.update err.Utt_DelayEst Utt_id res.Best_ED1)
        (Utt_id + 1) res.Best_ED2
      Utt_Delay := Function.update (Function.update err.Utt_Delay Utt_id res.Best_D1)
        (Utt_id + 1) res.Best_D2
      Utt_DelayConf := Function.update (Function.update err.Utt_DelayConf Utt_id res.Best_DC1)
        (Utt_id + 1) res.Best_DC2
      UttSearch_Start := Function.update err.UttSearch_Start (Utt_id + 1)
        (err.UttSearch_Start Utt_id)
      UttSearch_End := Function.update err.UttSearch_End (Utt_id + 1) (err.UttSearch_End Utt_id) }
  let err := setParts sig.rate.Downsample res Utt_id Utt_Start Utt_End err
  clampPartEnd sig res Utt_id (clampPartStart sig.rate.Downsample res Utt_id err)

/-! ## The loop over the utterances -/

/-- The variables of the loop. -/
structure SplitState (𝕜 : Type*) where
  err : ErrorInfo 𝕜
  Utt_id : ℤ

/-- The loop goes on. -/
def SplitState.Running (s : SplitState 𝕜) : Prop :=
  s.Utt_id < s.err.Nutterances ∧ s.err.Nutterances < MAXNUTTERANCES

instance (s : SplitState 𝕜) : Decidable s.Running := inferInstanceAs (Decidable (_ ∧ _))

/-- What `split_align` is asked about the current utterance. -/
def SplitState.args (sig : Signals 𝕜) (s : SplitState 𝕜) : SplitArgs 𝕜 where
  Utt_Start := s.err.Utt_Start s.Utt_id
  Utt_SpeechStart :=
    speechStart sig.VAD (s.err.Utt_End s.Utt_id) (s.err.Utt_Start s.Utt_id)
  Utt_SpeechEnd := speechEnd sig.VAD (s.err.Utt_Start s.Utt_id) (s.err.Utt_End s.Utt_id) + 1
  Utt_End := s.err.Utt_End s.Utt_id
  Utt_DelayEst := s.err.Utt_DelayEst s.Utt_id
  Utt_DelayConf := s.err.Utt_DelayConf s.Utt_id

/-- The number of windows from the first to the last one with speech. -/
def SplitArgs.Utt_Len (a : SplitArgs 𝕜) : ℤ := a.Utt_SpeechEnd - a.Utt_SpeechStart

/-- What `split_align` finds in the two signals. -/
abbrev SplitAlign (𝕜 : Type*) := ErrorInfo 𝕜 → SplitArgs 𝕜 → SplitResult 𝕜

/-- The two parts are aligned with more confidence than the whole. -/
def SplitResult.isBetter (res : SplitResult 𝕜) (a : SplitArgs 𝕜) : Prop :=
  res.Best_DC1 > a.Utt_DelayConf ∧ res.Best_DC2 > a.Utt_DelayConf

instance (res : SplitResult 𝕜) (a : SplitArgs 𝕜) : Decidable (res.isBetter a) :=
  inferInstanceAs (Decidable (_ ∧ _))

/-- The body of the loop. -/
def splitStep (split_align : SplitAlign 𝕜) (sig : Signals 𝕜) (s : SplitState 𝕜) : SplitState 𝕜 :=
  let a := s.args sig
  if a.Utt_Len ≥ 200 then
    let res := split_align s.err a
    let err := useTestSlot res s.err
    -- The first part is tried again after a split.
    if res.isBetter a then { err := split sig res s.Utt_id err, Utt_id := s.Utt_id }
    else { err, Utt_id := s.Utt_id + 1 }
  else { s with Utt_id := s.Utt_id + 1 }

omit [Zero 𝕜] [LinearOrder 𝕜] in
/-- Moving utterances does not count them. -/
theorem foldl_shiftUp_Nutterances (steps : List ℤ) (err : ErrorInfo 𝕜) :
    (steps.foldl shiftUp err).Nutterances = err.Nutterances := by
  induction steps generalizing err with
  | nil => rfl
  | cons step steps ih => exact ih (shiftUp err step)

omit [Zero 𝕜] [LinearOrder 𝕜] in
/-- A split adds an utterance. -/
theorem split_Nutterances (sig : Signals 𝕜) (res : SplitResult 𝕜) (Utt_id : ℤ)
    (err : ErrorInfo 𝕜) : (split sig res Utt_id err).Nutterances = err.Nutterances + 1 := by
  have hroom : (makeRoom Utt_id err).Nutterances = err.Nutterances + 1 := by
    unfold makeRoom
    dsimp only
    rw [foldl_shiftUp_Nutterances]
  have hstart : ∀ err : ErrorInfo 𝕜,
      (clampPartStart sig.rate.Downsample res Utt_id err).Nutterances =
      err.Nutterances := fun err => by
    unfold clampPartStart
    split <;> rfl
  have hend : ∀ err : ErrorInfo 𝕜, (clampPartEnd sig res Utt_id err).Nutterances =
      err.Nutterances := fun err => by
    unfold clampPartEnd
    split <;> rfl
  unfold split
  dsimp only
  rw [hend, hstart]
  exact hroom

/-- One step adds an utterance, or moves on to the next one. -/
theorem splitStep_counters (split_align : SplitAlign 𝕜) (sig : Signals 𝕜) (s : SplitState 𝕜) :
    (splitStep split_align sig s).Utt_id = s.Utt_id ∧
        (splitStep split_align sig s).err.Nutterances = s.err.Nutterances + 1 ∨
      (splitStep split_align sig s).Utt_id = s.Utt_id + 1 ∧
        (splitStep split_align sig s).err.Nutterances = s.err.Nutterances := by
  unfold splitStep
  dsimp only
  split
  · split
    · exact Or.inl ⟨rfl, split_Nutterances sig _ _ _⟩
    · exact Or.inr ⟨rfl, rfl⟩
  · exact Or.inr ⟨rfl, rfl⟩

/-- The loop: it ends, because an utterance is added as long as the tables have room, and otherwise
the next utterance is taken. -/
def splitLoop (split_align : SplitAlign 𝕜) (sig : Signals 𝕜) (s : SplitState 𝕜) : SplitState 𝕜 :=
  if s.Running then splitLoop split_align sig (splitStep split_align sig s) else s
termination_by 2 * (MAXNUTTERANCES - s.err.Nutterances).toNat + (s.err.Nutterances - s.Utt_id).toNat
decreasing_by
  rename_i hrunning
  obtain ⟨hid, hN⟩ := hrunning
  have hcounters := splitStep_counters split_align sig s
  omega

/-- The states that the loop reaches. -/
inductive Reached (split_align : SplitAlign 𝕜) (sig : Signals 𝕜) (s₀ : SplitState 𝕜) :
    SplitState 𝕜 → Prop
  /-- The first state. -/
  | start : Reached split_align sig s₀ s₀
  /-- The state after one more step. -/
  | step {s : SplitState 𝕜} : Reached split_align sig s₀ s → s.Running →
      Reached split_align sig s₀ (splitStep split_align sig s)

/-- `utterance_split` -/
def utterance_split (split_align : SplitAlign 𝕜) (sig : Signals 𝕜) (err : ErrorInfo 𝕜) :
    ErrorInfo 𝕜 :=
  setLargest (splitLoop split_align sig { err, Utt_id := 0 }).err

/-- `utterance_locate` -/
def utterance_locate (al : Aligner 𝕜) (split_align : SplitAlign 𝕜) (sig : Signals 𝕜)
    (err : ErrorInfo 𝕜) : ErrorInfo 𝕜 :=
  utterance_split split_align sig (locate al sig err).err

/-! ## The delay of a frame -/

/-- The delay of the degraded signal at a frame of the reference: the one of the last utterance that
does not start after it. The program exits if there is no utterance. -/
def frameDelay (rate : Rate) (err : ErrorInfo 𝕜) (start_sample_ref : ℤ) : Option ℤ :=
  if err.Nutterances < 1 then none
  else
    match (utterancesFrom 0 err).reverse.find? fun utt =>
        ¬err.Utt_Start utt * rate.Downsample > start_sample_ref with
    | some utt => some (err.Utt_Delay utt)
    | none => some (err.Utt_Delay 0)

end TgVoipRate.Pesq
