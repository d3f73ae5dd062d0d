import TgVoipRate.Pesq.Vad

/-!
# Finding the utterances

`id_searchwindows` and `id_utterances` of `pesqmod.c`. Both scan the voice activity of the reference
for runs of speech, with the same test for the runs that count (`isUtterance`), and fill the tables
of an `ErrorInfo`: the first one with the windows to search for the delay of each run, the second
one with the utterances, whose boundaries it then moves by the delays that were found in between.

The tables have `MAXNUTTERANCES` entries, and nothing in the source checks an index. A table is a
function on all indices here, and each function returns the indices it touches next to its result
(`Traced`): beyond an index outside of the tables the run of the program is undefined. What is said
of a run with more utterances than there are entries is said of the functions here only.
-/

namespace TgVoipRate.Pesq

open Runs (flagStep)

/-- The tables of utterances, and the counters that go with them. -/
structure ErrorInfo (𝕜 : Type*) where
  Nutterances : ℤ
  Largest_uttsize : ℤ
  Crude_DelayEst : ℤ
  UttSearch_Start : ℤ → ℤ
  UttSearch_End : ℤ → ℤ
  Utt_DelayEst : ℤ → ℤ
  Utt_Delay : ℤ → ℤ
  Utt_DelayConf : ℤ → 𝕜
  Utt_Start : ℤ → ℤ
  Utt_End : ℤ → ℤ

/-- The tables before a measurement: the record is filled with zeros. -/
def ErrorInfo.zero [Zero 𝕜] : ErrorInfo 𝕜 where
  Nutterances := 0
  Largest_uttsize := 0
  Crude_DelayEst := 0
  UttSearch_Start _ := 0
  UttSearch_End _ := 0
  Utt_DelayEst _ := 0
  Utt_Delay _ := 0
  Utt_DelayConf _ := 0
  Utt_Start _ := 0
  Utt_End _ := 0

/-- The tables, and the indices that were touched to get them. -/
structure Traced (𝕜 : Type*) where
  err : ErrorInfo 𝕜
  touched : List ℤ

/-- The two signals, as far as the search for utterances reads them. -/
structure Signals (𝕜 : Type*) where
  /-- The globals for the sample rate. -/
  rate : Rate
  /-- `ref_info->VAD` -/
  VAD : ℕ → 𝕜
  /-- `ref_info->Nsamples` -/
  ref_Nsamples : ℕ
  /-- `deg_info->Nsamples` -/
  deg_Nsamples : ℤ

variable {𝕜 : Type*} [Zero 𝕜] [LinearOrder 𝕜]

/-- The number of windows of the reference. -/
def Signals.VAD_length (sig : Signals 𝕜) : ℕ := sig.ref_Nsamples / sig.rate.Downsample.toNat

/-- The window where the degraded signal starts, and the length of an utterance. -/
def del_deg_start (sig : Signals 𝕜) (Crude_DelayEst : ℤ) : ℤ :=
  MINUTTLENGTH - Crude_DelayEst.tdiv sig.rate.Downsample

/-- The window where the degraded signal ends, without the length of an utterance. -/
def del_deg_end (sig : Signals 𝕜) (Crude_DelayEst : ℤ) : ℤ :=
  (sig.deg_Nsamples - Crude_DelayEst).tdiv sig.rate.Downsample - MINUTTLENGTH

/-- A run of speech is an utterance if it is long enough and overlaps the degraded signal. -/
def isUtterance (sig : Signals 𝕜) (Crude_DelayEst this_start count : ℤ) : Bool :=
  count - this_start ≥ MINUTTLENGTH ∧ this_start < del_deg_end sig Crude_DelayEst ∧
    count > del_deg_start sig Crude_DelayEst

/-! ## Scanning the activity -/

/-- The variables of a scan. -/
structure Scan (𝕜 : Type*) extends Traced 𝕜 where
  speech_flag : Bool
  this_start : ℤ
  Utt_num : ℤ

/-- What a scan writes at an end of a run: the tables, the current slot and the position. -/
abbrev Record (𝕜 : Type*) := ErrorInfo 𝕜 → ℤ → ℤ → ErrorInfo 𝕜

/-- A run starts: its start goes to the current slot. -/
def scanStart (record : Record 𝕜) (count : ℕ) (s : Scan 𝕜) : Scan 𝕜 :=
  { err := record s.err s.Utt_num count
    touched := s.touched ++ [s.Utt_num]
    speech_flag := true
    this_start := count
    Utt_num := s.Utt_num }

/-- A run ends: its end goes to the current slot, and the slot is kept if the run is an utterance.
-/
def scanEnd (record : Record 𝕜) (sig : Signals 𝕜) (Crude_DelayEst : ℤ) (count : ℕ) (s : Scan 𝕜) :
    Scan 𝕜 :=
  { err := record s.err s.Utt_num count
    touched := s.touched ++ [s.Utt_num]
    speech_flag := false
    this_start := s.this_start
    -- The slot of a run that is not an utterance is used again.
    Utt_num :=
      if isUtterance sig Crude_DelayEst s.this_start count then s.Utt_num + 1 else s.Utt_num }

/-- A scan for runs of speech, with what it writes at their ends. -/
def scan (record_start record_end : Record 𝕜) (sig : Signals 𝕜) (err : ErrorInfo 𝕜) : Scan 𝕜 :=
  (List.range' 0 sig.VAD_length).foldl
    (flagStep (fun count => 0 < sig.VAD count) (fun count => sig.VAD count = 0)
      (sig.VAD_length - 1) Scan.speech_flag (scanStart record_start)
      (scanEnd record_end sig err.Crude_DelayEst))
    { err, touched := [], speech_flag := false, this_start := 0, Utt_num := 0 }

/-- Records the start of the window to search. -/
def record_search_start (err : ErrorInfo 𝕜) (Utt_num count : ℤ) : ErrorInfo 𝕜 :=
  { err with
    UttSearch_Start := Function.update err.UttSearch_Start Utt_num
      (if count - SEARCHBUFFER < 0 then 0 else count - SEARCHBUFFER) }

/-- Records the end of the window to search. -/
def record_search_end (sig : Signals 𝕜) (err : ErrorInfo 𝕜) (Utt_num count : ℤ) : ErrorInfo 𝕜 :=
  { err with
    UttSearch_End := Function.update err.UttSearch_End Utt_num
      (if count + SEARCHBUFFER > sig.VAD_length - 1 then sig.VAD_length - 1
        else count + SEARCHBUFFER) }

/-- `id_searchwindows` -/
def id_searchwindows (sig : Signals 𝕜) (err : ErrorInfo 𝕜) : Traced 𝕜 :=
  let s := scan record_search_start (record_search_end sig) sig err
  { err := { s.err with Nutterances := s.Utt_num }, touched := s.touched }

/-- Records the start of an utterance. -/
def record_start (err : ErrorInfo 𝕜) (Utt_num count : ℤ) : ErrorInfo 𝕜 :=
  { err with Utt_Start := Function.update err.Utt_Start Utt_num count }

/-- Records the end of an utterance. -/
def record_end (err : ErrorInfo 𝕜) (Utt_num count : ℤ) : ErrorInfo 𝕜 :=
  { err with Utt_End := Function.update err.Utt_End Utt_num count }

/-! ## Boundaries of the utterances -/

/-- The utterances from a first one on. -/
def utterancesFrom (a : ℕ) (err : ErrorInfo 𝕜) : List ℤ :=
  (List.range' a (err.Nutterances.toNat - a)).map Nat.cast

/-- The first utterance starts, and the last one ends, with the signal. -/
def setOuterEnds (sig : Signals 𝕜) (err : ErrorInfo 𝕜) : ErrorInfo 𝕜 :=
  { err with
    Utt_Start := Function.update err.Utt_Start 0 SEARCHBUFFER
    Utt_End := Function.update err.Utt_End (err.Nutterances - 1) (sig.VAD_length - SEARCHBUFFER) }

/-- Two utterances meet in the middle between their runs. -/
def meet (err : ErrorInfo 𝕜) (Utt_num : ℤ) : ErrorInfo 𝕜 :=
  let this_start := err.Utt_Start Utt_num
  let last_end := err.Utt_End (Utt_num - 1)
  let count := (this_start + last_end).tdiv 2
  { err with
    Utt_Start := Function.update err.Utt_Start Utt_num count
    Utt_End := Function.update err.Utt_End (Utt_num - 1) count }

/-- The first utterance starts within the degraded signal. -/
def clampStart (sig : Signals 𝕜) (err : ErrorInfo 𝕜) : ErrorInfo 𝕜 :=
  let this_start := err.Utt_Start 0 * sig.rate.Downsample + err.Utt_Delay 0
  if this_start < SEARCHBUFFER * sig.rate.Downsample then
    let count := SEARCHBUFFER +
      (sig.rate.Downsample - 1 - err.Utt_Delay 0).tdiv sig.rate.Downsample
    { err with Utt_Start := Function.update err.Utt_Start 0 count }
  else err

/-- The last utterance ends within the degraded signal. -/
def clampEnd (sig : Signals 𝕜) (err : ErrorInfo 𝕜) : ErrorInfo 𝕜 :=
  let last := err.Nutterances - 1
  let last_end := err.Utt_End last * sig.rate.Downsample + err.Utt_Delay last
  if last_end > sig.deg_Nsamples - SEARCHBUFFER * sig.rate.Downsample then
    let count := (sig.deg_Nsamples - err.Utt_Delay last).tdiv sig.rate.Downsample - SEARCHBUFFER
    { err with Utt_End := Function.update err.Utt_End last count }
  else err

/-- Two utterances that overlap in the degraded signal, because the delay drops, meet in the middle
of the overlap. -/
def separate (sig : Signals 𝕜) (err : ErrorInfo 𝕜) (Utt_num : ℤ) : ErrorInfo 𝕜 :=
  let this_start := err.Utt_Start Utt_num * sig.rate.Downsample + err.Utt_Delay Utt_num
  let last_end := err.Utt_End (Utt_num - 1) * sig.rate.Downsample + err.Utt_Delay (Utt_num - 1)
  if this_start < last_end then
    let count := (this_start + last_end).tdiv 2
    -- Back to windows of the reference: the start is rounded up, and the end down.
    let this_start := (sig.rate.Downsample - 1 + count - err.Utt_Delay Utt_num).tdiv
      sig.rate.Downsample
    let last_end := (count - err.Utt_Delay (Utt_num - 1)).tdiv sig.rate.Downsample
    { err with
      Utt_Start := Function.update err.Utt_Start Utt_num this_start
      Utt_End := Function.update err.Utt_End (Utt_num - 1) last_end }
  else err

/-- The size of the largest utterance. -/
def setLargest (err : ErrorInfo 𝕜) : ErrorInfo 𝕜 :=
  { err with
    Largest_uttsize := (utterancesFrom 0 err).foldl
      (fun Largest_uttsize Utt_num =>
        if err.Utt_End Utt_num - err.Utt_Start Utt_num > Largest_uttsize then
          err.Utt_End Utt_num - err.Utt_Start Utt_num
        else Largest_uttsize) 0 }

/-- `id_utterances` -/
def id_utterances (sig : Signals 𝕜) (err : ErrorInfo 𝕜) : Traced 𝕜 :=
  let pairs := utterancesFrom 1 err
  let touchedPairs := pairs.flatMap fun Utt_num => [Utt_num, Utt_num - 1]
  let touchedEnds := [0, err.Nutterances - 1]
  let touchedAll := utterancesFrom 0 err
  let s := scan record_start record_end sig err
  -- `Nutterances` is the count of the first scan, whatever this one has found.
  let err := setOuterEnds sig s.err
  let err := pairs.foldl meet err
  let err := clampEnd sig (clampStart sig err)
  let err := pairs.foldl (separate sig) err
  { err := setLargest err
    touched := s.touched ++ touchedEnds ++ touchedPairs ++ touchedEnds ++ touchedPairs ++
      touchedAll }

/-! ## Delays of the utterances -/

/-- What the correlation of the signals finds for an utterance. -/
structure Aligner (𝕜 : Type*) where
  /-- The delay that `crude_align` stores. -/
  crude_align : ErrorInfo 𝕜 → ℤ → ℤ
  /-- The delay and the confidence that `time_align` stores. -/
  time_align : ErrorInfo 𝕜 → ℤ → ℤ × 𝕜

/-- Finds the delay of an utterance. The number `MAXNUTTERANCES` is none of an utterance in the
tables, but `crude_align` takes it for the last slot. -/
def align (al : Aligner 𝕜) (err : ErrorInfo 𝕜) (Utt_id : ℤ) : ErrorInfo 𝕜 :=
  let err :=
    { err with Utt_DelayEst := Function.update err.Utt_DelayEst Utt_id (al.crude_align err Utt_id) }
  { err with
    Utt_Delay := Function.update err.Utt_Delay Utt_id (al.time_align err Utt_id).1
    Utt_DelayConf := Function.update err.Utt_DelayConf Utt_id (al.time_align err Utt_id).2 }

/-- Finds the delays of all utterances. -/
def alignAll (al : Aligner 𝕜) (err : ErrorInfo 𝕜) : ErrorInfo 𝕜 :=
  (utterancesFrom 0 err).foldl (align al) err

/-- The first part of `utterance_locate`: the tables before utterances are split. -/
def locate (al : Aligner 𝕜) (sig : Signals 𝕜) (err : ErrorInfo 𝕜) : Traced 𝕜 :=
  id_utterances sig (alignAll al (id_searchwindows sig err).err)

end TgVoipRate.Pesq
