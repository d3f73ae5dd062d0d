import TgVoipRate.Pesq.SplitSpec

/-!
# The two scans for utterances agree

`id_searchwindows` counts the runs of speech that are utterances and records a search window for
each; `id_utterances`, after the delays were found, scans for the runs again and trusts the count.
Both scans visit the same runs with the same test, so they accept the same ones in the same slots
(`scans_agree`). A run that reaches the last window is closed at that window, where any other run is
closed at the first window behind it (`lastSeen`): so the statement for the exact ends of the runs
fails (`scans_miss_last_window`).
-/

namespace TgVoipRate.Pesq

open Runs (Run IsRuns)

variable {𝕜 : Type*} [Zero 𝕜] [LinearOrder 𝕜]

/-- The tables when the second scan starts: the first scan has been made, and the delays were
found. -/
def beforeScan (al : Aligner 𝕜) (sig : Signals 𝕜) (err : ErrorInfo 𝕜) : ErrorInfo 𝕜 :=
  alignAll al (id_searchwindows sig err).err

/-- The second scan. -/
def secondScan (al : Aligner 𝕜) (sig : Signals 𝕜) (err : ErrorInfo 𝕜) : Scan 𝕜 :=
  scan record_start record_end sig (beforeScan al sig err)

/-- The maximal runs of speech that are long enough and overlap the degraded signal, where a
function says where a run ends. -/
def longRuns (sig : Signals 𝕜) (Crude_DelayEst : ℤ) (ends : Run → ℕ) : List Run :=
  (speechOf sig).filter fun r => isUtterance sig Crude_DelayEst r.start (ends r)

/-- Both scans accept the given runs: they count them, and the tables hold their ends and the
windows to search, which the search for the delays leaves alone. -/
structure ScansAgree (al : Aligner 𝕜) (sig : Signals 𝕜) (err : ErrorInfo 𝕜) (ends : Run → ℕ)
    (rs : List Run) : Prop where
  /-- The number of search windows. -/
  count : (id_searchwindows sig err).err.Nutterances = rs.length
  /-- The number of runs that the second scan accepts. -/
  count_second : (secondScan al sig err).Utt_num = rs.length
  /-- The number of utterances that the second scan is told. -/
  count_kept : (secondScan al sig err).err.Nutterances = rs.length
  /-- The starts of the runs. -/
  Utt_Start : ∀ k (hk : k < rs.length), (secondScan al sig err).err.Utt_Start k = (rs[k].start : ℤ)
  /-- The ends of the runs. -/
  Utt_End : ∀ k (hk : k < rs.length), (secondScan al sig err).err.Utt_End k = (ends rs[k] : ℤ)
  /-- The starts of the search windows. -/
  UttSearch_Start : ∀ k (_ : k < rs.length), (secondScan al sig err).err.UttSearch_Start k =
    max 0 ((secondScan al sig err).err.Utt_Start k - SEARCHBUFFER)
  /-- The ends of the search windows. -/
  UttSearch_End : ∀ k (_ : k < rs.length), (secondScan al sig err).err.UttSearch_End k =
    min ((sig.VAD_length : ℤ) - 1) ((secondScan al sig err).err.Utt_End k + SEARCHBUFFER)
  /-- The slots are in the tables. -/
  touched : ∀ i ∈ (id_searchwindows sig err).touched ++ (secondScan al sig err).touched,
    0 ≤ i ∧ i < MAXNUTTERANCES

variable {al : Aligner 𝕜} {sig : Signals 𝕜} {err : ErrorInfo 𝕜}

/-- The search windows after the first scan. -/
theorem id_searchwindows_table (hVAD : ∀ i, 0 ≤ sig.VAD i) {k : ℕ}
    (hk : k < (utteranceRuns sig err.Crude_DelayEst).length) :
    (id_searchwindows sig err).err.UttSearch_Start k =
        max 0 (((utteranceRuns sig err.Crude_DelayEst)[k].start : ℤ) - SEARCHBUFFER) ∧
      (id_searchwindows sig err).err.UttSearch_End k =
        min ((sig.VAD_length : ℤ) - 1)
          ((lastSeen sig (utteranceRuns sig err.Crude_DelayEst)[k] : ℤ) + SEARCHBUFFER) := by
  have hzero : (k : ℤ) = 0 + k := (zero_add _).symm
  have hscan : (id_searchwindows sig err).err.UttSearch_Start k =
        (if ((utteranceRuns sig err.Crude_DelayEst)[k].start : ℤ) - SEARCHBUFFER < 0 then 0
        else ((utteranceRuns sig err.Crude_DelayEst)[k].start : ℤ) - SEARCHBUFFER) ∧
      (id_searchwindows sig err).err.UttSearch_End k =
        if (lastSeen sig (utteranceRuns sig err.Crude_DelayEst)[k] : ℤ) + SEARCHBUFFER >
            sig.VAD_length - 1 then (sig.VAD_length : ℤ) - 1
        else (lastSeen sig (utteranceRuns sig err.Crude_DelayEst)[k] : ℤ) + SEARCHBUFFER := by
    unfold id_searchwindows
    dsimp only
    rw [scan_eq_foldl hVAD (isRuns_speechOf sig), hzero]
    exact ⟨(foldl_scanRun_table ErrorInfo.UttSearch_Start
        (fun r => if (r.start : ℤ) - SEARCHBUFFER < 0 then 0 else (r.start : ℤ) - SEARCHBUFFER)
        (fun _ _ => rfl) (speechOf sig) _).2 k hk,
      (foldl_scanRun_table ErrorInfo.UttSearch_End
        (fun r => if (lastSeen sig r : ℤ) + SEARCHBUFFER > sig.VAD_length - 1 then
          (sig.VAD_length : ℤ) - 1 else (lastSeen sig r : ℤ) + SEARCHBUFFER)
        (fun _ _ => rfl) (speechOf sig) _).2 k hk⟩
  rw [hscan.1, hscan.2]
  constructor
  · split <;> omega
  · split <;> omega

/-- What neither the search for the delays nor the second scan writes is as the first scan left it.
-/
theorem secondScan_keeps {α : Type*} (get : ErrorInfo 𝕜 → α)
    (hstart : ∀ err k c, get (record_start err k c) = get err)
    (hend : ∀ err k c, get (record_end err k c) = get err)
    (halign : ∀ err u, get (align al err u) = get err) :
    get (secondScan al sig err).err = get (id_searchwindows sig err).err :=
  calc get (secondScan al sig err).err = get (beforeScan al sig err) := scan_frame get hstart hend
    _ = get (id_searchwindows sig err).err := foldl_frame get (align al) halign _ _

/-- The second scan looks for the same part of the degraded signal. -/
theorem beforeScan_Crude_DelayEst (al : Aligner 𝕜) (sig : Signals 𝕜) (err : ErrorInfo 𝕜) :
    (beforeScan al sig err).Crude_DelayEst = err.Crude_DelayEst :=
  (alignAll_counters al _).2.trans
    (scan_frame ErrorInfo.Crude_DelayEst (fun _ _ _ => rfl) fun _ _ _ => rfl)

/-- The ends of the runs after the second scan. -/
theorem secondScan_table (al : Aligner 𝕜) (hVAD : ∀ i, 0 ≤ sig.VAD i) {k : ℕ}
    (hk : k < (utteranceRuns sig err.Crude_DelayEst).length) :
    (secondScan al sig err).err.Utt_Start k =
        ((utteranceRuns sig err.Crude_DelayEst)[k].start : ℤ) ∧
      (secondScan al sig err).err.Utt_End k =
        (lastSeen sig (utteranceRuns sig err.Crude_DelayEst)[k] : ℤ) := by
  have hscan := scan_table hVAD
    (congrArg (utteranceRuns sig) (beforeScan_Crude_DelayEst al sig err)) hk
  rwa [runAt, List.getD_eq_getElem _ _ hk] at hscan

/-- Whether the scans agree depends on the ends of the runs of speech only. -/
theorem ScansAgree.congr {ends ends' : Run → ℕ} (hends : ∀ r ∈ speechOf sig, ends r = ends' r)
    (h : ScansAgree al sig err ends (longRuns sig err.Crude_DelayEst ends)) :
    ScansAgree al sig err ends' (longRuns sig err.Crude_DelayEst ends') := by
  have hlong : longRuns sig err.Crude_DelayEst ends = longRuns sig err.Crude_DelayEst ends' :=
    List.filter_congr fun r hr => by rw [hends r hr]
  rw [hlong] at h
  refine { h with Utt_End := fun k hk => ?_ }
  have hmem : (longRuns sig err.Crude_DelayEst ends')[k] ∈ speechOf sig :=
    (List.mem_filter.mp (List.getElem_mem hk)).1
  rw [h.Utt_End k hk, hends _ hmem]

/-- If the last window is silent, every run ends before it. -/
theorem lastSeen_eq_finish (hlast : sig.VAD (sig.VAD_length - 1) = 0) :
    ∀ r ∈ speechOf sig, lastSeen sig r = r.finish := by
  intro r hr
  have hfinish := (isRuns_speechOf sig).finish_lt (fun hpos => absurd hlast hpos.ne') r hr
  unfold lastSeen
  omega

/-- The two scans agree, as long as fewer runs are accepted than there are slots: both accept the
maximal runs of speech that are long enough and overlap the degraded signal, where a run that
reaches the last window ends there. If the last window is silent, the ends are those of the runs. -/
theorem scans_agree (al : Aligner 𝕜) (sig : Signals 𝕜) (err : ErrorInfo 𝕜)
    (hVAD : ∀ i, 0 ≤ sig.VAD i)
    (hroom : (id_searchwindows sig err).err.Nutterances < MAXNUTTERANCES) :
    ScansAgree al sig err (lastSeen sig) (longRuns sig err.Crude_DelayEst (lastSeen sig)) ∧
      (sig.VAD (sig.VAD_length - 1) = 0 →
        ScansAgree al sig err Run.finish (longRuns sig err.Crude_DelayEst Run.finish)) := by
  have hruns := isRuns_speechOf sig
  have hlong : longRuns sig err.Crude_DelayEst (lastSeen sig) =
      utteranceRuns sig err.Crude_DelayEst := rfl
  have hcrude := beforeScan_Crude_DelayEst al sig err
  have hcount : (id_searchwindows sig err).err.Nutterances =
      (speechOf sig).countP (isAccepted sig err.Crude_DelayEst) :=
    id_searchwindows_Nutterances hVAD hruns
  have hlength : ((utteranceRuns sig err.Crude_DelayEst).length : ℤ) =
      (speechOf sig).countP (isAccepted sig err.Crude_DelayEst) := by
    rw [utteranceRuns, List.countP_eq_length_filter]
  have hsecond : (secondScan al sig err).Utt_num =
      (speechOf sig).countP (isAccepted sig err.Crude_DelayEst) := by
    unfold secondScan
    rw [scan_eq_foldl hVAD hruns, foldl_scanRun_Utt_num, hcrude, zero_add]
  -- The second scan writes neither the windows nor the number of utterances.
  have hsearch : ∀ k : ℕ, (secondScan al sig err).err.UttSearch_Start k =
        (id_searchwindows sig err).err.UttSearch_Start k ∧
      (secondScan al sig err).err.UttSearch_End k =
        (id_searchwindows sig err).err.UttSearch_End k :=
    fun k => ⟨secondScan_keeps (fun e => e.UttSearch_Start k) (fun _ _ _ => rfl) (fun _ _ _ => rfl)
        fun _ _ => rfl,
      secondScan_keeps (fun e => e.UttSearch_End k) (fun _ _ _ => rfl) (fun _ _ _ => rfl)
        fun _ _ => rfl⟩
  have hkept : (secondScan al sig err).err.Nutterances =
      (id_searchwindows sig err).err.Nutterances :=
    secondScan_keeps ErrorInfo.Nutterances (fun _ _ _ => rfl) (fun _ _ _ => rfl) fun _ _ => rfl
  suffices hseen : ScansAgree al sig err (lastSeen sig)
      (longRuns sig err.Crude_DelayEst (lastSeen sig)) from
    ⟨hseen, fun hlast => hseen.congr (lastSeen_eq_finish hlast)⟩
  rw [hlong]
  refine ⟨hcount.trans hlength.symm, hsecond.trans hlength.symm,
    hkept.trans (hcount.trans hlength.symm), fun k hk => (secondScan_table al hVAD hk).1,
    fun k hk => (secondScan_table al hVAD hk).2, fun k hk => ?_, fun k hk => ?_, fun i hi => ?_⟩
  · rw [(hsearch k).1, (secondScan_table al hVAD hk).1, (id_searchwindows_table hVAD hk).1]
  · rw [(hsearch k).2, (secondScan_table al hVAD hk).2, (id_searchwindows_table hVAD hk).2]
  · -- The slots that are touched are at most the number of accepted runs before the last run.
    have hbefore : (speechOf sig).dropLast.countP (isAccepted sig err.Crude_DelayEst) ≤ 49 := by
      have hle : (speechOf sig).dropLast.countP (isAccepted sig err.Crude_DelayEst) ≤
          (speechOf sig).countP (isAccepted sig err.Crude_DelayEst) :=
        (List.dropLast_sublist (speechOf sig)).countP_le
      have hmax : MAXNUTTERANCES = 50 := rfl
      omega
    have hmax : MAXNUTTERANCES = ((49 : ℕ) : ℤ) + 1 := rfl
    rcases List.mem_append.mp hi with hi | hi
    · have hle := (scan_touched_le_iff hVAD hruns 49).mpr hbefore i hi
      exact ⟨scan_touched_nonneg hVAD hruns hi, by omega⟩
    · have hle := (scan_touched_le_iff hVAD hruns 49).mpr (by rw [hcrude]; exact hbefore) i hi
      exact ⟨scan_touched_nonneg hVAD hruns hi, by omega⟩

/-! ## A run that reaches the last window -/

/-- Signals of 200 windows, with speech in a range. -/
noncomputable def speechIn (a b : ℕ) : Signals ℝ where
  rate := rate_16k
  VAD i := if a ≤ i ∧ i < b then 1 else 0
  ref_Nsamples := 12800
  deg_Nsamples := 12800

/-- The activity is not negative. -/
theorem speechIn_nonneg (a b : ℕ) : ∀ i, 0 ≤ (speechIn a b).VAD i := fun i => by
  show (0 : ℝ) ≤ if a ≤ i ∧ i < b then 1 else 0
  split
  · exact zero_le_one
  · exact le_refl 0

/-- The speech is one run. -/
theorem speechOf_speechIn {a b : ℕ} (hab : a < b) (hb : b ≤ 200) :
    speechOf (speechIn a b) = [⟨a, b, hab⟩] := by
  have hlength : (speechIn a b).VAD_length = 200 := by
    show 12800 / rate_16k.Downsample.toNat = 200
    decide
  refine (isRuns_speechOf (speechIn a b)).unique
    (Runs.isRuns_singleton (Nat.zero_le _) (hb.trans_eq hlength.symm) ?_)
  intro i _ _
  show (0 : ℝ) < (if a ≤ i ∧ i < b then 1 else 0) ↔ a ≤ i ∧ i < b
  split
  · rename_i h
    exact iff_of_true one_pos h
  · rename_i h
    exact iff_of_false (lt_irrefl _) h

/-- The speech is accepted by the test for utterances. -/
theorem utteranceRuns_speechIn {b : ℕ} (hb : b = 199 ∨ b = 200) :
    utteranceRuns (speechIn 100 b) 0 = [⟨100, b, by omega⟩] := by
  unfold utteranceRuns
  rw [speechOf_speechIn (by omega) (by omega)]
  rcases hb with rfl | rfl <;> decide

/-- The number of search windows. -/
theorem id_searchwindows_speechIn {b : ℕ} (hb : b = 199 ∨ b = 200) :
    (id_searchwindows (speechIn 100 b) ErrorInfo.zero).err.Nutterances = 1 := by
  rw [id_searchwindows_Nutterances (speechIn_nonneg 100 b) (isRuns_speechOf _),
    List.countP_eq_length_filter]
  show (((utteranceRuns (speechIn 100 b) 0).length : ℕ) : ℤ) = 1
  rw [utteranceRuns_speechIn hb]
  rfl

/-- Speech that ends before the last window: the end of the utterance is the end of the run. -/
theorem scans_agree_inner :
    ScansAgree (delayed 0) (speechIn 100 199) ErrorInfo.zero (lastSeen (speechIn 100 199))
      (longRuns (speechIn 100 199) 0 (lastSeen (speechIn 100 199))) :=
  (scans_agree (delayed 0) (speechIn 100 199) ErrorInfo.zero (speechIn_nonneg 100 199)
    (by rw [id_searchwindows_speechIn (Or.inl rfl)]; decide)).1

/-- Speech that reaches the last window: the end of the utterance is not the end of the run. -/
theorem scans_miss_last_window :
    (id_searchwindows (speechIn 100 200) ErrorInfo.zero).err.Nutterances < MAXNUTTERANCES ∧
      ¬ScansAgree (delayed 0) (speechIn 100 200) ErrorInfo.zero Run.finish
        (longRuns (speechIn 100 200) 0 Run.finish) := by
  refine ⟨by rw [id_searchwindows_speechIn (Or.inr rfl)]; decide, fun hagree => ?_⟩
  have hruns : longRuns (speechIn 100 200) 0 Run.finish = [⟨100, 200, by omega⟩] := by
    unfold longRuns
    rw [speechOf_speechIn (by omega) (by omega)]
    decide
  have haccepted : utteranceRuns (speechIn 100 200) (ErrorInfo.zero : ErrorInfo ℝ).Crude_DelayEst =
      [⟨100, 200, by omega⟩] := utteranceRuns_speechIn (Or.inr rfl)
  -- The scan records window 199 as the end; the run ends in front of window 200.
  have hrecorded := (secondScan_table (delayed 0) (speechIn_nonneg 100 200)
    (show 0 < (utteranceRuns (speechIn 100 200)
      (ErrorInfo.zero : ErrorInfo ℝ).Crude_DelayEst).length
      by rw [haccepted]; decide)).2
  have hclaimed := hagree.Utt_End 0 (by rw [hruns]; decide)
  simp only [haccepted, List.getElem_cons_zero] at hrecorded
  simp only [hruns, List.getElem_cons_zero] at hclaimed
  exact absurd (hrecorded.symm.trans hclaimed) (by decide)

end TgVoipRate.Pesq
