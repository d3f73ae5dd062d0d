import Mathlib.Analysis.SpecialFunctions.Log.Basic
import Mathlib.Analysis.SpecialFunctions.Sqrt
import TgVoipRate.Pesq.TwoLevels
import TgVoipRate.Pesq.Utterances

/-!
# The utterances are runs of speech

A scan for utterances visits the maximal runs of speech (`scan_eq_foldl`). Every run uses the next
free slot of the tables, also the ones that are rejected afterwards, so the slots that are touched
and the values that stay in them are known for all arrays of activity. The tables do not overflow
exactly if the last run of speech comes after fewer utterances than there are slots
(`tablesInBounds_iff_countP`), and many short bursts do overflow them.
-/

namespace TgVoipRate.Pesq

open Runs (Run IsRuns onFlags slots)

variable {𝕜 : Type*} [Zero 𝕜] [LinearOrder 𝕜]

/-! ## Scanning the activity -/

/-- The last position of a run that a scan sees. -/
def lastSeen (sig : Signals 𝕜) (r : Run) : ℕ := min r.finish (sig.VAD_length - 1)

/-- The run is an utterance. -/
def isAccepted (sig : Signals 𝕜) (Crude_DelayEst : ℤ) (r : Run) : Bool :=
  isUtterance sig Crude_DelayEst r.start (lastSeen sig r)

section Scan

variable {record_start record_end : Record 𝕜} {sig : Signals 𝕜} {err : ErrorInfo 𝕜} {rs : List Run}

/-- What a scan does at a run. -/
def scanRun (record_start record_end : Record 𝕜) (sig : Signals 𝕜) (Crude_DelayEst : ℤ)
    (s : Scan 𝕜) (r : Run) : Scan 𝕜 :=
  onFlags (sig.VAD_length - 1) (scanStart record_start) (scanEnd record_end sig Crude_DelayEst) s r

/-- A scan visits the runs of the activity. -/
theorem scan_eq_foldl (hVAD : ∀ i, 0 ≤ sig.VAD i)
    (h : IsRuns (fun i => 0 < sig.VAD i) 0 sig.VAD_length rs) :
    scan record_start record_end sig err =
      rs.foldl (scanRun record_start record_end sig err.Crude_DelayEst)
        { err, touched := [], speech_flag := false, this_start := 0, Utt_num := 0 } := by
  have hstop : ∀ i, sig.VAD i = 0 ↔ ¬0 < sig.VAD i := fun i =>
    ⟨fun hi => hi ▸ lt_irrefl _, fun hi => le_antisymm (not_lt.mp hi) (hVAD i)⟩
  exact Runs.foldl_flagStep hstop (fun _ _ => rfl) (fun _ _ => rfl) rs 0 _ h rfl

/-- A scan keeps what its records keep. -/
theorem scan_frame {α : Type*} (get : ErrorInfo 𝕜 → α) {onStart onEnd : Record 𝕜}
    (hstart : ∀ err k c, get (onStart err k c) = get err)
    (hend : ∀ err k c, get (onEnd err k c) = get err) :
    get (scan onStart onEnd sig err).err = get err := by
  unfold scan
  generalize hs : Scan.mk (Traced.mk err []) false 0 0 = s
  have herr : get s.err = get err := by rw [← hs]
  clear hs
  generalize List.range' 0 sig.VAD_length = counts
  induction counts generalizing s with
  | nil => exact herr
  | cons count counts ih =>
    apply ih
    simp only [Runs.flagStep]
    split <;> split <;> simp only [scanStart, scanEnd, hstart, hend, herr]

variable {crude : ℤ} {s : Scan 𝕜}

omit [Zero 𝕜] [LinearOrder 𝕜] in
/-- The slot after a run. -/
theorem scanRun_Utt_num (r : Run) :
    (scanRun record_start record_end sig crude s r).Utt_num =
      if isAccepted sig crude r then s.Utt_num + 1 else s.Utt_num :=
  rfl

omit [Zero 𝕜] [LinearOrder 𝕜] in
/-- The slot after the runs: it counts the utterances. -/
theorem foldl_scanRun_Utt_num (rs : List Run) (s : Scan 𝕜) :
    (rs.foldl (scanRun record_start record_end sig crude) s).Utt_num =
      s.Utt_num + rs.countP (isAccepted sig crude) := by
  induction rs generalizing s with
  | nil => simp
  | cons r rs ih =>
    rw [List.foldl_cons, ih, scanRun_Utt_num, List.countP_cons]
    split <;> push_cast <;> omega

omit [Zero 𝕜] [LinearOrder 𝕜] in
/-- The slots that are touched are those of the runs: each utterance takes one. -/
theorem mem_foldl_scanRun_touched (rs : List Run) (s : Scan 𝕜) (n : ℕ) (hn : s.Utt_num = n)
    (i : ℤ) :
    i ∈ (rs.foldl (scanRun record_start record_end sig crude) s).touched ↔
      i ∈ s.touched ∨ ∃ m ∈ slots (isAccepted sig crude) rs n, i = m := by
  induction rs generalizing s n with
  | nil => simp [slots]
  | cons r rs ih =>
    have hr : i ∈ (scanRun record_start record_end sig crude s r).touched ↔
        i ∈ s.touched ∨ i = n := by
      simp [scanRun, onFlags, scanStart, scanEnd, hn]
    have hnext : (scanRun record_start record_end sig crude s r).Utt_num =
        ((if isAccepted sig crude r = true then n + 1 else n : ℕ) : ℤ) := by
      rw [scanRun_Utt_num, hn]
      split <;> rfl
    rw [List.foldl_cons, ih _ _ hnext, hr, slots, List.exists_mem_cons_iff, or_assoc]

omit [Zero 𝕜] [LinearOrder 𝕜] in
/-- A table that one of the records writes at the current slot holds what was written for the
utterances, and what it held before in the slots below. -/
theorem foldl_scanRun_table (get : ErrorInfo 𝕜 → ℤ → ℤ) (value : Run → ℤ)
    (hrun : ∀ s r, get (scanRun record_start record_end sig crude s r).err =
      Function.update (get s.err) s.Utt_num (value r)) :
    ∀ (rs : List Run) (s : Scan 𝕜),
      (∀ j < s.Utt_num,
        get (rs.foldl (scanRun record_start record_end sig crude) s).err j = get s.err j) ∧
      ∀ k (hk : k < (rs.filter (isAccepted sig crude)).length),
        get (rs.foldl (scanRun record_start record_end sig crude) s).err (s.Utt_num + k) =
          value (rs.filter (isAccepted sig crude))[k]
  | [], _ => ⟨fun _ _ => rfl, fun k hk => by simp at hk⟩
  | r :: rs, s => by
    obtain ⟨hbelow, hslots⟩ := foldl_scanRun_table get value hrun rs
      (scanRun record_start record_end sig crude s r)
    rw [scanRun_Utt_num] at hbelow hslots
    by_cases haccepted : isAccepted sig crude r = true
    · rw [if_pos haccepted] at hbelow hslots
      refine ⟨fun j hj => ?_, fun k hk => ?_⟩
      · rw [List.foldl_cons, hbelow j (by omega), hrun, Function.update_of_ne (by omega)]
      · -- The run stays in its slot, since the later ones are recorded above it.
        simp only [List.filter_cons_of_pos haccepted] at hk ⊢
        rw [List.foldl_cons]
        cases k with
        | zero =>
          rw [hbelow _ (by simp), hrun]
          simp
        | succ k =>
          rw [show s.Utt_num + ((k + 1 : ℕ) : ℤ) = s.Utt_num + 1 + k by push_cast; ring]
          exact hslots k (by simpa using hk)
    · -- The slot of a rejected run is used again.
      rw [if_neg haccepted] at hbelow hslots
      refine ⟨fun j hj => ?_, fun k hk => ?_⟩
      · rw [List.foldl_cons, hbelow j hj, hrun, Function.update_of_ne (by omega)]
      · simp only [List.filter_cons_of_neg haccepted] at hk ⊢
        exact hslots k hk

/-- At most one utterance is the last run. -/
theorem countP_le_dropLast (rs : List Run) (p : Run → Bool) :
    rs.countP p ≤ rs.dropLast.countP p + 1 := by
  rcases rs.eq_nil_or_concat with rfl | ⟨qs, q, rfl⟩
  · exact Nat.zero_le _
  · rw [List.concat_eq_append, List.dropLast_concat, List.countP_append, List.countP_singleton]
    split <;> omega

/-- The slots that a scan touches are those of the runs. -/
theorem mem_scan_touched (hVAD : ∀ i, 0 ≤ sig.VAD i)
    (h : IsRuns (fun i => 0 < sig.VAD i) 0 sig.VAD_length rs) (i : ℤ) :
    i ∈ (scan record_start record_end sig err).touched ↔
      ∃ m ∈ slots (isAccepted sig err.Crude_DelayEst) rs 0, i = m := by
  rw [scan_eq_foldl hVAD h, mem_foldl_scanRun_touched rs _ 0 rfl]
  exact or_iff_right List.not_mem_nil

/-- No slot is touched before the first one. -/
theorem scan_touched_nonneg (hVAD : ∀ i, 0 ≤ sig.VAD i)
    (h : IsRuns (fun i => 0 < sig.VAD i) 0 sig.VAD_length rs) {i : ℤ}
    (hi : i ∈ (scan record_start record_end sig err).touched) : 0 ≤ i := by
  obtain ⟨m, -, rfl⟩ := (mem_scan_touched hVAD h i).mp hi
  exact Int.natCast_nonneg m

/-- A slot is touched for the last run, after the utterances before it. -/
theorem scan_touched_le_iff (hVAD : ∀ i, 0 ≤ sig.VAD i)
    (h : IsRuns (fun i => 0 < sig.VAD i) 0 sig.VAD_length rs) (b : ℕ) :
    (∀ i ∈ (scan record_start record_end sig err).touched, i ≤ b) ↔
      rs.dropLast.countP (isAccepted sig err.Crude_DelayEst) ≤ b := by
  have hslots : (∀ m ∈ slots (isAccepted sig err.Crude_DelayEst) rs 0, m < b.succ) ↔ _ :=
    Runs.slots_lt_iff b.succ_pos rs
  rw [← Nat.lt_succ_iff, ← hslots]
  constructor
  · intro hle m hm
    have := hle m ((mem_scan_touched hVAD h m).mpr ⟨m, hm, rfl⟩)
    omega
  · intro hlt i hi
    obtain ⟨m, hm, rfl⟩ := (mem_scan_touched hVAD h i).mp hi
    have := hlt m hm
    omega

end Scan

/-! ## Indices -/

section Indices

variable {sig : Signals 𝕜} {err : ErrorInfo 𝕜} {rs : List Run}

/-- `id_searchwindows` counts the runs that are utterances. -/
theorem id_searchwindows_Nutterances (hVAD : ∀ i, 0 ≤ sig.VAD i)
    (h : IsRuns (fun i => 0 < sig.VAD i) 0 sig.VAD_length rs) :
    (id_searchwindows sig err).err.Nutterances =
      rs.countP (isAccepted sig err.Crude_DelayEst) := by
  unfold id_searchwindows
  rw [scan_eq_foldl hVAD h]
  dsimp only
  rw [foldl_scanRun_Utt_num, zero_add]

omit [Zero 𝕜] [LinearOrder 𝕜] in
/-- The utterances from a first one on. -/
theorem mem_utterancesFrom {a : ℕ} {i : ℤ} :
    i ∈ utterancesFrom a err ↔ a ≤ i ∧ i < err.Nutterances := by
  unfold utterancesFrom
  simp only [List.mem_map, List.mem_range'_1]
  constructor
  · rintro ⟨k, hk, rfl⟩
    omega
  · intro hi
    exact ⟨i.toNat, by omega, by omega⟩

/-- The indices that `id_utterances` touches: those of its scan, the ends of the table, and others
between them. -/
theorem mem_id_utterances_touched {i : ℤ} :
    i ∈ (id_utterances sig err).touched ↔
      i ∈ (scan record_start record_end sig err).touched ∨ i = 0 ∨ i = err.Nutterances - 1 ∨
        (0 ≤ i ∧ i < err.Nutterances) := by
  unfold id_utterances
  simp only [List.mem_append, List.mem_flatMap, mem_utterancesFrom, List.mem_cons,
    List.not_mem_nil, or_false]
  constructor
  · rintro (((((h | h) | ⟨u, hu, h⟩) | h) | ⟨u, hu, h⟩) | h)
    · exact Or.inl h
    all_goals exact Or.inr (by push_cast at *; omega)
  · rintro (h | h | h | h)
    · exact Or.inl (Or.inl (Or.inl (Or.inl (Or.inl h))))
    · exact Or.inl (Or.inl (Or.inr (Or.inl h)))
    · exact Or.inl (Or.inl (Or.inr (Or.inr h)))
    · exact Or.inr (by push_cast; omega)

omit [Zero 𝕜] [LinearOrder 𝕜] in
/-- A pass keeps what its steps keep. -/
theorem foldl_frame {α : Type*} (get : ErrorInfo 𝕜 → α) (step : ErrorInfo 𝕜 → ℤ → ErrorInfo 𝕜)
    (h : ∀ err u, get (step err u) = get err) (us : List ℤ) (err : ErrorInfo 𝕜) :
    get (us.foldl step err) = get err := by
  induction us generalizing err with
  | nil => rfl
  | cons u us ih => exact (ih (step err u)).trans (h err u)

omit [Zero 𝕜] [LinearOrder 𝕜] in
/-- Finding the delays keeps the counters. -/
theorem alignAll_counters (al : Aligner 𝕜) (err : ErrorInfo 𝕜) :
    (alignAll al err).Nutterances = err.Nutterances ∧
      (alignAll al err).Crude_DelayEst = err.Crude_DelayEst :=
  ⟨foldl_frame ErrorInfo.Nutterances (align al) (fun _ _ => rfl) _ err,
    foldl_frame ErrorInfo.Crude_DelayEst (align al) (fun _ _ => rfl) _ err⟩

/-- `id_utterances` keeps the number of utterances. -/
theorem id_utterances_Nutterances (sig : Signals 𝕜) (err : ErrorInfo 𝕜) :
    (id_utterances sig err).err.Nutterances = err.Nutterances := by
  have hscan : (scan record_start record_end sig err).err.Nutterances = err.Nutterances :=
    scan_frame ErrorInfo.Nutterances (fun _ _ _ => rfl) fun _ _ _ => rfl
  have hseparate : ∀ (err : ErrorInfo 𝕜) u, (separate sig err u).Nutterances = err.Nutterances :=
    fun err u => by
      unfold separate
      dsimp only
      split <;> rfl
  have hclamp : ∀ err : ErrorInfo 𝕜,
      (clampEnd sig (clampStart sig err)).Nutterances = err.Nutterances := fun err => by
    unfold clampEnd clampStart
    dsimp only
    split <;> split <;> rfl
  show ((utterancesFrom 1 err).foldl (separate sig) _).Nutterances = _
  rw [foldl_frame ErrorInfo.Nutterances (separate sig) hseparate, hclamp,
    foldl_frame ErrorInfo.Nutterances meet fun _ _ => rfl]
  exact hscan

/-- The utterances are counted by `id_searchwindows`. -/
theorem locate_Nutterances (al : Aligner 𝕜) (sig : Signals 𝕜) (err : ErrorInfo 𝕜) :
    (locate al sig err).err.Nutterances = (id_searchwindows sig err).err.Nutterances :=
  (id_utterances_Nutterances sig _).trans (alignAll_counters al _).1

/-- Every index of the tables that is touched while the utterances are found is in the tables. -/
def TablesInBounds (al : Aligner 𝕜) (sig : Signals 𝕜) (err : ErrorInfo 𝕜) : Prop :=
  (∀ i ∈ (id_searchwindows sig err).touched, i ≤ MAXNUTTERANCES - 1) ∧
    (id_searchwindows sig err).err.Nutterances ≤ MAXNUTTERANCES ∧
    ∀ i ∈ (locate al sig err).touched, i ≤ MAXNUTTERANCES - 1

/-- The tables do not overflow exactly if the last run comes after fewer utterances than there are
slots. -/
theorem tablesInBounds_iff_countP (al : Aligner 𝕜) (hVAD : ∀ i, 0 ≤ sig.VAD i)
    (h : IsRuns (fun i => 0 < sig.VAD i) 0 sig.VAD_length rs) :
    TablesInBounds al sig err ↔
      rs.dropLast.countP (isAccepted sig err.Crude_DelayEst) < MAXNUTTERANCES := by
  have hlast : MAXNUTTERANCES - 1 = ((49 : ℕ) : ℤ) := rfl
  have hmax : MAXNUTTERANCES = 50 := rfl
  have hkeep : (id_searchwindows sig err).err.Crude_DelayEst = err.Crude_DelayEst :=
    scan_frame ErrorInfo.Crude_DelayEst (fun _ _ _ => rfl) fun _ _ _ => rfl
  obtain ⟨hN, hcrude⟩ := alignAll_counters al (id_searchwindows sig err).err
  have hsearch : (∀ i ∈ (id_searchwindows sig err).touched, i ≤ ((49 : ℕ) : ℤ)) ↔
      rs.dropLast.countP (isAccepted sig err.Crude_DelayEst) ≤ 49 := scan_touched_le_iff hVAD h 49
  have hscan : (∀ i ∈ (scan record_start record_end sig
        (alignAll al (id_searchwindows sig err).err)).touched, i ≤ ((49 : ℕ) : ℤ)) ↔
      rs.dropLast.countP (isAccepted sig
        (alignAll al (id_searchwindows sig err).err).Crude_DelayEst) ≤ 49 :=
    scan_touched_le_iff hVAD h 49
  have hcount : (id_searchwindows sig err).err.Nutterances =
      rs.countP (isAccepted sig err.Crude_DelayEst) := id_searchwindows_Nutterances hVAD h
  have hle := countP_le_dropLast rs (isAccepted sig err.Crude_DelayEst)
  rw [hcrude, hkeep] at hscan
  unfold TablesInBounds
  rw [hlast, hmax]
  constructor
  · rintro ⟨hs, -, -⟩
    have := hsearch.mp hs
    omega
  · intro hlt
    -- With room for the last run there is room for one more utterance, so also for the second scan.
    refine ⟨hsearch.mpr (by omega), by omega, fun i hi => ?_⟩
    rcases mem_id_utterances_touched.mp hi with hi | hi
    · exact hscan.mpr (by omega) i hi
    · omega

end Indices

/-! ## Utterances of detected speech -/

section Detected

variable {𝕜 : Type*} [Field 𝕜] [LinearOrder 𝕜] [IsStrictOrderedRing 𝕜]

/-- The signals with a reference whose windows have given energies. -/
def Signals.ofEnergies (math : Math 𝕜) (rate : Rate) (energy : ℕ → 𝕜) (ref_Nsamples : ℕ)
    (deg_Nsamples : ℤ) : Signals 𝕜 :=
  { rate
    VAD := (detectActivity math energy (ref_Nsamples / rate.Downsample.toNat)).VAD
    ref_Nsamples
    deg_Nsamples }

/-- The speech of the reference. -/
theorem isRuns_ofEnergies {math : Math 𝕜} {rate : Rate} {energy : ℕ → 𝕜} {ref_Nsamples : ℕ}
    {deg_Nsamples : ℤ} (hN : 7 ≤ ref_Nsamples / rate.Downsample.toNat) :
    IsRuns (fun i => 0 < (Signals.ofEnergies math rate energy ref_Nsamples deg_Nsamples).VAD i) 0
      (Signals.ofEnergies math rate energy ref_Nsamples deg_Nsamples).VAD_length
      (speechRuns energy (ref_Nsamples / rate.Downsample.toNat) math) :=
  isRuns_detectActivity energy math hN

/-- The tables do not overflow exactly if the last run of speech comes after fewer utterances than
there are slots. -/
theorem tablesInBounds_iff (math : Math 𝕜) (rate : Rate) (energy : ℕ → 𝕜) (ref_Nsamples : ℕ)
    (deg_Nsamples : ℤ) (al : Aligner 𝕜) (err : ErrorInfo 𝕜)
    (hN : 7 ≤ ref_Nsamples / rate.Downsample.toNat) :
    TablesInBounds al (Signals.ofEnergies math rate energy ref_Nsamples deg_Nsamples) err ↔
      (speechRuns energy (ref_Nsamples / rate.Downsample.toNat) math).dropLast.countP
          (isAccepted (Signals.ofEnergies math rate energy ref_Nsamples deg_Nsamples)
            err.Crude_DelayEst) < MAXNUTTERANCES :=
  tablesInBounds_iff_countP al (detectActivity_nonneg energy math) (isRuns_ofEnergies hN)

end Detected

/-! ## Many bursts -/

section Periodic

/-- The C library over the real numbers. -/
noncomputable def realMath : Math ℝ := { sqrt := Real.sqrt, log := Real.log }

/-- The same delay is found for every utterance. -/
def delayed (delay : ℤ) : Aligner ℝ :=
  { crude_align := fun _ _ => delay, time_align := fun _ _ => (delay, 1) }

/-- Between silence at both ends, every second block of 64 windows is loud. -/
def blocks (n i : ℕ) : Prop := 80 ≤ i ∧ i < 128 * n + 16 ∧ (i - 80) % 128 < 64

instance (n : ℕ) : DecidablePred (blocks n) := fun _ => inferInstanceAs (Decidable (_ ∧ _ ∧ _))

/-- The loud blocks, with some windows on each side. -/
def blockRuns (w n : ℕ) : List Run :=
  (List.range n).map fun k => ⟨128 * k + 80 - w, 128 * k + 144 + w, by omega⟩

/-- The loud blocks are the runs of loud windows. -/
theorem isRuns_blocks (n : ℕ) :
    IsRuns (blocks n) 1 (1 + (128 * n + 96 - 2)) (blockRuns 0 n) := by
  refine ⟨?_, fun r hr => ?_, fun i hi hN => ?_⟩
  · refine List.pairwise_map.mpr (List.pairwise_lt_range.imp fun {j k} hjk => ?_)
    show 128 * j + 144 + 0 < 128 * k + 80 - 0
    omega
  · obtain ⟨k, hk, rfl⟩ := List.mem_map.mp hr
    have := List.mem_range.mp hk
    show 1 ≤ 128 * k + 80 - 0 ∧ 128 * k + 144 + 0 ≤ 1 + (128 * n + 96 - 2)
    omega
  · constructor
    · rintro ⟨h1, h2, h3⟩
      refine ⟨_, List.mem_map.mpr ⟨(i - 80) / 128, List.mem_range.mpr (by omega), rfl⟩, ?_, ?_⟩
      · show 128 * ((i - 80) / 128) + 80 - 0 ≤ i
        omega
      · show i < 128 * ((i - 80) / 128) + 144 + 0
        omega
    · rintro ⟨r, hr, h1, h2⟩
      obtain ⟨k, hk, rfl⟩ := List.mem_map.mp hr
      have hk := List.mem_range.mp hk
      have h1 : 128 * k + 80 - 0 ≤ i := h1
      have h2 : i < 128 * k + 144 + 0 := h2
      refine ⟨?_, ?_, ?_⟩ <;> omega

/-- The speech of a signal with loud blocks: the blocks are far enough from each other to stay
apart. -/
theorem speechRuns_blocks {n : ℕ} (hn : 0 < n) (hmany : n ≤ 77) :
    speechRuns (twoLevels (blocks n) (1 : ℝ) 0) (128 * n + 96) realMath = blockRuns 2 n := by
  have hmixed : Mixed (blocks n) (128 * n + 96) := by
    have hfirst : blocks n 80 := ⟨by omega, by omega, by omega⟩
    have hloud : 0 < Nat.count (blocks n) (128 * n + 96) :=
      Nat.pos_of_ne_zero (Nat.count_ne_iff_exists.mpr ⟨80, by omega, hfirst⟩)
    exact ⟨⟨0, by omega, fun h => absurd h.1 (by omega)⟩, by omega⟩
  -- No block is too short, and no gap is short enough to be filled.
  have hlong : (blockRuns 0 n).filter isLong = blockRuns 0 n := by
    refine List.filter_eq_self.mpr fun r hr => ?_
    obtain ⟨k, -, rfl⟩ := List.mem_map.mp hr
    apply decide_eq_true
    show 4 < 128 * k + 144 + 0 - (128 * k + 80 - 0)
    omega
  have hfar : (blockRuns 0 n).Pairwise fun r q => r.finish + 50 < q.start := by
    refine List.pairwise_map.mpr (List.pairwise_lt_range.imp fun {j k} hjk => ?_)
    show 128 * j + 144 + 0 + 50 < 128 * k + 80 - 0
    omega
  have hne : blockRuns 0 n ≠ [] := by
    simp [blockRuns]
    omega
  rw [speechRuns_twoLevels Real.sqrt_zero one_pos hmixed (isRuns_blocks n), hlong,
    Runs.joinGaps_eq_self hfar, orWhole, if_neg hne]
  unfold blockRuns
  rw [List.map_map]
  refine List.map_congr_left fun k hk => ?_
  have hk := List.mem_range.mp hk
  refine Run.ext ?_ (if_pos ?_)
  · show min (128 * k + 80 - 0) (max 1 (128 * k + 80 - 0 - 2)) = 128 * k + 80 - 2
    omega
  · show 128 * k + 144 + 0 + 2 < 128 * n + 96
    omega

/-- A signal with loud blocks, and one in step with it. -/
noncomputable def blockSignals (n : ℕ) : Signals ℝ :=
  Signals.ofEnergies realMath rate_16k (twoLevels (blocks n) 1 0) ((128 * n + 96) * 64)
    ((128 * n + 96) * 64)

/-- The number of windows of a signal with loud blocks. -/
theorem blockSignals_windows (n : ℕ) :
    (128 * n + 96) * 64 / rate_16k.Downsample.toNat = 128 * n + 96 :=
  Nat.mul_div_cancel _ (by decide)

/-- Every loud block is an utterance. -/
theorem isAccepted_blocks (n : ℕ) : ∀ r ∈ blockRuns 2 n,
    isAccepted (blockSignals n) (ErrorInfo.zero : ErrorInfo ℝ).Crude_DelayEst r = true := by
  intro r hr
  obtain ⟨k, hk, rfl⟩ := List.mem_map.mp hr
  have hk := List.mem_range.mp hk
  have hend : del_deg_end (blockSignals n) 0 = 128 * n + 96 - 50 := by
    show (((128 * n + 96) * 64 : ℤ) - 0).tdiv 64 - 50 = 128 * n + 96 - 50
    rw [sub_zero, Int.mul_tdiv_cancel _ (by decide)]
  have hlast : (blockSignals n).VAD_length - 1 = 128 * n + 95 := by
    show (128 * n + 96) * 64 / rate_16k.Downsample.toNat - 1 = 128 * n + 95
    rw [blockSignals_windows]
    omega
  apply decide_eq_true
  unfold lastSeen
  rw [hlast]
  show ((min (128 * k + 144 + 2) (128 * n + 95) : ℕ) : ℤ) - (128 * k + 80 - 2 : ℕ) ≥ 50 ∧
    ((128 * k + 80 - 2 : ℕ) : ℤ) < del_deg_end (blockSignals n) 0 ∧
      ((min (128 * k + 144 + 2) (128 * n + 95) : ℕ) : ℤ) > 50
  omega

/-- The utterances before the last block. -/
theorem countP_blocks (n : ℕ) :
    (blockRuns 2 n).dropLast.countP
      (isAccepted (blockSignals n) (ErrorInfo.zero : ErrorInfo ℝ).Crude_DelayEst) = n - 1 := by
  rw [List.countP_eq_length.mpr fun r hr => isAccepted_blocks n r (List.mem_of_mem_dropLast hr)]
  simp [blockRuns]

/-- The activity of a signal with loud blocks. -/
theorem isRuns_blockSignals {n : ℕ} (hn : 0 < n) (hmany : n ≤ 77) :
    IsRuns (fun i => 0 < (blockSignals n).VAD i) 0 (blockSignals n).VAD_length (blockRuns 2 n) := by
  have hruns : IsRuns (fun i => 0 < (blockSignals n).VAD i) 0 (blockSignals n).VAD_length
      (speechRuns (twoLevels (blocks n) 1 0)
        ((128 * n + 96) * 64 / rate_16k.Downsample.toNat) realMath) :=
    isRuns_ofEnergies (by rw [blockSignals_windows]; omega)
  rwa [blockSignals_windows, speechRuns_blocks hn hmany] at hruns

/-- As many blocks as there are slots fit. -/
theorem tables_fit : TablesInBounds (delayed 0) (blockSignals 50) ErrorInfo.zero := by
  apply (tablesInBounds_iff _ _ _ _ _ _ _ (by decide)).mpr
  rw [blockSignals_windows 50, speechRuns_blocks (by omega) (by omega)]
  show (((blockRuns 2 50).dropLast.countP (isAccepted (blockSignals 50) _) : ℕ) : ℤ) < 50
  rw [countP_blocks]
  omega

/-- With one block more than there are slots, the tables overflow. -/
theorem tables_overflow : ¬TablesInBounds (delayed 0) (blockSignals 51) ErrorInfo.zero := by
  rw [tablesInBounds_iff_countP (delayed 0) (detectActivity_nonneg _ _)
    (isRuns_blockSignals (by omega) (by omega)), countP_blocks]
  decide

end Periodic

end TgVoipRate.Pesq
