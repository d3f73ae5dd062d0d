import TgVoipRate.Pesq.LoadSrcSpec

/-!
# The buffers of `load_src`

The number of samples of a file is its number of words less the words of a header that its name
calls for, and nothing checks that the file has a header. Where it has, the loop asks for no more
words than its buffer has room for (`blockCounts_le`), gets as many samples as it counted
(`readBlocks_length`), and the paddings fill the rest of the array. Where the file is shorter than a
header, the count is negative: the array is too short for the paddings, and as a `size_t` the count
is huge. So `load_src` stays in its buffers exactly if the file is long enough for the header
(`load_src_staysInBuffers_iff`).
-/

namespace TgVoipRate.Pesq

/-! ## The counts -/

/-- The counts that the block loop asks `fread` for. -/
def blockCounts (to_read : ℤ) (file : List UInt8) : List ℕ :=
  if to_read > blockSize then
    let (block, file) := freadShorts blockSize file
    if block.length < blockSize then [blockSize]
    else blockSize :: blockCounts (to_read - blockSize) file
  else [(to_read % 2^64).toNat]
termination_by to_read.toNat
decreasing_by
  simp only [blockSize] at *
  omega

/-- The counts that `load_src` asks `fread` for: those of the header and of the blocks. -/
def load_src_counts (sys : System) (Src_file : Option (List UInt8)) (sinfo : SignalInfo) : List ℕ :=
  if !sys.malloc 0 then []
  else
    match Src_file with
    | none => []
    | some file =>
      if !sys.seek_end then []
      else if !sys.tell then []
      else if !sys.seek_set then []
      else
        let file_size : ℤ := file.length
        let header_size := headerSize sinfo.path_name
        let header := if header_size > 0 then [header_size.toNat] else []
        let file := if header_size > 0 then (freadShorts header_size.toNat file).2 else file
        let Nsamples := file_size / 2 - header_size
        if !sys.malloc 1 then header else header ++ blockCounts Nsamples file

/-- The loop asks for no more words than a block has, if the number of samples is not negative. -/
theorem blockCounts_le {to_read : ℤ} {file : List UInt8} (hpos : 0 ≤ to_read) :
    ∀ n ∈ blockCounts to_read file, n ≤ blockSize := by
  induction to_read, file using blockCounts.induct with
  | case1 to_read file hlong block rest hread hshort =>
    rw [blockCounts, if_pos hlong]
    simp [hread, hshort]
  | case2 to_read file hlong block rest hread hfull ih =>
    rw [blockCounts, if_pos hlong]
    simp only [hread, if_neg hfull, List.forall_mem_cons]
    exact ⟨le_refl _, ih (by omega)⟩
  | case3 to_read file hlast =>
    rw [blockCounts, if_neg hlast]
    simp only [List.mem_singleton, forall_eq]
    unfold blockSize at hlast ⊢
    omega

/-- A negative number of samples is asked for as a huge one. -/
theorem blockCounts_of_neg {to_read : ℤ} (file : List UInt8) (hneg : to_read < 0)
    (hge : -2^63 ≤ to_read) : ∃ n ∈ blockCounts to_read file, blockSize < n := by
  rw [blockCounts, if_neg (by unfold blockSize; omega)]
  exact ⟨_, List.mem_singleton_self _, by unfold blockSize; omega⟩

/-- `fread` gives at most as many words as it was asked for, and all that are left otherwise. -/
theorem freadShorts_length (count : ℕ) (file : List UInt8) :
    (freadShorts count file).1.length = min count (file.length / 2) := by
  rw [freadShorts, Wav.memSamples, List.length_map, LittleEndian.decodeAll_length]

/-- The blocks give as many samples as were asked for. -/
theorem readBlocks_length {apply_swap : Bool} {to_read : ℤ} {file : List UInt8} {values : List ℤ}
    (hpos : 0 ≤ to_read) (h : readBlocks apply_swap to_read file = .ok values) :
    (values.length : ℤ) = to_read := by
  induction to_read, file using blockCounts.induct generalizing values with
  | case1 to_read file hlong block rest hread hshort =>
    rw [readBlocks, if_pos hlong] at h
    simp [hread, hshort] at h
  | case2 to_read file hlong block rest hread hfull ih =>
    rw [readBlocks, if_pos hlong] at h
    simp only [hread, if_neg hfull] at h
    cases hrest : readBlocks apply_swap (to_read - blockSize) rest with
    | error e => simp [hrest] at h
    | ok values' =>
      simp only [hrest, Except.ok.injEq] at h
      have hlength := ih (by omega) hrest
      -- The check for a short read was not met, so the block is full.
      have hblock : block.length = blockSize := by
        have hle := freadShorts_length blockSize file
        rw [hread] at hle
        dsimp only at hle
        omega
      rw [← h, List.length_append, blockValues, List.length_map, hblock]
      push_cast
      omega
  | case3 to_read file hlast =>
    rw [readBlocks, if_neg hlast] at h
    have hle := freadShorts_length (to_read % 2^64).toNat file
    generalize freadShorts (to_read % 2^64).toNat file = block at h hle
    dsimp only at h
    split_ifs at h with hshort
    cases h
    rw [blockValues, List.length_map]
    unfold blockSize at hlast
    omega

/-! ## The function -/

/-- `load_src` stays in its buffers: it does not ask for more words than `input_data` has room for,
and it reports an error, or it fills the array that it has allocated, which has the length that goes
with its number of samples. -/
def StaysInBuffers (sys : System) (Src_file : Option (List UInt8)) (sinfo : SignalInfo) : Prop :=
  (∀ n ∈ load_src_counts sys Src_file sinfo, n ≤ blockSize) ∧
    ((load_src sys rate_16k Src_file sinfo).1 ≠ none ∨
      ∃ data, (load_src sys rate_16k Src_file sinfo).2.data = some data ∧
        data.size = (load_src sys rate_16k Src_file sinfo).2.Nsamples +
          DATAPADDING_MSECS * (rate_16k.Fs / 1000) ∧
        data.values.length = data.size)

/-- No more words are skipped than a header has. -/
theorem headerSize_le (path_name : List UInt8) :
    0 ≤ headerSize path_name ∧ headerSize path_name ≤ 22 := by
  unfold headerSize
  dsimp only
  split_ifs <;> decide

/-- `load_src` gets as far as reading the file. -/
def Reads (sys : System) (Src_file : Option (List UInt8)) (file : List UInt8) : Prop :=
  sys.malloc 0 = true ∧ Src_file = some file ∧ sys.seek_end = true ∧ sys.tell = true ∧
    sys.seek_set = true ∧ sys.malloc 1 = true

/-- The samples of a file that is read: what is behind the words that are skipped. -/
def behindHeader (sinfo : SignalInfo) (file : List UInt8) : List UInt8 :=
  if headerSize sinfo.path_name > 0 then
    (freadShorts (headerSize sinfo.path_name).toNat file).2
  else file

/-- The counts for a file that is read. -/
theorem load_src_counts_of_reads {sys : System} {Src_file : Option (List UInt8)}
    {sinfo : SignalInfo} {file : List UInt8} (h : Reads sys Src_file file) :
    load_src_counts sys Src_file sinfo =
      (if headerSize sinfo.path_name > 0 then [(headerSize sinfo.path_name).toNat] else []) ++
        blockCounts ((file.length : ℤ) / 2 - headerSize sinfo.path_name)
          (behindHeader sinfo file) := by
  obtain ⟨hmalloc, rfl, hend, htell, hset, hmalloc'⟩ := h
  unfold load_src_counts behindHeader
  simp only [hmalloc, hend, htell, hset, hmalloc', Bool.not_true, Bool.false_eq_true, if_false]

/-- A file that is not read is reported, and nothing but its header was asked for. -/
theorem load_src_of_not_reads {sys : System} {Src_file : Option (List UInt8)} (sinfo : SignalInfo)
    (h : ¬∃ file, Reads sys Src_file file) :
    (load_src sys rate_16k Src_file sinfo).1 ≠ none ∧
      ∀ n ∈ load_src_counts sys Src_file sinfo, n ≤ blockSize := by
  have hheader := headerSize_le sinfo.path_name
  unfold Reads at h
  unfold load_src load_src_counts
  cases hmalloc : sys.malloc 0 with
  | false => simp
  | true =>
    cases Src_file with
    | none => simp
    | some file =>
      cases hend : sys.seek_end with
      | false => simp
      | true =>
        cases htell : sys.tell with
        | false => simp
        | true =>
          cases hset : sys.seek_set with
          | false => simp
          | true =>
            cases hmalloc' : sys.malloc 1 with
            | true => exact absurd ⟨file, hmalloc, rfl, hend, htell, hset, hmalloc'⟩ h
            | false =>
              refine ⟨by simp, ?_⟩
              simp only [Bool.not_true, Bool.not_false, Bool.false_eq_true, if_false, if_true]
              unfold blockSize
              split <;> simp
              omega

/-- The samples of a file that is read and long enough fill the array, unless an error is reported.
-/
theorem load_src_fills {sys : System} {Src_file : Option (List UInt8)} {sinfo : SignalInfo}
    {file : List UInt8} (h : Reads sys Src_file file)
    (hlong : headerSize sinfo.path_name ≤ (file.length : ℤ) / 2) :
    (load_src sys rate_16k Src_file sinfo).1 ≠ none ∨
      ∃ data, (load_src sys rate_16k Src_file sinfo).2.data = some data ∧
        data.size = (load_src sys rate_16k Src_file sinfo).2.Nsamples +
          DATAPADDING_MSECS * (rate_16k.Fs / 1000) ∧
        data.values.length = data.size := by
  obtain ⟨hmalloc, rfl, hend, htell, hset, hmalloc'⟩ := h
  unfold load_src
  simp only [hmalloc, hend, htell, hset, hmalloc', Bool.not_true, Bool.false_eq_true, if_false]
  cases hread : readBlocks sinfo.apply_swap ((file.length : ℤ) / 2 - headerSize sinfo.path_name)
      (if headerSize sinfo.path_name > 0 then
        (freadShorts (headerSize sinfo.path_name).toNat file).2 else file) with
  | error e => exact Or.inl (by simp)
  | ok values =>
    have hlength := readBlocks_length (by omega) hread
    dsimp only
    by_cases hVAD : sys.malloc 2 = true ∧ sys.malloc 3 = true
    · -- The paddings and the samples together are as many as the array has entries.
      rw [if_pos hVAD.1, if_pos hVAD.2, if_neg (by simp)]
      refine Or.inr ⟨_, rfl, rfl, ?_⟩
      simp only [List.length_append, List.length_replicate, leadZeros, tailZeros, SEARCHBUFFER,
        DATAPADDING_MSECS, rate_16k]
      push_cast
      omega
    · rw [if_pos (by
        rw [not_and_or] at hVAD
        exact hVAD.imp (fun h => if_neg h) fun h => if_neg h)]
      exact Or.inl (by simp)

/-- `load_src` stays in its buffers exactly if the file, where it is read, is not shorter than the
header that its name calls for. -/
theorem load_src_staysInBuffers_iff (sys : System) (Src_file : Option (List UInt8))
    (sinfo : SignalInfo) :
    StaysInBuffers sys Src_file sinfo ↔
      ∀ file, Reads sys Src_file file → headerSize sinfo.path_name ≤ (file.length : ℤ) / 2 := by
  have hheader := headerSize_le sinfo.path_name
  constructor
  · rintro ⟨hcounts, -⟩ file hreads
    rw [load_src_counts_of_reads hreads] at hcounts
    by_contra hshort
    -- The count that is left is negative.
    obtain ⟨n, hn, hlarge⟩ := blockCounts_of_neg (behindHeader sinfo file)
      (show (file.length : ℤ) / 2 - headerSize sinfo.path_name < 0 by omega) (by omega)
    exact absurd (hcounts n (List.mem_append_right _ hn)) (by omega)
  · intro h
    by_cases hreads : ∃ file, Reads sys Src_file file
    · obtain ⟨file, hreads⟩ := hreads
      have hlong := h file hreads
      refine ⟨?_, load_src_fills hreads hlong⟩
      rw [load_src_counts_of_reads hreads]
      intro n hn
      rcases List.mem_append.mp hn with hn | hn
      · split at hn
        · rw [List.mem_singleton.mp hn]
          unfold blockSize
          omega
        · cases hn
      · exact blockCounts_le (by omega) n hn
    · obtain ⟨herror, hcounts⟩ := load_src_of_not_reads sinfo hreads
      exact ⟨hcounts, Or.inl herror⟩

/-- An empty file whose name ends in `.wav`: no error is reported, and the paddings are written past
the end of the array. -/
theorem load_src_overruns :
    (load_src allSucceed rate_16k (some []) (SignalInfo.named (suffix "a.wav"))).1 = none ∧
      ¬StaysInBuffers allSucceed (some []) (SignalInfo.named (suffix "a.wav")) := by
  have hreads : Reads allSucceed (some []) [] := ⟨rfl, rfl, rfl, rfl, rfl, rfl⟩
  have hread : readBlocks false (([] : List UInt8).length / 2 - 22) [] = .ok [] := by
    rw [readBlocks]
    decide
  have hsys : allSucceed.Succeeds := ⟨fun _ _ => rfl, rfl, rfl, rfl⟩
  have hheader : headerSize (SignalInfo.named (suffix "a.wav")).path_name = 22 := by decide
  have hnone := (load_src_of_succeeds hsys rate_16k [] _ hheader (by decide) hread).1
  refine ⟨hnone, fun hstays => ?_⟩
  obtain ⟨n, hn, hlarge⟩ := blockCounts_of_neg
    (behindHeader (SignalInfo.named (suffix "a.wav")) []) (show (-22 : ℤ) < 0 by omega) (by omega)
  have hmem : n ∈ load_src_counts allSucceed (some []) (SignalInfo.named (suffix "a.wav")) := by
    rw [load_src_counts_of_reads hreads]
    exact List.mem_append_right _ hn
  exact absurd (hstays.1 n hmem) (by omega)

end TgVoipRate.Pesq
