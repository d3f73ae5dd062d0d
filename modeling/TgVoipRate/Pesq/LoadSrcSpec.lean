import TgVoipRate.Pesq.LoadSrc
import Mathlib.Tactic.IntervalCases

/-!
# What `load_src` makes of a resampled file

The block loop reads any number of samples, whether or not they fill their last block
(`readBlocks_memBytes`). So when the 22 words of the header are skipped, the samples are stored
between the two paddings, and together they are as many as the array has entries. The words are
skipped only for a path that is longer than its suffix.
-/

namespace TgVoipRate.Pesq

open Wav (WavParameters WavHeader memBytes memSamples writeWavHeader)

/-! ## The block loop -/

/-- Reading as many words as were written, with others after them. -/
theorem freadShorts_memBytes (xs ys : List Int16) (post : List UInt8) :
    freadShorts xs.length (memBytes (xs ++ ys) ++ post) = (xs, memBytes ys ++ post) := by
  have hsplit : memBytes (xs ++ ys) ++ post = memBytes xs ++ (memBytes ys ++ post) := by
    rw [Wav.memBytes_append, List.append_assoc]
  have hcount : min xs.length ((memBytes (xs ++ ys) ++ post).length / 2) = xs.length := by
    rw [List.length_append, Wav.memBytes_length, List.length_append]
    omega
  rw [freadShorts, hcount, hsplit, Wav.memSamples_memBytes,
    List.drop_left' (Wav.memBytes_length xs)]

/-- The blocks of a signal, full or not, give all of its samples. -/
theorem readBlocks_memBytes (xs : List Int16) (post : List UInt8) (hlt : xs.length < 2^63) :
    readBlocks false xs.length (memBytes xs ++ post) = .ok (xs.map Int16.toInt) := by
  -- Induction on the length: a full block is taken from the front, the rest is shorter.
  induction hn : xs.length using Nat.strong_induction_on generalizing xs with
  | _ n ih =>
    subst hn
    rw [readBlocks]
    by_cases hlong : blockSize < xs.length
    · obtain ⟨block, rest, rfl, hblock⟩ :
          ∃ block rest, xs = block ++ rest ∧ block.length = blockSize :=
        ⟨xs.take blockSize, xs.drop blockSize, (List.take_append_drop _ _).symm,
          by rw [List.length_take]; omega⟩
      have hread : freadShorts blockSize (memBytes (block ++ rest) ++ post) =
          (block, memBytes rest ++ post) := by
        rw [← hblock]
        exact freadShorts_memBytes block rest post
      have hleft : ((block ++ rest).length : ℤ) - blockSize = rest.length := by
        rw [List.length_append, hblock]
        push_cast
        omega
      have hrest := ih rest.length (by rw [List.length_append, hblock, blockSize]; omega) rest
        (by rw [List.length_append] at hlt; omega) rfl
      -- The block is read in full, so the check for a short read is not met.
      rw [if_pos (by exact_mod_cast hlong)]
      simp only [hread, hblock, lt_irrefl, if_false, hleft, hrest]
      simp [blockValues]
    · have hread := freadShorts_memBytes xs [] post
      rw [List.append_nil] at hread
      have hcount : ((xs.length : ℤ) % 2^64).toNat = xs.length := by omega
      rw [if_neg (by exact_mod_cast hlong)]
      simp only [hcount, hread, lt_irrefl, if_false]
      simp [blockValues]

/-! ## The file -/

/-- The samples are loaded: no error, the length with both search buffers, and an array that holds
zeros, the samples in order, and zeros, as many values as it has entries. -/
def LoadsSamples (rate : Rate) (samples : List Int16) (r : Option String × SignalInfo) : Prop :=
  r.1 = none ∧ r.2.Nsamples = samples.length + 2 * SEARCHBUFFER * rate.Downsample ∧
    ∃ data, r.2.data = some data ∧
      data.values = List.replicate (SEARCHBUFFER * rate.Downsample).toNat 0 ++
        samples.map Int16.toInt ++
        List.replicate
          (DATAPADDING_MSECS * (rate.Fs / 1000) + SEARCHBUFFER * rate.Downsample).toNat 0 ∧
      data.size = data.values.length

/-- The header of a file that resampling writes. -/
abbrev resampledHeader (n : ℕ) : WavHeader :=
  WavParameters.header ⟨1, 16000, .kWavFormatPcm, 2, n⟩

/-- Where every call succeeds, the array and the error come from the block loop. -/
theorem load_src_of_succeeds {sys : System} (hsys : sys.Succeeds) (rate : Rate) (file : List UInt8)
    (sinfo : SignalInfo) {header_size : ℤ} (hheader : headerSize sinfo.path_name = header_size)
    {rest : List UInt8}
    (hrest : rest = if header_size > 0 then (freadShorts header_size.toNat file).2 else file)
    {values : List ℤ}
    (hread : readBlocks sinfo.apply_swap (file.length / 2 - header_size) rest = .ok values) :
    (load_src sys rate (some file) sinfo).1 = none ∧
      (load_src sys rate (some file) sinfo).2.Nsamples =
        file.length / 2 - header_size + 2 * SEARCHBUFFER * rate.Downsample ∧
      (load_src sys rate (some file) sinfo).2.data =
        some { size := file.length / 2 - header_size + 2 * SEARCHBUFFER * rate.Downsample +
                 DATAPADDING_MSECS * (rate.Fs / 1000)
               values := List.replicate (leadZeros rate).toNat 0 ++ values ++
                 List.replicate (tailZeros rate).toNat 0 } := by
  obtain ⟨hmalloc, hend, htell, hset⟩ := hsys
  subst hrest hheader
  unfold load_src
  simp only [hmalloc 0 (by decide), hmalloc 1 (by decide), hmalloc 2 (by decide),
    hmalloc 3 (by decide), hend, htell, hset, Bool.not_true, Bool.false_eq_true, if_false, hread,
    if_true, reduceCtorEq, or_self, and_self]

/-- Loading reports no error only if every call succeeded. -/
theorem load_src_succeeds {sys : System} {rate : Rate} {file : List UInt8} {sinfo : SignalInfo}
    (h : (load_src sys rate (some file) sinfo).1 = none) : sys.Succeeds := by
  -- The calls are made in this order, and the first one that fails sets the error.
  have h0 : sys.malloc 0 = true := by
    by_contra hf
    rw [Bool.not_eq_true] at hf
    simp [load_src, hf] at h
  have hend : sys.seek_end = true := by
    by_contra hf
    rw [Bool.not_eq_true] at hf
    simp [load_src, h0, hf] at h
  have htell : sys.tell = true := by
    by_contra hf
    rw [Bool.not_eq_true] at hf
    simp [load_src, h0, hend, hf] at h
  have hset : sys.seek_set = true := by
    by_contra hf
    rw [Bool.not_eq_true] at hf
    simp [load_src, h0, hend, htell, hf] at h
  have h1 : sys.malloc 1 = true := by
    by_contra hf
    rw [Bool.not_eq_true] at hf
    simp [load_src, h0, hend, htell, hset, hf] at h
  have hvad : sys.malloc 2 = true ∧ sys.malloc 3 = true := by
    simp only [load_src, h0, hend, htell, hset, h1, Bool.not_true, Bool.false_eq_true, if_false]
      at h
    split at h
    · cases h
    · split_ifs at h <;> simp_all
  refine ⟨fun i hi => ?_, hend, htell, hset⟩
  interval_cases i
  · exact h0
  · exact h1
  · exact hvad.1
  · exact hvad.2

/-- The length that is set where loading reports no error. -/
theorem load_src_Nsamples {sys : System} {rate : Rate} {file : List UInt8} {sinfo : SignalInfo}
    (h : (load_src sys rate (some file) sinfo).1 = none) :
    (load_src sys rate (some file) sinfo).2.Nsamples =
      file.length / 2 - headerSize sinfo.path_name + 2 * SEARCHBUFFER * rate.Downsample := by
  have hsys := load_src_succeeds h
  cases hread : readBlocks sinfo.apply_swap (file.length / 2 - headerSize sinfo.path_name)
      (if headerSize sinfo.path_name > 0 then
        (freadShorts (headerSize sinfo.path_name).toNat file).2 else file) with
  | error e =>
    obtain ⟨hmalloc, hend, htell, hset⟩ := hsys
    simp only [load_src, hmalloc 0 (by decide), hmalloc 1 (by decide), hend, htell, hset,
      Bool.not_true, Bool.false_eq_true, if_false, hread, reduceCtorEq] at h
  | ok values => exact (load_src_of_succeeds hsys rate file sinfo rfl rfl hread).2.1

/-- The number of words skipped for a name that ends in `.wav`: those of the header, unless the
name is the suffix itself. -/
theorem headerSize_wav {pre : List UInt8} :
    headerSize (pre ++ suffix ".wav") = if pre = [] then 0 else 22 := by
  have hlen : (suffix ".wav").length = 4 := by decide
  have hend4 : (pre ++ suffix ".wav").drop ((pre ++ suffix ".wav").length - 4) = suffix ".wav" := by
    rw [List.length_append, hlen, Nat.add_sub_cancel, List.drop_left]
  have hend2 : (pre ++ suffix ".wav").drop ((pre ++ suffix ".wav").length - 2) = suffix "av" := by
    have hsplit : pre ++ suffix ".wav" = (pre ++ suffix ".w") ++ suffix "av" := by
      rw [List.append_assoc]
      rfl
    rw [hsplit, List.length_append, show (suffix "av").length = 2 by decide, Nat.add_sub_cancel,
      List.drop_left]
  have hpos : (pre ++ suffix ".wav").length > 4 ↔ pre ≠ [] := by
    rw [List.length_append, hlen, ← List.length_pos_iff]
    omega
  -- Of the suffixes that are compared only `.wav` fits.
  have hpos2 : (pre ++ suffix ".wav").length > 2 := by
    rw [List.length_append, hlen]
    omega
  have hWAV : suffix ".wav" ≠ suffix ".WAV" := by decide
  have hraw : suffix ".wav" ≠ suffix ".raw" := by decide
  have hsrc : suffix ".wav" ≠ suffix ".src" := by decide
  have hs : suffix "av" ≠ suffix ".s" := by decide
  unfold headerSize
  simp only [hend4, hend2, hpos2, hpos, hWAV, hraw, hsrc, hs, if_true, if_false]
  by_cases hpre : pre = [] <;> simp [hpre]

/-- The words of a file behind a header of 44 bytes. -/
theorem words_behind_header {wav_header : List UInt8} (hlen : wav_header.length = 44)
    (samples : List Int16) :
    ((wav_header ++ memBytes samples).length : ℤ) / 2 = 22 + samples.length := by
  rw [List.length_append, hlen, Wav.memBytes_length]
  push_cast
  omega

/-- A file behind a header of 44 bytes is loaded by a path that is longer than its suffix `.wav`. -/
theorem load_src_behind_header {sys : System} (hsys : sys.Succeeds) {sinfo : SignalInfo}
    (hswap : sinfo.apply_swap = false) {pre : List UInt8}
    (hpath : pre ++ suffix ".wav" = sinfo.path_name) (hne : pre ≠ [])
    {wav_header : List UInt8} (hlen : wav_header.length = 44) {samples : List Int16}
    (hn : samples.length < 2^63) :
    LoadsSamples rate_16k samples
      (load_src sys rate_16k (some (wav_header ++ memBytes samples)) sinfo) := by
  have hwords := words_behind_header hlen samples
  have hheader : headerSize sinfo.path_name = 22 := by
    rw [← hpath, headerSize_wav, if_neg hne]
  have hskip : memBytes samples ++ [] =
      if (22 : ℤ) > 0 then (freadShorts (22 : ℤ).toNat (wav_header ++ memBytes samples)).2
      else wav_header ++ memBytes samples := by
    rw [if_pos (by decide), freadShorts, List.append_nil]
    exact (List.drop_left' hlen).symm
  have hread : readBlocks sinfo.apply_swap
      (((wav_header ++ memBytes samples).length : ℤ) / 2 - 22) (memBytes samples ++ []) =
        .ok (samples.map Int16.toInt) := by
    rw [hswap, hwords, add_sub_cancel_left]
    exact readBlocks_memBytes samples [] hn
  obtain ⟨hnone, hN, hdata⟩ := load_src_of_succeeds hsys rate_16k _ sinfo hheader hskip hread
  rw [hwords, add_sub_cancel_left] at hN hdata
  refine ⟨hnone, hN, _, hdata, rfl, ?_⟩
  dsimp only
  rw [List.length_append, List.length_append, List.length_replicate, List.length_replicate,
    List.length_map]
  simp only [SEARCHBUFFER, DATAPADDING_MSECS, leadZeros, tailZeros, rate_16k]
  push_cast
  omega

/-- For a path that ends in `.wav`, loading a file that resampling wrote gives its samples exactly
when every call succeeds and the path is longer than the suffix: the suffix alone is not looked at,
and then the header is taken for samples. -/
theorem load_src_loadsSamples_iff (sys : System) (sinfo : SignalInfo) (samples : List Int16)
    (hswap : sinfo.apply_swap = false) (hpath : suffix ".wav" <:+ sinfo.path_name)
    (hn : 36 + 2 * samples.length < 2^32) :
    ∃ wav_header, writeWavHeader ⟨1, 16000, .kWavFormatPcm, 2, samples.length⟩ = some wav_header ∧
      (LoadsSamples rate_16k samples
          (load_src sys rate_16k (some (wav_header ++ memBytes samples)) sinfo) ↔
        sys.Succeeds ∧ 4 < sinfo.path_name.length) := by
  obtain ⟨pre, hpre⟩ := hpath
  have hsilent : (⟨1, 16000, .kWavFormatPcm, 2, 0⟩ : WavParameters).Valid :=
    (WavParameters.check_iff _).mp (by decide)
  have hvalid : (⟨1, 16000, .kWavFormatPcm, 2, samples.length⟩ : WavParameters).Valid :=
    hsilent.with_samples
      (show samples.length * 2 + 36 ≤ Wav.uint32Max by simp only [Wav.uint32Max]; omega) (one_dvd _)
  refine ⟨_, (Wav.writeWavHeader_eq_some_iff _ _).mpr ⟨hvalid, rfl⟩, ?_⟩
  have hlen := (resampledHeader samples.length).toBytes_length
  simp only [Wav.kWavHeaderSize] at hlen
  generalize (resampledHeader samples.length).toBytes = wav_header at hlen ⊢
  have hpos : 4 < sinfo.path_name.length ↔ pre ≠ [] := by
    rw [← hpre, List.length_append, show (suffix ".wav").length = 4 by decide,
      ← List.length_pos_iff]
    omega
  rw [hpos]
  constructor
  · rintro ⟨hnone, hN, -⟩
    refine ⟨load_src_succeeds hnone, fun hempty => ?_⟩
    -- The words of the header are counted as samples.
    rw [load_src_Nsamples hnone, words_behind_header hlen, ← hpre, headerSize_wav, if_pos hempty]
      at hN
    omega
  · rintro ⟨hsys, hne⟩
    exact load_src_behind_header hsys hswap hpre hne hlen (by omega)

/-- A system without failures. -/
def allSucceed : System where
  malloc _ := true
  seek_end := true
  tell := true
  seek_set := true

/-- The two samples of a file `a.wav` are loaded. -/
theorem load_src_loadsSamples_named :
    ∃ wav_header, writeWavHeader ⟨1, 16000, .kWavFormatPcm, 2, 2⟩ = some wav_header ∧
      LoadsSamples rate_16k [7, -7]
        (load_src allSucceed rate_16k (some (wav_header ++ memBytes [7, -7]))
          (SignalInfo.named (suffix "a.wav"))) := by
  obtain ⟨wav_header, hwrite, hiff⟩ := load_src_loadsSamples_iff allSucceed
    (SignalInfo.named (suffix "a.wav")) [7, -7] rfl ⟨suffix "a", rfl⟩ (by decide)
  exact ⟨wav_header, hwrite, hiff.mpr ⟨⟨fun _ _ => rfl, rfl, rfl, rfl⟩, by decide⟩⟩

/-- A file whose path is `.wav` is loaded with its header as samples. -/
theorem load_src_bare_suffix :
    suffix ".wav" <:+ (SignalInfo.named (suffix ".wav")).path_name ∧
      ∃ wav_header, writeWavHeader ⟨1, 16000, .kWavFormatPcm, 2, 2⟩ = some wav_header ∧
        ¬LoadsSamples rate_16k [7, -7]
          (load_src allSucceed rate_16k (some (wav_header ++ memBytes [7, -7]))
            (SignalInfo.named (suffix ".wav"))) := by
  refine ⟨List.suffix_rfl, (resampledHeader 2).toBytes, by decide, ?_⟩
  rintro ⟨hnone, hN, -⟩
  rw [load_src_Nsamples hnone] at hN
  revert hN
  decide

end TgVoipRate.Pesq
