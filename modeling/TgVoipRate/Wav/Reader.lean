import TgVoipRate.Wav.HeaderSpec

/-!
# 16-bit samples and the WAV reader

`wav_file/wav_file.cc`: the reader that checks a file's header and then takes samples from it. A
file is its bytes; a file that could not be opened is none, and so is a reader whose construction
fails one of its checks, which ends the process.

Samples are stored in memory and in files as 16-bit words, least significant byte first
(`memBytes`), and reading as many samples as were written gives them back (`memSamples_memBytes`).
-/

namespace TgVoipRate.Wav

open LittleEndian (encode decode encodeAll decodeAll)

/-! ## Samples in memory -/

/-- The bytes of samples in memory. -/
def memBytes (xs : List Int16) : List UInt8 := encodeAll 2 (xs.map fun x => x.toUInt16.toNat)

/-- The samples that are read from the first bytes of a list. -/
def memSamples (n : ℕ) (bs : List UInt8) : List Int16 :=
  (decodeAll 2 n bs).map fun w => (UInt16.ofNat w).toInt16

theorem memBytes_append (xs ys : List Int16) :
    memBytes (xs ++ ys) = memBytes xs ++ memBytes ys := by
  rw [memBytes, List.map_append, LittleEndian.encodeAll_append]
  rfl

/-- A sample takes two bytes. -/
@[simp] theorem memBytes_length (xs : List Int16) : (memBytes xs).length = 2 * xs.length := by
  rw [memBytes, LittleEndian.encodeAll_length, List.length_map]

/-- Samples are read back from their bytes, whatever follows them. -/
theorem memSamples_memBytes (xs : List Int16) (post : List UInt8) :
    memSamples xs.length (memBytes xs ++ post) = xs := by
  have hfit : ∀ n ∈ xs.map (fun x => x.toUInt16.toNat), n < 256^2 := by
    intro n hn
    obtain ⟨x, -, rfl⟩ := List.mem_map.mp hn
    exact x.toUInt16.toNat_lt
  have hwords := LittleEndian.decodeAll_encodeAll 2 _ post hfit
  rw [List.length_map] at hwords
  have hone (x : Int16) : (UInt16.ofNat x.toUInt16.toNat).toInt16 = x := by
    rw [UInt16.ofNat_toNat]
    exact Int16.toInt16_toUInt16 x
  rw [memSamples, memBytes, hwords, List.map_map]
  simp only [Function.comp_def, hone, List.map_id']

/-! ## The reader -/

/-- An open reader. -/
structure WavReader where
  /-- The number of interleaved channels. -/
  num_channels_ : ℕ
  /-- The sample rate. -/
  sample_rate_ : Int32
  /-- The number of samples that the header declares, over all channels. -/
  num_samples_ : ℕ
  /-- The samples that were not read yet. -/
  num_samples_remaining_ : ℕ
  /-- The bytes of the file that were not read yet. -/
  file_handle_ : List UInt8

/-- Opens a reader; none is a failed check. -/
def WavReader.open (filename : Option (List UInt8)) : Option WavReader :=
  match filename with
  | none => none
  | some file =>
    match readWavHeader byteSource file with
    | none => none
    | some (p, rest) =>
      if p.format ≠ .kWavFormatPcm then none
      else if p.bytes_per_sample ≠ 2 then none
      else
        some
          { num_channels_ := p.num_channels
            sample_rate_ := p.sample_rate
            num_samples_ := p.num_samples
            num_samples_remaining_ := p.num_samples
            file_handle_ := rest }

/-- Reads at most a number of samples, and none past those that the header declares. A short read
is one that reached the end of the file. -/
def WavReader.ReadSamples (r : WavReader) (num_samples : ℕ) : List Int16 × WavReader :=
  let num_samples := min num_samples r.num_samples_remaining_
  let read := min num_samples (r.file_handle_.length / 2)
  (memSamples read r.file_handle_,
    { r with
      num_samples_remaining_ := r.num_samples_remaining_ - read
      file_handle_ := r.file_handle_.drop (2 * num_samples) })

/-- The reader of a file whose header declares 16-bit PCM. -/
theorem WavReader.open_of_header {file rest : List UInt8} {c n : ℕ} {r : Int32}
    (h : readWavHeader byteSource file = some (⟨c, r, .kWavFormatPcm, 2, n⟩, rest)) :
    WavReader.open (some file) =
      some { num_channels_ := c, sample_rate_ := r, num_samples_ := n, num_samples_remaining_ := n,
             file_handle_ := rest } := by
  simp [WavReader.open, h]

/-! ## Headers in files -/

/-- Headers with the same bytes are the same. -/
theorem WavHeader.toBytes_inj {h h' : WavHeader} (heq : h.toBytes = h'.toBytes) : h = h' := by
  have hlen : h.frontBytes.length = h'.frontBytes.length := by
    rw [h.frontBytes_length, h'.frontBytes_length]
  obtain ⟨hfront, hdata⟩ := List.append_inj heq hlen
  rw [← h.ofBytes_toBytes, ← h'.ofBytes_toBytes, hfront, hdata]

end TgVoipRate.Wav
