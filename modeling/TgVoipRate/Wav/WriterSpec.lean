import Mathlib
import TgVoipRate.Wav.Writer

/-!
# What the WAV writer writes is read back

As long as it is open, the file of a writer has a blank header in front of the samples
(`WavWriter.Holds`), and a reader refuses it. A writer that closes has written a header and all
samples, whatever its device does (`WavWriter.Holds.close`). The reader of that file then delivers
these samples, in whatever pieces they were written and are asked for, also where its header
declares more of them than there are (`written_is_read_back`).
-/

namespace TgVoipRate.Wav

open OutStream (Device Stream)

/-! ## An open writer -/

variable {rate : Int32} {channels : ℕ} {xs ys : List Int16} {w w' : WavWriter}

/-- The writer has written a blank header and some samples. -/
structure WavWriter.Holds (w : WavWriter) (rate : Int32) (channels : ℕ) (xs : List Int16) :
    Prop where
  rate_eq : w.sample_rate_ = rate
  channels_eq : w.num_channels_ = channels
  number_eq : w.num_samples_ = xs.length
  number_lt : w.num_samples_ < 2^64
  atEnd : w.file_handle_.AtEnd
  bytes_eq : w.file_handle_.bytes = List.replicate kWavHeaderSize 0 ++ memBytes xs

/-- A new writer has written no samples. -/
theorem WavWriter.holds_open {file : Option Device}
    (h : WavWriter.open file rate channels = some w) : w.Holds rate channels [] := by
  unfold WavWriter.open at h
  split at h
  · contradiction
  · rename_i device
    dsimp only at h
    split at h
    · contradiction
    · split at h
      · contradiction
      · rename_i hwritten
        obtain rfl := Option.some.inj h
        have hmissing := (Stream.write_failed_iff.mp (Bool.eq_false_iff.mpr hwritten)).2
        refine ⟨rfl, rfl, rfl, Nat.two_pow_pos 64, ?_, ?_⟩
        · rw [Stream.atEnd_opened.write_eq _ hmissing]
          exact ⟨rfl, rfl⟩
        · rw [Stream.atEnd_opened.write_eq _ hmissing]
          exact (List.append_nil _).symm

/-- A call of the variant for `int16_t` appends its samples. -/
theorem WavWriter.Holds.writeSamples (hw : w.Holds rate channels xs)
    (h : w.WriteSamples ys = some w') : w'.Holds rate channels (xs ++ ys) := by
  have hnumber := hw.number_eq
  have hlt := hw.number_lt
  unfold WavWriter.WriteSamples at h
  dsimp only at h
  rcases Nat.eq_zero_or_pos ys.length with hzero | hpos
  · -- Nothing is written.
    rw [if_pos hzero, if_pos hzero, hzero, if_neg (by decide),
      if_neg (not_not.mpr (Nat.zero_le _))] at h
    obtain rfl := Option.some.inj h
    rw [List.eq_nil_of_length_eq_zero hzero, List.append_nil]
    exact ⟨hw.rate_eq, hw.channels_eq, (Nat.mod_eq_of_lt hlt).trans hnumber,
      Nat.mod_lt _ (Nat.two_pow_pos 64), hw.atEnd, hw.bytes_eq⟩
  · -- As many samples were written as were asked for, so the device took all bytes.
    rw [if_neg hpos.ne', if_neg hpos.ne'] at h
    split at h
    · contradiction
    rename_i hwritten
    split at h
    · contradiction
    rename_i hfits
    obtain rfl := Option.some.inj h
    have hmissing : w.device.missing w.file_handle_.ops = 0 := by omega
    have hwrite := hw.atEnd.write_eq (memBytes ys) hmissing
    refine ⟨hw.rate_eq, hw.channels_eq, ?_, Nat.mod_lt _ (Nat.two_pow_pos 64), ?_, ?_⟩
    · rw [List.length_append]
      dsimp only
      omega
    · rw [hwrite]
      exact ⟨rfl, rfl⟩
    · rw [hwrite, memBytes_append, hw.bytes_eq, List.append_assoc]

section Floats

variable {𝕜 : Type*} [Field 𝕜] [LinearOrder 𝕜] [FloorRing 𝕜]

/-- The chunks together append the converted samples. -/
theorem WavWriter.Holds.writeFloats (samples : List 𝕜) (i : ℕ) (w : WavWriter) :
    ∀ {xs : List Int16}, w.Holds rate channels xs → Wav.writeFloats samples i w = some w' →
      w'.Holds rate channels (xs ++ (samples.drop i).map FloatS16ToS16) := by
  induction i, w using Wav.writeFloats.induct samples with
  | case1 i w hi isamples =>
    rename_i hnone
    intro xs hw h
    rw [Wav.writeFloats, if_pos hi] at h
    dsimp only at h
    rw [hnone] at h
    contradiction
  | case2 i w hi isamples w₁ hwrite =>
    rename_i ih
    intro xs hw h
    rw [Wav.writeFloats, if_pos hi] at h
    dsimp only at h
    rw [hwrite] at h
    have hrest := ih (hw.writeSamples hwrite) h
    rwa [List.append_assoc, ← List.map_append, ← List.drop_drop, List.take_append_drop] at hrest
  | case3 i w hi =>
    intro xs hw h
    rw [Wav.writeFloats, if_neg hi] at h
    obtain rfl := Option.some.inj h
    rwa [List.drop_eq_nil_of_le (not_lt.mp hi), List.map_nil, List.append_nil]

/-- The samples of a call. -/
def Write.samples : Write 𝕜 → List Int16
  | .int16 samples => samples
  | .float samples => samples.map FloatS16ToS16

/-- A sequence of calls appends the samples of all calls. -/
theorem WavWriter.Holds.writeAll (calls : List (Write 𝕜)) (w : WavWriter) {xs : List Int16}
    (hw : w.Holds rate channels xs) (h : WavWriter.writeAll calls w = some w') :
    w'.Holds rate channels (xs ++ (calls.map Write.samples).flatten) := by
  induction calls generalizing w xs with
  | nil =>
    obtain rfl := Option.some.inj h
    rwa [List.map_nil, List.flatten_nil, List.append_nil]
  | cons call calls ih =>
    rw [WavWriter.writeAll] at h
    split at h
    · contradiction
    · rename_i w₁ hwrite
      rw [List.map_cons, List.flatten_cons, ← List.append_assoc]
      refine ih w₁ ?_ h
      cases call with
      | int16 samples => exact hw.writeSamples hwrite
      | float samples =>
        have hfloats := WavWriter.Holds.writeFloats samples 0 w hw hwrite
        rwa [List.drop_zero] at hfloats

end Floats

/-! ## The file -/

/-- A file with a blank header is refused. -/
theorem readWavHeader_blank (rest : List UInt8) :
    readWavHeader byteSource (List.replicate kWavHeaderSize 0 ++ rest) = none := by
  have hfront : (List.replicate kWavHeaderSize (0 : UInt8) ++ rest).take
      (kWavHeaderSize - chunkHeaderSize) = List.replicate 36 0 := by
    rw [List.take_append_of_le_length (by decide)]
    rfl
  have hsize : (field32 (List.replicate 36 0) 16).toNat = 0 := by decide
  unfold readWavHeader byteSource
  dsimp only
  rw [hfront, hsize]
  rfl

/-- So the file of a writer is refused as long as the writer is open. -/
theorem WavWriter.Holds.refused (hw : w.Holds rate channels xs) :
    WavReader.open (some w.file_handle_.bytes) = none := by
  rw [hw.bytes_eq]
  unfold WavReader.open
  dsimp only
  rw [readWavHeader_blank]

/-- A writer that closes has written a header, and all samples. -/
theorem WavWriter.Holds.close {bytes : List UInt8} (hw : w.Holds rate channels xs)
    (h : w.Close = some bytes) :
    let p : WavParameters := ⟨channels, rate, .kWavFormatPcm, 2, xs.length⟩
    p.Valid ∧ bytes = p.header.toBytes ++ memBytes xs := by
  intro p
  have hparameters : w.parameters = p := by
    unfold WavWriter.parameters
    rw [hw.rate_eq, hw.channels_eq, hw.number_eq]
  unfold WavWriter.Close at h
  rw [hparameters] at h
  dsimp only at h
  split at h
  · contradiction
  rename_i hseek
  split at h
  · contradiction
  rename_i header hheader
  split at h
  · contradiction
  rename_i hwritten
  split at h
  · contradiction
  rename_i hflushed
  obtain ⟨hvalid, rfl⟩ := (writeWavHeader_eq_some_iff p header).mp hheader
  obtain ⟨-, hmissing⟩ := Stream.seek_failed_iff.mp (Bool.eq_false_iff.mpr hseek)
  rw [Stream.seek_of_not_failed hw.atEnd.not_failed hmissing] at hwritten h
  obtain ⟨-, hmissing'⟩ := Stream.write_failed_iff.mp (Bool.eq_false_iff.mpr hwritten)
  have hback : Stream.failed { w.file_handle_ with pos := 0, ops := w.file_handle_.ops + 1 } =
      false := hw.atEnd.not_failed
  rw [Stream.write_of_not_failed _ hback hmissing'] at h
  refine ⟨hvalid, (Option.some.inj h).symm.trans ?_⟩
  unfold Stream.close
  dsimp only
  rw [not_not.mp hflushed, Nat.sub_zero, List.take_length, hw.bytes_eq, OutStream.overwrite_zero,
    WavHeader.toBytes_length, List.drop_left' List.length_replicate]

/-- The reader of the file, if the samples of all channels have room in the size that the header
declares. It declares them once for each channel. -/
theorem readWavHeader_written {p : WavParameters} (hvalid : p.Valid)
    (hbytes : p.bytes_per_sample = 2)
    (hroom : 2 * (p.num_channels * p.num_samples) + 36 ≤ uint32Max) (rest : List UInt8) :
    readWavHeader byteSource (p.header.toBytes ++ rest) =
      some ({ p with num_samples := p.num_channels * p.num_samples }, rest) := by
  have hdeclared : p.bytesInPayload % 2^32 / p.bytes_per_sample =
      p.num_channels * p.num_samples := by
    have hpayload : p.bytesInPayload = 2 * (p.num_channels * p.num_samples) := by
      rw [WavParameters.bytesInPayload, hbytes]
      ring
    unfold uint32Max at hroom
    rw [hpayload, hbytes]
    omega
  have hcheck : WavParameters.check { p with num_samples := p.num_channels * p.num_samples } =
      true :=
    (WavParameters.check_iff _).mpr (hvalid.with_samples (by rw [hbytes]; omega)
      (Nat.dvd_mul_right _ _))
  rw [readWavHeader_toBytes p.header rest rfl, hvalid.parse_header]
  dsimp only
  rw [hdeclared, if_pos hcheck]
  rfl

section ReadBack

variable {𝕜 F : Type*} [Field 𝕜] [LinearOrder 𝕜] [FloorRing 𝕜] {file : Option Device}
  {calls : List (Write 𝕜)} {bytes : List UInt8}

/-- Samples that are written in any sequence of calls, of either variant: until the writer is
closed a reader refuses its file. If no check fails up to the close, whatever the device does, then
the file has a header and all samples, each float as `FloatS16ToS16` converts it; and any sequence
of calls of a reader, of either variant, delivers these samples in order, where the payload of all
channels, which the header counts once for each channel, has room in its size. For one channel it
has. -/
theorem written_is_read_back (hopen : WavWriter.open file rate channels = some w)
    (hwrites : WavWriter.writeAll calls w = some w') (hclose : w'.Close = some bytes)
    (toFloat : Int16 → F) (requests : List (Request F)) :
    let xs := (calls.map Write.samples).flatten
    WavReader.open (some w'.file_handle_.bytes) = none ∧
    bytes = WavHeader.toBytes
      (WavParameters.header ⟨channels, rate, .kWavFormatPcm, 2, xs.length⟩) ++ memBytes xs ∧
    (channels = 1 ∨ 2 * (channels * xs.length) + 36 ≤ uint32Max →
      ∃ r replies r' parts, FileReader.open (some bytes) = some r ∧
        r.num_channels_ = channels ∧ r.sample_rate_ = rate ∧
        r.num_samples_ = channels * xs.length ∧
        FileReader.serveAll toFloat requests r = some (replies, r') ∧
        Served toFloat requests replies parts ∧
        parts = pieces (requests.map Request.num_samples) xs) := by
  intro xs
  have hholds : w'.Holds rate channels xs := (WavWriter.holds_open hopen).writeAll calls w hwrites
  obtain ⟨hvalid, hbytes⟩ := hholds.close hclose
  refine ⟨hholds.refused, hbytes, fun hroom => ?_⟩
  have hsamples := hvalid.samples_le
  have hfits : 2 * (channels * xs.length) + 36 ≤ uint32Max := by
    rcases hroom with rfl | hroom
    · dsimp only at hsamples
      omega
    · exact hroom
  -- At least as many samples are declared as there are.
  have hmany : xs.length ≤ channels * xs.length := Nat.le_mul_of_pos_left _ hvalid.channels_pos
  have hread := readWavHeader_written hvalid rfl hfits (memBytes xs)
  have hrest : (FileReader.opened ⟨channels, rate, .kWavFormatPcm, 2, channels * xs.length⟩
      (memBytes xs)).rest = xs := by
    rw [FileReader.opened_rest, memBytes_length]
    dsimp only
    rw [Nat.mul_div_cancel_left _ Nat.two_pos, Nat.min_eq_right hmany]
    have hback := memSamples_memBytes xs []
    rwa [List.append_nil] at hback
  obtain ⟨replies, r', hserved, hdelivered⟩ := FileReader.serveAll_eq toFloat requests
    (FileReader.opened ⟨channels, rate, .kWavFormatPcm, 2, channels * xs.length⟩ (memBytes xs))
  rw [hrest] at hdelivered
  rw [hbytes]
  exact ⟨_, replies, r', _, FileReader.open_of_header hread rfl rfl, rfl, rfl, rfl, hserved,
    hdelivered, rfl⟩

/-- A run of a writer of stereo, and a reader of its file. -/
theorem written_is_read_back_stereo :
    ∃ w w' bytes, WavWriter.open (some Device.perfect) 16000 2 = some w ∧
      WavWriter.writeAll [Write.int16 [1, -2], (.int16 [3, 4] : Write ℚ)] w = some w' ∧
      w'.Close = some bytes ∧
      ∃ r replies r' parts, FileReader.open (some bytes) = some r ∧ r.num_samples_ = 8 ∧
        FileReader.serveAll Int16.toInt [.int16 3, .int16 3] r = some (replies, r') ∧
        Served Int16.toInt [.int16 3, .int16 3] replies parts ∧ parts = [[1, -2, 3], [4]] := by
  refine ⟨_, _, _, rfl, rfl, rfl, ?_⟩
  obtain ⟨-, -, hread⟩ := written_is_read_back
    (show WavWriter.open (some Device.perfect) 16000 2 = some _ from rfl)
    (show WavWriter.writeAll [Write.int16 [1, -2], (.int16 [3, 4] : Write ℚ)] _ = some _ from rfl)
    (show WavWriter.Close _ = some _ from rfl) Int16.toInt [.int16 3, .int16 3]
  obtain ⟨r, replies, r', parts, hopen, -, -, hnumber, hserved, hdelivered, hparts⟩ :=
    hread (Or.inr (by decide))
  exact ⟨r, replies, r', parts, hopen, hnumber, hserved, hdelivered, hparts⟩

end ReadBack

end TgVoipRate.Wav
