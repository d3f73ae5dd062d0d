import TgVoipRate.Opus.Decode
import TgVoipRate.Wav.Reader
import Mathlib.Tactic.IntervalCases

/-!
# When decoding gives a valid WAV file

The loop appends the decoded frames to the stream (`readLoop_success`), so after it the file is a
header and the frames, and only the header is in question. The rewriting of the header inserts the
array as a C string. Every header has a zero byte right after its eighteenth byte, so at most the
size field of the RIFF chunk is replaced, and the data size stays the declared one
(`rewritten_header`). So the file is valid exactly when the declared duration already stands for the
decoded frames, and everything that the stream was given reached the file.

The other question is whether the assertion in `WriteWavHeader` holds at both calls. It asks for an
even number of samples per channel (`valid_wavParameters_iff`), since the check takes the number for
a total over both channels.
-/

namespace TgVoipRate.Opus

open LittleEndian (encode)
open OutStream (Device Stream)
open Wav (WavParameters WavHeader writeWavHeader readWavHeader byteSource kWavHeaderSize)

/-! ## The headers of a decoded file -/

/-- The parameters that `opus_decode` passes to the header check. -/
abbrev decodedParameters (n : ℕ) : WavParameters := wavParameters n 48000 2

/-- The check takes the number of samples per channel for a total over both channels: it must be
even, and half of the payload must leave room for the header. -/
theorem valid_wavParameters_iff (n : ℕ) :
    (decodedParameters n).Valid ↔ 2 ∣ n ∧ 2 * n + 36 < 2^32 := by
  constructor
  · intro h
    have hn := h.samples_le
    simp only [decodedParameters, wavParameters, Wav.uint32Max] at hn
    exact ⟨h.channels_dvd, by omega⟩
  · rintro ⟨hdvd, hn⟩
    have hsilent : (decodedParameters 0).Valid := (WavParameters.check_iff _).mp (by decide)
    exact hsilent.with_samples (show n * 2 + 36 ≤ Wav.uint32Max by simp only [Wav.uint32Max]; omega)
      hdvd

/-- When the assertion in `WriteWavHeader` holds, and the header that is written then. -/
theorem makeWavHeader_eq_some_iff (n : ℕ) (bs : List UInt8) :
    makeWavHeader n 48000 2 = some bs ↔
      (decodedParameters n).Valid ∧ bs = (decodedParameters n).header.toBytes :=
  Wav.writeWavHeader_eq_some_iff _ _

/-- The assertion fails on exactly the parameters that are not valid. -/
theorem makeWavHeader_eq_none_iff (n : ℕ) :
    makeWavHeader n 48000 2 = none ↔ ¬(decodedParameters n).Valid := by
  rw [makeWavHeader, writeWavHeader, ← WavParameters.check_iff]
  simp

/-- The payload that the header declares. -/
theorem bytesInPayload_decoded (n : ℕ) : (decodedParameters n).bytesInPayload = 4 * n := by
  simp [WavParameters.bytesInPayload, decodedParameters, wavParameters]

/-- Two durations have the same header exactly when their payloads agree in 32 bits. -/
theorem header_eq_of_mod {m n : ℕ} (h : 4 * m % 2^32 = 4 * n % 2^32) :
    (decodedParameters m).header = (decodedParameters n).header := by
  have hdata : UInt32.ofNat (4 * m) = UInt32.ofNat (4 * n) := by
    apply UInt32.toNat_inj.mp
    rw [UInt32.toNat_ofNat', UInt32.toNat_ofNat', h]
  have hriff : Wav.riffChunkSize (4 * m) = Wav.riffChunkSize (4 * n) := by
    rw [← Wav.riffChunkSize_mod (4 * m), h, Wav.riffChunkSize_mod]
  unfold WavParameters.header
  rw [bytesInPayload_decoded, bytesInPayload_decoded, hdata, hriff]
  rfl

/-- The header with another RIFF size. -/
def withRiffSize (h : WavHeader) (size : UInt32) : WavHeader :=
  { h with riff := { h.riff with header := { h.riff.header with Size := size } } }

/-- The constant bytes between the RIFF size and the first zero byte of a header: the form, the
identifier of the format subchunk and the low byte of its size. -/
def headerMid : List UInt8 := Wav.fourCC "WAVE" ++ (Wav.fourCC "fmt " ++ [16])

/-- The bytes of a header after its first zero byte. -/
def headerPost (h : WavHeader) : List UInt8 :=
  [0, 0] ++ (encode 2 h.fmt.AudioFormat.toNat ++ (encode 2 h.fmt.NumChannels.toNat ++
    (encode 4 h.fmt.SampleRate.toNat ++ (encode 4 h.fmt.ByteRate.toNat ++
      (encode 2 h.fmt.BlockAlign.toNat ++ (encode 2 h.fmt.BitsPerSample.toNat ++
        h.data.header.toBytes))))))

/-- A written header, split at its RIFF size and its first zero byte. -/
theorem header_toBytes_split (p : WavParameters) (size : UInt32) :
    (withRiffSize p.header size).toBytes =
      Wav.fourCC "RIFF" ++ (encode 4 size.toNat ++ (headerMid ++ 0 :: headerPost p.header)) := by
  have hR : encode 4 p.header.riff.header.ID.toNat = Wav.fourCC "RIFF" := by
    show encode 4 (Wav.writeFourCC 'R' 'I' 'F' 'F').toNat = _
    decide
  have hW : encode 4 p.header.riff.Format.toNat = Wav.fourCC "WAVE" := by
    show encode 4 (Wav.writeFourCC 'W' 'A' 'V' 'E').toNat = _
    decide
  have hf : encode 4 p.header.fmt.header.ID.toNat = Wav.fourCC "fmt " := by
    show encode 4 (Wav.writeFourCC 'f' 'm' 't' ' ').toNat = _
    decide
  have hsize : encode 4 p.header.fmt.header.Size.toNat = [16] ++ [0, 0, 0] := by
    show encode 4 (16 : UInt32).toNat = _
    decide
  unfold withRiffSize WavHeader.toBytes WavHeader.frontBytes Wav.ChunkHeader.toBytes headerPost
    headerMid
  dsimp only
  rw [hR, hW, hf, hsize]
  simp only [List.append_assoc, List.cons_append, List.nil_append, Wav.ChunkHeader.toBytes]

/-- The header on disk after the rewriting is the first header with some RIFF size: the C string
ends in the size of the new header or after its constant bytes. -/
theorem rewritten_header (p q : WavParameters) (rest : List UInt8) : ∃ size,
    OutStream.overwrite (p.header.toBytes ++ rest) 0 (OutStream.cString q.header.toBytes) =
      (withRiffSize p.header size).toBytes ++ rest := by
  have hp := header_toBytes_split p p.header.riff.header.Size
  have hq := header_toBytes_split q q.header.riff.header.Size
  obtain ⟨u, hu, hover⟩ := OutStream.overwrite_cString_field (Wav.fourCC "RIFF")
    (encode 4 p.header.riff.header.Size.toNat) (encode 4 q.header.riff.header.Size.toNat) headerMid
    (headerPost q.header) (0 :: headerPost p.header ++ rest) (by simp [Wav.fourCC])
    (by simp [headerMid, Wav.fourCC]) (by simp)
  have hlen : u.length = 4 := by simpa using hu
  have hlt := LittleEndian.decode_lt u
  -- The four bytes that were mixed from the two sizes are a size again.
  refine ⟨UInt32.ofNat (LittleEndian.decode u), ?_⟩
  have henc : encode 4 (UInt32.ofNat (LittleEndian.decode u)).toNat = u := by
    rw [hlen] at hlt
    rw [UInt32.toNat_ofNat', Nat.mod_eq_of_lt (by omega), ← hlen, LittleEndian.encode_decode]
  rw [header_toBytes_split, henc]
  have hp' : p.header.toBytes ++ rest = Wav.fourCC "RIFF" ++
      (encode 4 p.header.riff.header.Size.toNat ++
        (headerMid ++ (0 :: headerPost p.header ++ rest))) := by
    rw [show p.header.toBytes = _ from hp]
    simp only [List.append_assoc, List.cons_append]
  rw [hp', show q.header.toBytes = _ from hq, hover]
  simp only [List.append_assoc, List.cons_append]

/-! ## The samples -/

/-- The loop over the buffer stores a sample least significant byte first. -/
theorem sampleBytes_eq (x : Int16) : sampleBytes x = encode 2 x.toUInt16.toNat := by
  have hlow : (x &&& 0xFF).toUInt16.toUInt8 = UInt8.ofNat x.toUInt16.toNat := by
    apply UInt8.toBitVec_inj.mp
    apply BitVec.eq_of_getLsbD_eq
    intro i hi
    interval_cases i <;> simp
  have hhigh : ((x >>> 8) &&& 0xFF).toUInt16.toUInt8 = UInt8.ofNat (x.toUInt16.toNat / 256) := by
    apply UInt8.toBitVec_inj.mp
    apply BitVec.eq_of_getLsbD_eq
    intro i hi
    have hn : (UInt8.ofNat (x.toUInt16.toNat / 256)).toBitVec =
        BitVec.ofNat 8 (x.toBitVec.toNat / 2^8) := rfl
    rw [hn, BitVec.getLsbD_ofNat, Nat.testBit_div_two_pow, BitVec.testBit_toNat]
    interval_cases i <;> simp [BitVec.getElem_sshiftRight]
  rw [sampleBytes, hlow, hhigh]
  rfl

/-- The bytes written for frames are those of their samples in memory. -/
theorem pcmBytes_eq (frames : List Frame) :
    pcmBytes frames = Wav.memBytes (interleaved frames) := by
  unfold pcmBytes Wav.memBytes LittleEndian.encodeAll
  rw [List.flatMap_map]
  congr 1
  funext x
  exact sampleBytes_eq x

theorem pcmBytes_append (as bs : List Frame) :
    pcmBytes (as ++ bs) = pcmBytes as ++ pcmBytes bs := by
  simp [pcmBytes, interleaved]

/-- A frame takes four bytes. -/
@[simp] theorem pcmBytes_length (frames : List Frame) :
    (pcmBytes frames).length = 4 * frames.length := by
  have hlen : (interleaved frames).length = 2 * frames.length := by
    induction frames with
    | nil => rfl
    | cons f fs ih =>
      have : interleaved (f :: fs) = [f.1, f.2] ++ interleaved fs := by simp [interleaved]
      rw [this, List.length_append, ih]
      simp
      ring
  rw [pcmBytes_eq, Wav.memBytes_length, hlen]
  ring

/-! ## The loop -/

/-- The frames of a result. -/
def OpRead.frames : OpRead → List Frame
  | .samples chunk => chunk.frames
  | _ => []

/-- All the frames that the library decodes. -/
def OggOpusFile.frames (of : OggOpusFile) : List Frame := of.reads.flatMap OpRead.frames

/-- On a stream that writes at its end, a loop that ends well has appended all the frames. -/
theorem readLoop_success (dev : Device) (reads : List OpRead) (s : LoopState)
    (hs : s.wav_file.AtEnd) (h : (readLoop dev reads s).success = true) :
    (readLoop dev reads s).wav_file.AtEnd ∧
      (readLoop dev reads s).wav_file.bytes =
        s.wav_file.bytes ++ pcmBytes (reads.flatMap OpRead.frames) ∧
      (readLoop dev reads s).total_samples_read =
        s.total_samples_read + (reads.flatMap OpRead.frames).length := by
  induction reads generalizing s with
  | nil => exact ⟨hs, by simp [readLoop, pcmBytes, interleaved], by simp [readLoop]⟩
  | cons read reads ih =>
    cases read with
    | hole => exact ih s hs h
    | error => simp [readLoop] at h
    | samples chunk =>
      rw [readLoop] at h ⊢
      cases hfail : (s.wav_file.write dev (pcmBytes chunk.frames)).failed with
      | true => simp [hfail] at h
      | false =>
        simp only [hfail, Bool.false_eq_true, if_false] at h ⊢
        -- The write is complete, so the rest of the loop starts at the end of a longer file.
        obtain ⟨-, hmiss⟩ := Stream.write_failed_iff.mp hfail
        have hwrite := hs.write_eq (pcmBytes chunk.frames) hmiss
        obtain ⟨hend, hbytes, htotal⟩ := ih _ (by rw [hwrite]; exact ⟨rfl, rfl⟩) h
        refine ⟨hend, ?_, ?_⟩
        · rw [hbytes, hwrite, List.flatMap_cons, pcmBytes_append, ← List.append_assoc]
          rfl
        · rw [htotal, List.flatMap_cons, List.length_append, OpRead.frames]
          ring

/-- On a stream that has failed the loop writes nothing, and it ends well only where there is
nothing to write. -/
theorem readLoop_of_failed (dev : Device) (reads : List OpRead) (s : LoopState)
    (hs : s.wav_file.failed = true) :
    (readLoop dev reads s).wav_file = s.wav_file ∧
      (readLoop dev reads s).total_samples_read = s.total_samples_read ∧
      ((readLoop dev reads s).success = true → reads.flatMap OpRead.frames = []) := by
  induction reads with
  | nil => exact ⟨rfl, rfl, fun _ => rfl⟩
  | cons read reads ih =>
    cases read with
    | hole => exact ih
    | error => simp [readLoop]
    | samples chunk => simp [readLoop, Stream.write_of_failed hs, hs]

/-- The state in which the loop starts. -/
abbrev loopStart (dev : Device) (wav_header : List UInt8) : LoopState :=
  { wav_file := Stream.opened.write dev wav_header, total_samples_read := 0, success := true }

/-- If the device took the header, a loop that ends well has written the frames after it. -/
theorem readLoop_loopStart {dev : Device} {reads : List OpRead} {wav_header : List UInt8}
    (hmiss : dev.missing 0 = 0)
    (h : (readLoop dev reads (loopStart dev wav_header)).success = true) :
    (readLoop dev reads (loopStart dev wav_header)).wav_file.bytes =
        wav_header ++ pcmBytes (reads.flatMap OpRead.frames) ∧
      (readLoop dev reads (loopStart dev wav_header)).total_samples_read =
        (reads.flatMap OpRead.frames).length := by
  have hwrite := Stream.atEnd_opened.write_eq wav_header hmiss
  have hstart : (loopStart dev wav_header).wav_file =
      { bytes := wav_header, pos := wav_header.length, failed := false, ops := 1 } := hwrite
  have hend : (loopStart dev wav_header).wav_file.AtEnd := by
    rw [hstart]
    exact ⟨rfl, rfl⟩
  obtain ⟨-, hbytes, htotal⟩ := readLoop_success dev reads _ hend h
  exact ⟨by rw [hbytes, hstart], by rw [htotal, Nat.zero_add]⟩

/-- If the device did not take the whole header, the stream has failed after the loop, and the file
is a part of the header. -/
theorem readLoop_loopStart_of_missing {dev : Device} (reads : List OpRead) {wav_header : List UInt8}
    (hmiss : dev.missing 0 ≠ 0) (hhead : wav_header ≠ []) :
    (readLoop dev reads (loopStart dev wav_header)).wav_file.failed = true ∧
      (readLoop dev reads (loopStart dev wav_header)).wav_file.bytes.length <
        wav_header.length := by
  have hfailed : (loopStart dev wav_header).wav_file.failed = true := by
    rw [← Bool.not_eq_false]
    intro hopen
    exact hmiss (Stream.write_failed_iff.mp hopen).2
  have hpos := List.length_pos_of_ne_nil hhead
  obtain ⟨hstream, -, -⟩ := readLoop_of_failed dev reads _ hfailed
  refine ⟨by rw [hstream, hfailed], ?_⟩
  rw [hstream]
  simp only [Stream.write, Stream.opened, OutStream.overwrite, Bool.false_eq_true, if_false,
    List.takeD_zero, List.nil_append, List.drop_nil, List.append_nil, List.length_take]
  omega

/-! ## The file -/

/-- The file is a WAV file of the frames: the reader accepts its header and stops after 44 bytes,
the header has the parameters of the decoded stream, its number of samples is the number of 16-bit
values that follow, and these are the samples. -/
def DecodedWav (file : List UInt8) (frames : List Frame) : Prop :=
  ∃ p, readWavHeader byteSource file = some (p, file.drop kWavHeaderSize) ∧
    p.num_channels = 2 ∧ p.sample_rate = 48000 ∧ p.bytes_per_sample = 2 ∧
    2 * p.num_samples = (file.drop kWavHeaderSize).length ∧
    file.drop kWavHeaderSize = Wav.memBytes (interleaved frames)

/-- Whatever its RIFF size, a header that was written for a declared duration is right for the
frames after it only if the declared payload is theirs in 32 bits, and small enough. -/
theorem DecodedWav.declared_eq {d : ℕ} {size : UInt32} {frames : List Frame}
    (h : DecodedWav ((withRiffSize (decodedParameters d).header size).toBytes ++ pcmBytes frames)
      frames) :
    4 * frames.length + 36 < 2^32 ∧ d % 2^30 = frames.length := by
  obtain ⟨p, hread, -, -, hb, hn, -⟩ := h
  have hlen := (withRiffSize (decodedParameters d).header size).toBytes_length
  rw [List.drop_left' hlen, pcmBytes_length] at hn
  rw [Wav.readWavHeader_toBytes _ _ rfl] at hread
  cases hparse : (withRiffSize (decodedParameters d).header size).parse with
  | none => simp [hparse] at hread
  | some q =>
    simp only [hparse, Option.map_some, Option.some.injEq, Prod.mk.injEq] at hread
    have hvalid := (WavHeader.accepted hparse).valid
    have hsamples := (WavHeader.accepted hparse).samples
    rw [hread.1] at hvalid hsamples
    -- The RIFF size is not where the number of samples is read from.
    have hdata : (withRiffSize (decodedParameters d).header size).data.header.Size.toNat =
        4 * d % 2^32 := by
      rw [← bytesInPayload_decoded d]
      exact WavParameters.data_size_toNat _
    have hle := hvalid.samples_le
    rw [hdata, hb] at hsamples
    rw [hb] at hle
    simp only [Wav.uint32Max] at hle
    omega

/-- A header that was written for a declared duration whose payload is that of the frames in 32 bits
makes a valid file with them. -/
theorem decodedWav_of_declared {d : ℕ} {frames : List Frame} (hv : (decodedParameters d).Valid)
    (hn : 4 * frames.length + 36 < 2^32) (hd : d % 2^30 = frames.length) :
    DecodedWav ((decodedParameters d).header.toBytes ++ pcmBytes frames) frames := by
  have hlen := (decodedParameters d).header.toBytes_length
  have hdrop : ((decodedParameters d).header.toBytes ++ pcmBytes frames).drop kWavHeaderSize =
      pcmBytes frames := List.drop_left' hlen
  have hcount : (decodedParameters d).bytesInPayload % 2^32 /
      (decodedParameters d).bytes_per_sample =
      2 * frames.length := by
    rw [bytesInPayload_decoded]
    show 4 * d % 2^32 / 2 = _
    omega
  -- The parameters that are read back count the samples of both channels.
  have hq : (decodedParameters (2 * frames.length)).check = true := by
    rw [WavParameters.check_iff, valid_wavParameters_iff]
    omega
  refine ⟨decodedParameters (2 * frames.length), ?_, rfl, rfl, rfl, ?_, ?_⟩
  · rw [Wav.readWavHeader_toBytes _ _ rfl, hdrop, hv.parse_header, hcount]
    show Option.map _ (if (decodedParameters (2 * frames.length)).check = true then
      some (decodedParameters (2 * frames.length)) else none) = _
    rw [if_pos hq]
    rfl
  · rw [hdrop, pcmBytes_length]
    show 2 * (2 * frames.length) = _
    ring
  · rw [hdrop, pcmBytes_eq]

/-- What the end of the call returns true on: the loop ended well, and if the total is not the
declared one, the assertion and both operations of the rewriting succeeded. -/
theorem rewriteHeader_true {dev : Device} {d : Int64} {s : LoopState} {file : List UInt8}
    (h : rewriteHeader dev d s = { wav_file := some file, ret := some true }) :
    s.success = true ∧ ∃ bytes, file = bytes.take (bytes.length - dev.unflushed) ∧
      (((s.total_samples_read : ℤ) = d.toInt ∧ bytes = s.wav_file.bytes) ∨
        (s.wav_file.failed = false ∧
          bytes = OutStream.overwrite s.wav_file.bytes 0
            (OutStream.cString (decodedParameters s.total_samples_read).header.toBytes))) := by
  unfold rewriteHeader at h
  by_cases htotal : (s.total_samples_read : ℤ) = d.toInt
  · rw [if_neg (by simp [htotal])] at h
    simp only [Outcome.mk.injEq, Option.some.injEq] at h
    exact ⟨h.2, s.wav_file.bytes, h.1.symm, Or.inl ⟨htotal, rfl⟩⟩
  · rw [if_pos htotal] at h
    cases hhead : makeWavHeader s.total_samples_read 48000 2 with
    | none => simp [hhead] at h
    | some wav_header =>
      obtain ⟨-, rfl⟩ := (makeWavHeader_eq_some_iff _ _).mp hhead
      simp only [hhead, Outcome.mk.injEq, Option.some.injEq] at h
      obtain ⟨hfile, hret⟩ := h
      -- The stream is good in the end, so it was before each of the two operations.
      split_ifs at hret with hfail
      rw [Bool.not_eq_true] at hfail
      obtain ⟨hseek, hinsert⟩ := Stream.write_failed_iff.mp hfail
      obtain ⟨hopen, hmiss⟩ := Stream.seek_failed_iff.mp hseek
      refine ⟨hret, _, ?_, Or.inr ⟨hopen, rfl⟩⟩
      rw [← hfile, Stream.writeCString, Stream.close, Stream.write_of_not_failed _ hseek hinsert,
        Stream.seek_of_not_failed hopen hmiss]

/-- What a call that returns true has left. If the device took the first header, it is that header,
with some RIFF size, and all the frames, less what was lost at the close; and the RIFF size is the
declared one if the declared payload is that of the frames in 32 bits. Otherwise it is a part of a
header. -/
theorem decodeOpened_true {dev : Device} {of : OggOpusFile} {file : List UInt8}
    (h : decodeOpened dev of = { wav_file := some file, ret := some true }) :
    (decodedParameters (toSizeT of.declared)).Valid ∧
      ((dev.missing 0 = 0 ∧ ∃ size bytes,
          bytes = (withRiffSize (decodedParameters (toSizeT of.declared)).header size).toBytes ++
            pcmBytes of.frames ∧
          file = bytes.take (bytes.length - dev.unflushed) ∧
          (4 * toSizeT of.declared % 2^32 = 4 * of.frames.length % 2^32 →
            bytes = (decodedParameters (toSizeT of.declared)).header.toBytes ++
              pcmBytes of.frames)) ∨
        (dev.missing 0 ≠ 0 ∧ file.length < kWavHeaderSize)) := by
  unfold decodeOpened at h
  cases hhead : makeWavHeader (toSizeT of.declared) 48000 2 with
  | none => simp [hhead] at h
  | some wav_header =>
    obtain ⟨hv, rfl⟩ := (makeWavHeader_eq_some_iff _ _).mp hhead
    refine ⟨hv, ?_⟩
    simp only [hhead] at h
    obtain ⟨hsuccess, bytes, hfile, hcases⟩ := rewriteHeader_true h
    by_cases hmiss : dev.missing 0 = 0
    · -- The device took the header: the loop appends the frames to it.
      obtain ⟨hbytes, htotal⟩ := readLoop_loopStart hmiss hsuccess
      refine Or.inl ⟨hmiss, ?_⟩
      rcases hcases with ⟨-, rfl⟩ | ⟨-, rfl⟩
      · exact ⟨_, _, hbytes, hfile, fun _ => hbytes⟩
      · -- The header was rewritten, which can only have changed its RIFF size.
        rw [hbytes, htotal] at hfile
        obtain ⟨size, hsize⟩ := rewritten_header (decodedParameters (toSizeT of.declared))
          (decodedParameters of.frames.length) (pcmBytes of.frames)
        refine ⟨size, _, hsize, hfile, fun hmod => ?_⟩
        rw [← header_eq_of_mod hmod, OutStream.overwrite_cString_self]
    · -- The stream failed at the header, so nothing was decoded or rewritten.
      have hhead : (decodedParameters (toSizeT of.declared)).header.toBytes ≠ [] := by
        rw [← List.length_pos_iff, WavHeader.toBytes_length]
        decide
      obtain ⟨hfailed, hpart⟩ := readLoop_loopStart_of_missing of.reads hmiss hhead
      rw [WavHeader.toBytes_length] at hpart
      refine Or.inr ⟨hmiss, ?_⟩
      rcases hcases with ⟨-, rfl⟩ | ⟨hopen, -⟩
      · refine lt_of_le_of_lt ?_ hpart
        rw [hfile, List.length_take]
        exact le_trans (Nat.min_le_left _ _) (Nat.sub_le _ _)
      · rw [hfailed] at hopen
        cases hopen

/-- A call that returns true has left a valid file of the decoded samples exactly when the device
took the header and lost nothing at the close, the payload and the header fit 32 bits, and the
declared duration already stood for the decoded samples: the rewritten header never changes the
data size. -/
theorem opusDecode_decodedWav_iff (dev : Device) (of : OggOpusFile) (file : List UInt8)
    (h : opusDecode (some dev) (some of) = { wav_file := some file, ret := some true }) :
    DecodedWav file of.frames ↔
      (dev.missing 0 = 0 ∧ dev.unflushed = 0) ∧ 4 * of.frames.length + 36 < 2^32 ∧
        toSizeT of.declared % 2^30 = of.frames.length := by
  rw [opusDecode] at h
  obtain ⟨hv, ⟨hmiss, size, bytes, hbytes, hfile, hsame⟩ | ⟨hmiss, hshort⟩⟩ := decodeOpened_true h
  · have hlen : bytes.length = kWavHeaderSize + (pcmBytes of.frames).length := by
      rw [hbytes, List.length_append, WavHeader.toBytes_length]
    constructor
    · intro hd
      -- Nothing was lost: all of the header was read, and all of the samples follow it.
      have hflushed : dev.unflushed = 0 := by
        obtain ⟨p, hread, -, -, -, -, hsamples⟩ := hd
        have hmin := Wav.readWavHeader_length hread
        have hsize := congrArg List.length hsamples
        rw [← pcmBytes_eq, List.length_drop] at hsize
        rw [hfile, List.length_take] at hmin hsize
        rw [List.length_drop, List.length_take] at hmin
        simp only [kWavHeaderSize] at hlen hmin hsize
        omega
      rw [hflushed, Nat.sub_zero, List.take_length] at hfile
      rw [hfile, hbytes] at hd
      exact ⟨⟨hmiss, hflushed⟩, hd.declared_eq⟩
    · rintro ⟨⟨-, hflushed⟩, hn, hd⟩
      rw [hflushed, Nat.sub_zero, List.take_length] at hfile
      rw [hfile, hsame (by omega)]
      exact decodedWav_of_declared hv hn hd
  · -- A file that is shorter than a header is not read at all.
    constructor
    · rintro ⟨p, hread, -⟩
      have hmin := Wav.readWavHeader_length hread
      omega
    · rintro ⟨⟨hmiss', -⟩, -⟩
      exact absurd hmiss' hmiss

/-- A seekable file of two frames that declares what it holds. -/
def declaringFile : OggOpusFile where
  seekable := true
  pcm_total := 2
  reads := [.samples ⟨[(1, -1), (2, -2)], by decide, by decide⟩]

/-- The file of a stream that declares what it holds is valid. -/
theorem opusDecode_decodedWav_declaring :
    DecodedWav ((decodedParameters 2).header.toBytes ++ pcmBytes declaringFile.frames)
      declaringFile.frames :=
  (opusDecode_decodedWav_iff .perfect declaringFile _ (by decide)).mpr (by decide)

/-- The same frames from a source that is not seekable, with a hole before them. -/
def streamedFile : OggOpusFile where
  seekable := false
  pcm_total := 0
  reads := [.hole, .samples ⟨[(1, -1), (2, -2)], by decide, by decide⟩]

/-- Decoding a stream that is not seekable returns true, and the file it leaves still declares no
data. -/
theorem opusDecode_streamed : ∃ file,
    opusDecode (some .perfect) (some streamedFile) = { wav_file := some file, ret := some true } ∧
      ¬DecodedWav file streamedFile.frames := by
  refine ⟨(withRiffSize (decodedParameters 0).header 44).toBytes ++ pcmBytes streamedFile.frames,
    by decide, fun h => ?_⟩
  exact absurd h.declared_eq.2 (by decide)

/-! ## The assertion -/

/-- The frames that the loop writes: those before the first error of the library and before the
first write, counted from an operation of the stream, that the device does not take. -/
def framesWritten (dev : Device) : ℕ → List OpRead → List Frame
  | _, [] => []
  | ops, .hole :: reads => framesWritten dev ops reads
  | _, .error :: _ => []
  | ops, .samples chunk :: reads =>
    if dev.missing ops = 0 then chunk.frames ++ framesWritten dev (ops + 1) reads else []

/-- The frames that a call decodes to a device. -/
def OggOpusFile.decodedFrames (of : OggOpusFile) (dev : Device) : List Frame :=
  if dev.missing 0 = 0 then framesWritten dev 1 of.reads else []

/-- The loop counts the frames that it writes. -/
theorem readLoop_total (dev : Device) (reads : List OpRead) (s : LoopState)
    (hs : s.wav_file.failed = false) :
    (readLoop dev reads s).total_samples_read =
      s.total_samples_read + (framesWritten dev s.wav_file.ops reads).length := by
  induction reads generalizing s with
  | nil => rfl
  | cons read reads ih =>
    cases read with
    | hole => exact ih s hs
    | error => rfl
    | samples chunk =>
      rw [readLoop, framesWritten]
      -- The loop counts a chunk after its write, and stops without counting one that was cut.
      by_cases hmiss : dev.missing s.wav_file.ops = 0
      · have hwrite := Stream.write_of_not_failed (pcmBytes chunk.frames) hs hmiss
        simp only [hwrite, Bool.false_eq_true, if_false, hmiss, if_true]
        rw [ih _ rfl, List.length_append]
        ring
      · have hfail : (s.wav_file.write dev (pcmBytes chunk.frames)).failed = true := by
          rw [← Bool.not_eq_false, Stream.write_failed_iff]
          exact fun h => hmiss h.2
        simp only [hfail, if_true, hmiss, if_false]
        rfl

/-- The total after the loop of a call is the number of frames that it decodes. -/
theorem readLoop_loopStart_total (dev : Device) (of : OggOpusFile) (wav_header : List UInt8) :
    (readLoop dev of.reads (loopStart dev wav_header)).total_samples_read =
      (of.decodedFrames dev).length := by
  unfold OggOpusFile.decodedFrames
  by_cases hmiss : dev.missing 0 = 0
  · have hopen : (loopStart dev wav_header).wav_file.failed = false :=
      Stream.write_failed_iff.mpr ⟨rfl, hmiss⟩
    have hops : (loopStart dev wav_header).wav_file.ops = 1 := by
      show (Stream.opened.write dev wav_header).ops = 1
      rw [Stream.write_of_not_failed _ rfl hmiss]
      rfl
    rw [readLoop_total dev of.reads _ hopen, hops, if_pos hmiss, Nat.zero_add]
  · have hfailed : (loopStart dev wav_header).wav_file.failed = true := by
      rw [← Bool.not_eq_false]
      intro hopen
      exact hmiss (Stream.write_failed_iff.mp hopen).2
    rw [(readLoop_of_failed dev of.reads _ hfailed).2.1, if_neg hmiss]
    rfl

/-- The assertion holds where the header is rewritten, or nothing is rewritten. -/
theorem rewriteHeader_ret_ne_none_iff (dev : Device) (d : Int64) (s : LoopState) :
    (rewriteHeader dev d s).ret ≠ none ↔
      (s.total_samples_read : ℤ) = d.toInt ∨ (decodedParameters s.total_samples_read).Valid := by
  unfold rewriteHeader
  by_cases htotal : (s.total_samples_read : ℤ) = d.toInt
  · simp [htotal]
  · rw [if_pos htotal]
    have hnone := makeWavHeader_eq_none_iff s.total_samples_read
    cases hhead : makeWavHeader s.total_samples_read 48000 2 with
    | none => simp [htotal, hnone.mp hhead]
    | some wav_header =>
      have hv : (decodedParameters s.total_samples_read).Valid := by
        by_contra hv
        rw [hnone.mpr hv] at hhead
        cases hhead
      simp [hv]

/-- A duration below `2^63` is not negative, and is itself as a `size_t`. -/
theorem toSizeT_of_lt {d : Int64} (h : toSizeT d < 2^63) : (toSizeT d : ℤ) = d.toInt := by
  have hle := d.le_toInt
  have hlt := d.toInt_lt
  unfold toSizeT at h ⊢
  omega

/-- When the payloads fit the header, neither call of `make_wav_header` fails its assertion exactly
when the declared duration is even, and so is the number of decoded samples unless it is the
declared one: the assertion takes a number per channel for a total. -/
theorem opusDecode_ret_ne_none_iff (dev : Device) (of : OggOpusFile)
    (h : 36 + 4 * max (toSizeT of.declared) (of.decodedFrames dev).length < 2^32) :
    (opusDecode (some dev) (some of)).ret ≠ none ↔
      2 ∣ toSizeT of.declared ∧
        ((of.decodedFrames dev).length = toSizeT of.declared ∨
          2 ∣ (of.decodedFrames dev).length) := by
  have hlt : toSizeT of.declared < 2^63 := by
    generalize toSizeT of.declared = d at h
    omega
  have hd := toSizeT_of_lt hlt
  have hnone := makeWavHeader_eq_none_iff (toSizeT of.declared)
  show (decodeOpened dev of).ret ≠ none ↔ _
  unfold decodeOpened
  -- The first call decides about the declared duration, the second one about the total.
  cases hhead : makeWavHeader (toSizeT of.declared) 48000 2 with
  | none =>
    have hv := hnone.mp hhead
    rw [valid_wavParameters_iff] at hv
    simp only [ne_eq, not_true_eq_false, false_iff]
    omega
  | some wav_header =>
    have hv := ((makeWavHeader_eq_some_iff _ _).mp hhead).1
    rw [valid_wavParameters_iff] at hv
    rw [rewriteHeader_ret_ne_none_iff, readLoop_loopStart_total, valid_wavParameters_iff]
    omega

/-- The assertion holds twice on a stream that declares its two samples. -/
theorem opusDecode_ret_declaring : (opusDecode (some .perfect) (some declaringFile)).ret ≠ none :=
  (opusDecode_ret_ne_none_iff .perfect declaringFile (by decide)).mpr (by decide)

/-- A seekable file of three frames that declares what it holds. -/
def oddFile : OggOpusFile where
  seekable := true
  pcm_total := 3
  reads := [.samples ⟨[(1, -1), (2, -2), (3, -3)], by decide, by decide⟩]

/-- Three samples per channel fail the assertion. -/
theorem opusDecode_odd_aborts :
    36 + 4 * max (toSizeT oddFile.declared) (oddFile.decodedFrames .perfect).length < 2^32 ∧
      (opusDecode (some .perfect) (some oddFile)).ret = none := by
  decide

end TgVoipRate.Opus
