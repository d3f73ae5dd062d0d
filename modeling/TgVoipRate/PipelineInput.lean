import TgVoipRate.PipelineFiles
import TgVoipRate.Wav.ReaderCalls

/-!
# What an input is measured by

Both stages of an input, from its Opus file to the samples that are loaded. The reader of a decoded
file believes the header, which counts the samples of both channels by the duration that the Opus
file declared, and the resampling library is told of as many samples per channel. So an input is
measured by its declared part and as much silence (`monoCall_converted`). And both stages succeed on
an Opus file that declares its frames, where nothing around them fails (`monoCall_succeeds`).
-/

namespace TgVoipRate.Pipeline

open FileSystem (Path World)
open OutStream (Device Stream)
open Opus (OggOpusFile OpRead interleaved decodedParameters withRiffSize pcmBytes)
open Pesq (resampledHeader)
open Resample (Conversion FFmpeg dstNbSamples resample)
open Wav (WavHeader WavParameters WavReader kWavHeaderSize memBytes memSamples readWavHeader
  byteSource)

/-! ## One input -/

/-- The frames that the header of a decoded file declares: its payload is narrowed to 32 bits. -/
def declaredFrames (of : OggOpusFile) : ℕ := Opus.toSizeT of.declared % 2^30

/-- The header of a decoded file, with any RIFF size, is read as one of stereo samples. -/
theorem read_decoded {of : OggOpusFile} {size : UInt32} {post rest : List UInt8} {p : WavParameters}
    (hread : readWavHeader byteSource
      ((withRiffSize (decodedParameters (Opus.toSizeT of.declared)).header size).toBytes ++ post) =
        some (p, rest)) :
    p = ⟨2, 48000, .kWavFormatPcm, 2, 2 * declaredFrames of⟩ ∧ rest = post := by
  rw [Wav.readWavHeader_toBytes _ _ rfl] at hread
  obtain ⟨q, hparse, heq⟩ := Option.map_eq_some_iff.mp hread
  obtain ⟨rfl, rfl⟩ := Prod.mk.inj heq
  refine ⟨?_, rfl⟩
  have hbytes : (withRiffSize (decodedParameters (Opus.toSizeT of.declared)).header
      size).fmt.BitsPerSample.toNat / 8 = 2 := by
    show (UInt16.ofNat (8 * 2)).toNat / 8 = 2
    decide
  have hsize : (decodedParameters (Opus.toSizeT of.declared)).header.data.header.Size.toNat / 2 =
      2 * declaredFrames of := by
    rw [WavParameters.data_size_toNat, Opus.bytesInPayload_decoded]
    unfold declaredFrames
    omega
  unfold WavHeader.parse at hparse
  dsimp only at hparse
  split_ifs at hparse
  cases hparse
  rw [hbytes, WavParameters.mk.injEq]
  exact ⟨rfl, rfl, rfl, rfl, hsize⟩

/-- What a resampling that returns true was given: all samples that the reader promises, in a buffer
with room for as many in each channel. -/
theorem resample_input {ff : FFmpeg} {file out : List UInt8} {out_file : Option Device} {rate : ℕ}
    {swr : Conversion}
    (h : resample ff (some file) out_file rate 1 =
      { swr := some swr, wav_file := some out, ret := some true }) :
    ∃ reader, WavReader.open (some file) = some reader ∧ reader.num_samples_ ≠ 0 ∧
      (reader.ReadSamples reader.num_samples_).1.length = reader.num_samples_ ∧
      (0 < (dstNbSamples reader.num_samples_ rate reader.sample_rate_).toInt) ∧
      (let channels := if reader.num_channels_ = 2 then 2 else 1
       ff.swr_convert channels
        ((reader.ReadSamples reader.num_samples_).1.takeD (channels * reader.num_samples_) 0)
        (Int32.ofNat reader.num_samples_)
        (dstNbSamples reader.num_samples_ rate reader.sample_rate_) = some swr.produced) ∧
      Resample.writeOutput out_file rate 1
          (dstNbSamples reader.num_samples_ rate reader.sample_rate_) swr =
        { swr := some swr, wav_file := some out, ret := some true } := by
  unfold resample at h
  cases hopen : WavReader.open (some file) with
  | none => simp [hopen] at h
  | some reader =>
    simp only [hopen] at h
    refine ⟨reader, rfl, ?_⟩
    generalize (if reader.num_channels_ = 2 then 2 else 1 : ℕ) = channels at h ⊢
    -- The tests that end the call early cannot give its result.
    split_ifs at h with hempty halloc hinit hsrc hdst hread
    all_goals try cases h
    split at h
    · cases h
    · rename_i hconvert
      obtain ⟨rfl, -⟩ := Resample.writeOutput_true h
      push Not at hempty hread
      exact ⟨hempty.2.2, hread.1, (Resample.avSamplesAlloc_nonneg hdst).1, hconvert, h⟩

/-- The samples that an Opus file is measured by: the declared frames and as much silence are
converted, and the output is filled up with silence to the length of both. -/
structure ConvertedFrom (ff : FFmpeg) (of : OggOpusFile) (samples : List Int16) : Prop where
  declared_pos : 0 < declaredFrames of
  declared_le : declaredFrames of ≤ of.frames.length
  converted : ∃ produced,
    ff.swr_convert 2
        ((interleaved of.frames).take (2 * declaredFrames of) ++
          List.replicate (2 * declaredFrames of) 0)
        (Int32.ofNat (2 * declaredFrames of)) (Int32.ofNat ((2 * declaredFrames of + 2) / 3)) =
      some produced ∧
    samples = produced.takeD ((2 * declaredFrames of + 2) / 3) 0

/-- How many samples they are: those of twice the declared duration. -/
theorem ConvertedFrom.length_eq {ff : FFmpeg} {of : OggOpusFile} {samples : List Int16}
    (h : ConvertedFrom ff of samples) : samples.length = (2 * declaredFrames of + 2) / 3 := by
  obtain ⟨-, -, produced, -, rfl⟩ := h
  exact List.takeD_length _ _ _

/-- The output buffer for a count of samples at 48 kHz. -/
theorem dstNbSamples_48k {n : ℕ} (hn : n < 2^31) :
    dstNbSamples n 16000 48000 = Int32.ofNat ((n + 2) / 3) := by
  have hquotient : ((n : ℤ) * 16000 + 47999) / 48000 = ((n + 2) / 3 : ℕ) := by omega
  have hrate : (Int64.ofNat 16000).toInt = 16000 := by decide
  have hsource : (48000 : Int32).toInt = 48000 := by decide
  unfold dstNbSamples Resample.avRescaleRndUp
  dsimp only
  rw [hrate, hsource, if_neg (by omega)]
  exact congrArg Int32.ofInt hquotient

/-- A small count is kept by its conversions. -/
theorem toInt_ofNat {n : ℕ} (hlt : n < 2^31) : (Int32.ofNat n).toInt = n := by
  rw [Int32.toInt_ofNat']
  exact Int.bmod_eq_of_le (by simp only [Int32.size]; omega) (by simp only [Int32.size]; omega)

/-- A small positive count is kept by its conversions. -/
theorem toSizeT_ofNat {n : ℕ} (hpos : 0 < n) (hlt : n < 2^31) :
    Wav.toSizeT (Int32.ofNat n) = n := by
  have hint := toInt_ofNat hlt
  have hsize := Resample.toSizeT_eq (x := Int32.ofNat n) (by rw [hint]; omega)
  rw [hint] at hsize
  exact_mod_cast hsize

/-- A frame has two samples. -/
theorem interleaved_length (frames : List Opus.Frame) :
    (interleaved frames).length = 2 * frames.length := by
  have hpcm := Opus.pcmBytes_length frames
  rw [Opus.pcmBytes_eq, Wav.memBytes_length] at hpcm
  omega

/-- Filling up a list. -/
theorem takeD_add {α : Type*} (xs : List α) (n : ℕ) (a : α) :
    xs.takeD (xs.length + n) a = xs ++ List.replicate n a := by
  induction xs with
  | nil => rw [List.length_nil, Nat.zero_add, List.takeD_nil, List.nil_append]
  | cons x xs ih =>
    have hcount : (x :: xs).length + n = (xs.length + n) + 1 := by
      rw [List.length_cons]
      omega
    rw [hcount, List.takeD_succ, List.head?_cons, List.tail_cons, ih]
    rfl

/-- The samples of a decoded file that its reader returns for a count that they are enough for. -/
theorem read_interleaved {of : OggOpusFile} {n : ℕ} (hn : n ≤ (interleaved of.frames).length) :
    memSamples n (pcmBytes of.frames) = (interleaved of.frames).take n := by
  have hlen : ((interleaved of.frames).take n).length = n := by
    rw [List.length_take, Nat.min_eq_left hn]
  have hsplit : pcmBytes of.frames = memBytes ((interleaved of.frames).take n) ++
      memBytes ((interleaved of.frames).drop n) := by
    rw [Opus.pcmBytes_eq, ← Wav.memBytes_append, List.take_append_drop]
  calc memSamples n (pcmBytes of.frames)
      = memSamples ((interleaved of.frames).take n).length
          (memBytes ((interleaved of.frames).take n) ++
            memBytes ((interleaved of.frames).drop n)) := by rw [hlen, hsplit]
    _ = (interleaved of.frames).take n := Wav.memSamples_memBytes _ _

/-- An input whose stages return true is converted as above, and what is written is a header and
the samples that it is measured by. -/
theorem convertedFrom {ff : FFmpeg} {of : OggOpusFile} {dev dev' : Device} {file out : List UInt8}
    {swr : Conversion}
    (hdecode : Opus.opusDecode (some dev) (some of) = { wav_file := some file, ret := some true })
    (hflushed : dev.unflushed = 0)
    (hresample : resample ff (some file) (some dev') 16000 1 =
      { swr := some swr, wav_file := some out, ret := some true })
    (hflushed' : dev'.unflushed = 0) :
    ∃ samples, ConvertedFrom ff of samples ∧
      out = (resampledHeader samples.length).toBytes ++ memBytes samples := by
  rw [Opus.opusDecode] at hdecode
  obtain ⟨reader, hopen, hne, hlen, hpos, hconvert, hout⟩ := resample_input hresample
  cases hread : readWavHeader byteSource file with
  | none => simp [WavReader.open, hread] at hopen
  | some read =>
    obtain ⟨p, rest⟩ := read
    have hheader := Wav.readWavHeader_length hread
    obtain ⟨-, ⟨-, size, bytes, hbytes, hfile, -⟩ | ⟨-, hshort⟩⟩ := Opus.decodeOpened_true hdecode
    · rw [hflushed, Nat.sub_zero, List.take_length] at hfile
      have hvalid := Wav.valid_of_readWavHeader hread
      rw [hfile, hbytes] at hread
      obtain ⟨rfl, rfl⟩ := read_decoded hread
      rw [← hbytes, ← hfile] at hread
      rw [WavReader.open_of_header hread, Option.some.injEq] at hopen
      subst hopen
      dsimp only at hne hlen hpos hconvert hout
      -- The reader returned as many samples as the header declares, so the file has them.
      have hcount : 2 * declaredFrames of < 2^31 := by
        have hle := hvalid.samples_le
        simp only [Wav.uint32Max] at hle
        omega
      have hinterleaved := interleaved_length of.frames
      unfold WavReader.ReadSamples at hlen hconvert
      dsimp only at hlen hconvert
      rw [Wav.memSamples_length] at hlen
      rw [hlen, read_interleaved (by rw [Opus.pcmBytes_length] at hlen; omega), if_pos rfl,
        dstNbSamples_48k hcount] at hconvert
      rw [Opus.pcmBytes_length] at hlen
      have htake : ((interleaved of.frames).take (2 * declaredFrames of)).length =
          2 * declaredFrames of := by
        rw [List.length_take]
        omega
      have hbuffer : ((interleaved of.frames).take (2 * declaredFrames of)).takeD
          (2 * (2 * declaredFrames of)) 0 =
            (interleaved of.frames).take (2 * declaredFrames of) ++
              List.replicate (2 * declaredFrames of) 0 := by
        have hfill := takeD_add ((interleaved of.frames).take (2 * declaredFrames of))
          (2 * declaredFrames of) (0 : Int16)
        rwa [htake, ← two_mul] at hfill
      rw [hbuffer] at hconvert
      obtain ⟨-, dev, bytes, hdev, hbytes, hfile⟩ := Resample.writeOutput_true hout
      obtain rfl := Option.some.inj hdev
      rw [hflushed', Nat.sub_zero, List.take_length] at hfile
      refine ⟨_, ⟨by omega, by omega, swr.produced, hconvert, rfl⟩, ?_⟩
      rw [hfile, hbytes, dstNbSamples_48k hcount, toSizeT_ofNat (by omega) (by omega),
        List.takeD_length]
      rfl
    · omega

/-! ## An input that succeeds -/

/-- A device that takes everything. -/
structure Reliable (dev : Device) : Prop where
  takes_all : ∀ k, dev.missing k = 0
  loses_nothing : dev.unflushed = 0

/-- An Opus file without errors that declares its frames: they are even in number, and not more than
a buffer of the resampling has room for. -/
structure Declares (of : OggOpusFile) : Prop where
  no_error : OpRead.error ∉ of.reads
  declared_eq : of.declared.toInt = of.frames.length
  even : 2 ∣ of.frames.length
  pos : 0 < of.frames.length
  lt : of.frames.length < 2^28 - 16

/-- A library that has memory and converts from stereo at 48 kHz to 16 kHz. Its filter keeps back
what it needs of the samples to come, so that a few samples may be converted into none, but not a
quarter of a second. -/
structure Works (ff : FFmpeg) : Prop where
  swr_alloc : ff.swr_alloc = true
  swr_init : 0 ≤ ff.swr_init 2 48000 16000
  av_malloc : ∀ size, ff.av_malloc size = true
  swr_convert : ∀ input in_count out_count, 12000 ≤ Int32.toInt in_count →
    4000 ≤ Int32.toInt out_count →
    ∃ output, ff.swr_convert 2 input in_count out_count = some output ∧ output ≠ []

/-- The declared frames. -/
theorem Declares.declaredFrames_eq {of : OggOpusFile} (h : Declares of) :
    Opus.toSizeT of.declared = of.frames.length ∧ declaredFrames of = of.frames.length := by
  have hlt := h.lt
  have hsize : Opus.toSizeT of.declared = of.frames.length := by
    unfold Opus.toSizeT
    rw [h.declared_eq]
    omega
  refine ⟨hsize, ?_⟩
  unfold declaredFrames
  rw [hsize]
  exact Nat.mod_eq_of_lt (by omega)

/-- Its header is written. -/
theorem Declares.valid {of : OggOpusFile} (h : Declares of) :
    (decodedParameters (Opus.toSizeT of.declared)).Valid := by
  have hlt := h.lt
  rw [h.declaredFrames_eq.1, Opus.valid_wavParameters_iff]
  exact ⟨h.even, by omega⟩

/-- On a reliable device the loop ends well, if the library reports no error. -/
theorem readLoop_reliable {dev : Device} (hdev : Reliable dev) {reads : List OpRead}
    (hreads : OpRead.error ∉ reads) {s : Opus.LoopState} (hopen : s.wav_file.failed = false) :
    (Opus.readLoop dev reads s).success = true := by
  induction reads generalizing s with
  | nil => rfl
  | cons read reads ih =>
    have hrest : OpRead.error ∉ reads := fun h => hreads (List.mem_cons_of_mem _ h)
    cases read with
    | hole => exact ih hrest hopen
    | error => exact absurd List.mem_cons_self hreads
    | samples chunk =>
      have hwrite : (s.wav_file.write dev (pcmBytes chunk.frames)).failed = false :=
        Stream.write_failed_iff.mpr ⟨hopen, hdev.takes_all _⟩
      rw [Opus.readLoop, hwrite]
      exact ih hrest hwrite

/-- Such a file is decoded, and the header counts its samples. -/
theorem Declares.opusDecode {of : OggOpusFile} (h : Declares of) {dev : Device}
    (hdev : Reliable dev) : ∃ file,
    Opus.opusDecode (some dev) (some of) = { wav_file := some file, ret := some true } ∧
      readWavHeader byteSource file =
        some (⟨2, 48000, .kWavFormatPcm, 2, 2 * of.frames.length⟩, pcmBytes of.frames) := by
  have hlt := h.lt
  obtain ⟨hsize, hdeclared⟩ := h.declaredFrames_eq
  have hheader := (Opus.makeWavHeader_eq_some_iff (Opus.toSizeT of.declared) _).mpr
    ⟨h.valid, rfl⟩
  have hstart : (Opus.loopStart dev (decodedParameters
      (Opus.toSizeT of.declared)).header.toBytes).wav_file.failed = false :=
    Stream.write_failed_iff.mpr ⟨rfl, hdev.takes_all _⟩
  have hsuccess := readLoop_reliable hdev h.no_error hstart
  obtain ⟨hbytes, htotal⟩ := Opus.readLoop_loopStart (hdev.takes_all 0) hsuccess
  refine ⟨(decodedParameters (Opus.toSizeT of.declared)).header.toBytes ++ pcmBytes of.frames,
    ?_, ?_⟩
  · unfold Opus.opusDecode Opus.decodeOpened Opus.rewriteHeader
    dsimp only
    rw [hheader]
    dsimp only
    rw [if_neg (by rw [htotal, h.declared_eq]; exact not_not.mpr rfl), hsuccess, Stream.close,
      hdev.loses_nothing, Nat.sub_zero, List.take_length, hbytes]
    rfl
  · obtain ⟨p, hread, -⟩ : Opus.DecodedWav _ of.frames := Opus.decodedWav_of_declared h.valid
      (by omega) (by rw [hsize]; exact Nat.mod_eq_of_lt (by omega))
    have hrest : ((decodedParameters (Opus.toSizeT of.declared)).header.toBytes ++
        pcmBytes of.frames).drop kWavHeaderSize = pcmBytes of.frames :=
      List.drop_left' (WavHeader.toBytes_length _)
    -- The header is one with its own RIFF size.
    have hsame : readWavHeader byteSource ((withRiffSize
        (decodedParameters (Opus.toSizeT of.declared)).header
        (decodedParameters (Opus.toSizeT of.declared)).header.riff.header.Size).toBytes ++
          pcmBytes of.frames) = some (p, pcmBytes of.frames) := by
      rw [← hrest]
      exact hread
    obtain ⟨rfl, -⟩ := read_decoded hsame
    rw [hread, hdeclared, hrest]

/-- The size of a buffer for fewer than `2^29` samples of one or two channels is no error. -/
theorem avSamplesGetBufferSize_nonneg {channels n align : ℤ}
    (hchannels : channels = 1 ∨ channels = 2) (halign : align = 0 ∨ align = 1) (hpos : 0 < n)
    (hlt : n < 2^29 - 32) :
    0 ≤ Resample.avSamplesGetBufferSize channels n align := by
  unfold Resample.avSamplesGetBufferSize Resample.avSamplesGetBufferSize.lineSize
    Resample.averrorEinval Resample.ffAlign Resample.intMax
  rcases hchannels with rfl | rfl <;> rcases halign with rfl | rfl <;> split_ifs <;> omega

/-- It can be had in a library that has memory. -/
theorem avSamplesAlloc_works {ff : FFmpeg} (hff : Works ff) {channels n : ℤ}
    (hchannels : channels = 1 ∨ channels = 2) (hpos : 0 < n) (hlt : n < 2^29 - 32) :
    ¬ff.avSamplesAlloc channels n < 0 := by
  have hsize := avSamplesGetBufferSize_nonneg hchannels (Or.inl (rfl : (0 : ℤ) = 0)) hpos hlt
  unfold FFmpeg.avSamplesAlloc
  dsimp only
  rw [if_neg (not_lt.mpr hsize), hff.av_malloc, if_pos rfl]
  exact not_lt.mpr hsize

/-- A decoded file of an eighth of a second is resampled: the library is told of twice as much. -/
theorem resample_works {ff : FFmpeg} (hff : Works ff) {file : List UInt8} {of : OggOpusFile}
    (h : Declares of) (hlong : 6000 ≤ of.frames.length) {dev : Device} (hdev : Reliable dev)
    (hopen : WavReader.open (some file) =
      some { num_channels_ := 2, sample_rate_ := 48000, num_samples_ := 2 * of.frames.length,
             num_samples_remaining_ := 2 * of.frames.length,
             file_handle_ := pcmBytes of.frames }) :
    (resample ff (some file) (some dev) 16000 1).ret = some true := by
  have hlt := h.lt
  have hpos := h.pos
  have hdst : Int32.ofInt (Resample.avRescaleRndUp (2 * of.frames.length : ℕ)
      (Int64.ofNat 16000).toInt (48000 : Int32).toInt) =
        Int32.ofNat ((2 * of.frames.length + 2) / 3) := dstNbSamples_48k (by omega)
  have hcount := toInt_ofNat (n := 2 * of.frames.length) (by omega)
  have hcount' := toInt_ofNat (n := (2 * of.frames.length + 2) / 3) (by omega)
  have hread : ((WavReader.mk 2 48000 (2 * of.frames.length) (2 * of.frames.length)
      (pcmBytes of.frames)).ReadSamples (2 * of.frames.length)).1.length =
        2 * of.frames.length := by
    unfold WavReader.ReadSamples
    dsimp only
    rw [Wav.memSamples_length, Opus.pcmBytes_length]
    omega
  obtain ⟨output, hconvert, hne⟩ := hff.swr_convert
    ((((WavReader.mk 2 48000 (2 * of.frames.length) (2 * of.frames.length)
      (pcmBytes of.frames)).ReadSamples (2 * of.frames.length)).1.takeD
        (2 * (2 * of.frames.length)) 0))
    (Int32.ofNat (2 * of.frames.length)) (Int32.ofNat ((2 * of.frames.length + 2) / 3))
    (by rw [hcount]; omega) (by rw [hcount']; omega)
  have hle := ff.swr_convert_le _ _ _ _ _ hconvert
  have hlen := List.length_pos_of_ne_nil hne
  rw [hcount'] at hle
  have hsize : ¬Resample.avSamplesGetBufferSize 1 output.length 1 < 0 :=
    not_lt.mpr (avSamplesGetBufferSize_nonneg (Or.inl rfl) (Or.inr rfl) (by omega) (by omega))
  have hvalid : (⟨1, Int32.ofNat 16000, .kWavFormatPcm, 2,
      Wav.toSizeT (Int32.ofNat ((2 * of.frames.length + 2) / 3))⟩ : WavParameters).Valid := by
    have hsilent : (⟨1, 16000, .kWavFormatPcm, 2, 0⟩ : WavParameters).Valid :=
      (WavParameters.check_iff _).mp (by decide)
    rw [toSizeT_ofNat (by omega) (by omega)]
    exact hsilent.with_samples (show _ * 2 + 36 ≤ Wav.uint32Max by
      simp only [Wav.uint32Max]; omega) (one_dvd _)
  have hheader := (Wav.writeWavHeader_eq_some_iff _ _).mpr ⟨hvalid, rfl⟩
  have hstereo : ¬((48000 : Int32) = 0 ∨ 2 = 0 ∨ 2 * of.frames.length = 0) := by
    rintro (hrate | hzero | hzero)
    · exact absurd hrate (by decide)
    · omega
    · omega
  unfold resample
  rw [hopen]
  dsimp only
  rw [if_pos rfl, if_neg hstereo, hff.swr_alloc, if_neg (by simp),
    if_neg (not_lt.mpr (hff.swr_init)), hcount,
    if_neg (avSamplesAlloc_works hff (Or.inr Nat.cast_ofNat) (by omega) (by omega)), hdst, hcount',
    if_neg (avSamplesAlloc_works hff (Or.inl rfl) (by omega) (by omega)), hread,
    if_neg (by omega), hconvert]
  dsimp only
  unfold Resample.writeOutput
  rw [if_neg hsize]
  dsimp only
  rw [hheader]
  have hwritten (bytes bytes' : List UInt8) :
      ((Stream.opened.write dev bytes).write dev bytes').failed = false :=
    Stream.write_failed_iff.mpr
      ⟨Stream.write_failed_iff.mpr ⟨rfl, hdev.takes_all _⟩, hdev.takes_all _⟩
  dsimp only
  rw [hwritten]
  rfl

/-- A decoding that opened its output leaves a file there. -/
theorem opusDecode_wav_file (dev : Device) (of : OggOpusFile) :
    ∃ file, (Opus.opusDecode (some dev) (some of)).wav_file = some file := by
  unfold Opus.opusDecode Opus.decodeOpened Opus.rewriteHeader
  dsimp only
  repeat' split
  all_goals exact ⟨_, rfl⟩

section Run

variable {S : Type} {env : Environment S}

/-- What a decoding of a file by name that returns true did. -/
theorem opusDecodeFile_true {stage : ℕ} {w : World} {input_filename output_filename : Path}
    (hne : input_filename ≠ output_filename)
    (h : (opusDecodeFile env stage w input_filename output_filename).2 = some true) :
    ∃ dev of file, env.output stage output_filename = some dev ∧
      (w.files input_filename).bind env.op_open_file = some of ∧
      Opus.opusDecode (some dev) (some of) = { wav_file := some file, ret := some true } ∧
      (opusDecodeFile env stage w input_filename output_filename).1.files output_filename =
        some file := by
  unfold opusDecodeFile at h ⊢
  cases hout : env.output stage output_filename with
  | none => simp [hout] at h
  | some dev =>
    have hread : ((w.write output_filename []).read input_filename).files input_filename =
        w.files input_filename := if_neg hne
    simp only [hout, hread] at h ⊢
    cases hof : (w.files input_filename).bind env.op_open_file with
    | none =>
      rw [hof] at h
      cases h
    | some of =>
      rw [hof] at h
      obtain ⟨file, hfile⟩ := opusDecode_wav_file dev of
      refine ⟨dev, of, file, rfl, rfl, ?_, ?_⟩
      · cases hdecode : Opus.opusDecode (some dev) (some of)
        simp_all
      · rw [World.write_files_self, hfile]
        rfl

/-- A resampling that returns true converted its input and wrote an output. -/
theorem resample_ret_true {ff : FFmpeg} {file : List UInt8} {out_file : Option Device} {rate : ℕ}
    (h : (resample ff (some file) out_file rate 1).ret = some true) :
    ∃ dev swr out, out_file = some dev ∧ resample ff (some file) out_file rate 1 =
      { swr := some swr, wav_file := some out, ret := some true } := by
  unfold resample at h ⊢
  cases hopen : WavReader.open (some file) with
  | none => simp [hopen] at h
  | some reader =>
    simp only [hopen] at h ⊢
    generalize (if reader.num_channels_ = 2 then 2 else 1 : ℕ) = channels at h ⊢
    split_ifs at h ⊢
    all_goals try cases h
    split at h
    · cases h
    · unfold Resample.writeOutput at h ⊢
      split_ifs at h ⊢
      · cases h
      · cases out_file with
        | none => cases h
        | some dev =>
          dsimp only at h ⊢
          split at h
          · cases h
          · dsimp only at h ⊢
            exact ⟨dev, _, _, rfl, by rw [h]⟩

/-- What a resampling of a file by name that returns true did. -/
theorem resampleFile_true {stage : ℕ} {w : World} {in_file out_file : Path} {file : List UInt8}
    (hfile : w.files in_file = some file) {rate : ℕ}
    (h : (resampleFile env stage w in_file out_file rate 1).2 = some true) :
    ∃ dev swr out, env.output stage out_file = some dev ∧
      resample (env.ffmpeg stage) (some file) (some dev) rate 1 =
        { swr := some swr, wav_file := some out, ret := some true } ∧
      (resampleFile env stage w in_file out_file rate 1).1.files out_file = some out := by
  have hret : (resample (env.ffmpeg stage) (some file) (env.output stage out_file) rate 1).ret =
      some true := by
    unfold resampleFile at h
    dsimp only [World.read_files] at h
    rw [hfile] at h
    split at h <;> exact h
  obtain ⟨dev, swr, out, hdev, hresample⟩ := resample_ret_true hret
  refine ⟨dev, swr, out, hdev, by rw [← hdev, hresample], ?_⟩
  unfold resampleFile
  dsimp only [World.read_files]
  rw [hfile, hresample]
  exact World.write_files_self _ _ _

/-- An input whose stages both succeed, on outputs that lose nothing when they are closed, is
measured by what is converted from the Opus file that it has. -/
theorem monoCall_converted {stage : ℕ} {w : World} {input : Path}
    (houtput : ∀ stage path dev, env.output stage path = some dev → dev.unflushed = 0)
    (hsucceeded : (monoCall env stage w input).2.Succeeded) :
    ∃ of samples, (w.files input).bind env.op_open_file = some of ∧
      ConvertedFrom (env.ffmpeg (stage + 1)) of samples ∧
      (monoCall env stage w input).1.files (monoName input) =
        some ((resampledHeader samples.length).toBytes ++ memBytes samples) := by
  rcases monoCall_cases env stage w input with
    ⟨-, hcall⟩ | ⟨-, hcall⟩ | ⟨-, -, hcall⟩ | ⟨-, -, hcall⟩ | ⟨hdecode, hresample, hcall⟩
  · rw [hcall] at hsucceeded
    cases hsucceeded.1
  · rw [hcall] at hsucceeded
    cases hsucceeded.1
  · rw [hcall] at hsucceeded
    cases hsucceeded.2
  · rw [hcall] at hsucceeded
    cases hsucceeded.2
  · obtain ⟨dev, of, file, hdev, hof, hdecoded, hfile⟩ :=
      opusDecodeFile_true (ne_tmpName input) hdecode
    obtain ⟨dev', swr, out, hdev', hresampled, hout⟩ := resampleFile_true hfile hresample
    obtain ⟨samples, hconverted, hsamples⟩ := convertedFrom hdecoded (houtput _ _ _ hdev)
      hresampled (houtput _ _ _ hdev')
    refine ⟨of, samples, hof, hconverted, ?_⟩
    rw [hcall, ← hsamples, ← hout]
    exact if_neg (tmpName_ne_monoName input input).symm

/-- An input that declares its frames, and is not shorter than an eighth of a second, succeeds in
both stages on reliable outputs, in a library that works. -/
theorem monoCall_succeeds {stage : ℕ} {w : World} {input : Path} {of : OggOpusFile}
    (hof : (w.files input).bind env.op_open_file = some of) (h : Declares of)
    (hlong : 6000 ≤ of.frames.length)
    (houtput : ∀ stage path, ∃ dev, env.output stage path = some dev ∧ Reliable dev)
    (hff : ∀ stage, Works (env.ffmpeg stage)) :
    (monoCall env stage w input).2.Succeeded := by
  obtain ⟨dev, hdev, hreliable⟩ := houtput stage (tmpName input)
  obtain ⟨dev', hdev', hreliable'⟩ := houtput (stage + 1) (monoName input)
  obtain ⟨file, hdecode, hheader⟩ := h.opusDecode hreliable
  have hread : ((w.write (tmpName input) []).read input).files input = w.files input :=
    if_neg (ne_tmpName input)
  have hdecoded : opusDecodeFile env stage w input (tmpName input) =
      (((w.write (tmpName input) []).read input).write (tmpName input) file, some true) := by
    unfold opusDecodeFile
    simp only [hdev, hread, hof, hdecode, Option.getD_some]
  have hfile : (opusDecodeFile env stage w input (tmpName input)).1.files (tmpName input) =
      some file := by
    rw [hdecoded]
    exact World.write_files_self _ _ _
  have hresampled : (resampleFile env (stage + 1)
      (opusDecodeFile env stage w input (tmpName input)).1 (tmpName input) (monoName input)
      16000 1).2 = some true := by
    have hret := resample_works (hff (stage + 1)) h hlong hreliable'
      (WavReader.open_of_header hheader)
    unfold resampleFile
    dsimp only [World.read_files]
    rw [hfile, hdev']
    split <;> exact hret
  rcases monoCall_cases env stage w input with
    ⟨hcase, -⟩ | ⟨hcase, -⟩ | ⟨-, hcase, -⟩ | ⟨-, hcase, -⟩ | ⟨-, -, hcall⟩
  · rw [hdecoded] at hcase
    cases hcase
  · rw [hdecoded] at hcase
    cases hcase
  · exact absurd (hcase.symm.trans hresampled) (by decide)
  · exact absurd (hcase.symm.trans hresampled) (by decide)
  · rw [hcall]
    exact ⟨rfl, rfl⟩

end Run

end TgVoipRate.Pipeline
