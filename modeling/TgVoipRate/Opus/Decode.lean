import TgVoipRate.Lib.OutStream
import TgVoipRate.Wav.Header

/-!
# Decoding an Opus file to a WAV file

`opus_decode` of `opusfile_adapter.cc`. The header of the output is written first, from the duration
that the file declares, and rewritten at the end when another number of samples was decoded.

The library that reads the Opus file is its sequence of results of `op_read_stereo`: a positive
count comes with as many stereo frames, and after the last result it returns 0 for ever. The output
is a stream on a device that can fail. A failed `RTC_CHECK` in `WriteWavHeader` ends the process.
The messages of the source, and what it reads only to print it, are left out.
-/

namespace TgVoipRate.Opus

open OutStream (Device Stream)
open Wav (WavParameters writeWavHeader)

/-- A stereo frame: one sample of each channel. -/
abbrev Frame := Int16 × Int16

/-- The frames per call that the buffer of the source has room for: 120 ms at 48 kHz. -/
def maxFrames : ℕ := 120 * 48

/-- A positive result of `op_read_stereo`, with the frames that it stands for. -/
structure Chunk where
  frames : List Frame
  /-- The count is positive. -/
  frames_pos : 0 < frames.length
  /-- The frames fit the buffer. -/
  frames_le : frames.length ≤ maxFrames

/-- A result of `op_read_stereo` before the final 0. -/
inductive OpRead
  /-- `OP_HOLE`, which the source skips. -/
  | hole
  /-- Any other negative result. -/
  | error
  /-- A positive count, with the frames in the buffer. -/
  | samples (chunk : Chunk)

/-- An open Opus file. -/
structure OggOpusFile where
  /-- `op_seekable` -/
  seekable : Bool
  /-- `op_pcm_total` of the whole file. -/
  pcm_total : Int64
  /-- The results of `op_read_stereo` before it returns 0. -/
  reads : List OpRead

/-- The duration that the first header declares. -/
def OggOpusFile.declared (of : OggOpusFile) : Int64 := if of.seekable then of.pcm_total else 0

/-- The conversion of an `ogg_int64_t` to `size_t`. -/
def toSizeT (x : Int64) : ℕ := (x.toInt % 2^64).toNat

/-- The parameters that `make_wav_header` passes on: 16-bit PCM. -/
def wavParameters (duration_in_pcm_samples : ℕ) (sample_rate : Int32) (num_channels : ℕ) :
    WavParameters :=
  { num_channels, sample_rate, format := .kWavFormatPcm, bytes_per_sample := 2,
    num_samples := duration_in_pcm_samples }

/-- The header for a duration; `none` is a failed `RTC_CHECK`. -/
def makeWavHeader (duration_in_pcm_samples : ℕ) (sample_rate : Int32) (num_channels : ℕ) :
    Option (List UInt8) :=
  writeWavHeader (wavParameters duration_in_pcm_samples sample_rate num_channels)

/-- The two bytes of a sample that the conversion loop stores. -/
def sampleBytes (x : Int16) : List UInt8 :=
  [(x &&& 0xFF).toUInt16.toUInt8, ((x >>> 8) &&& 0xFF).toUInt16.toUInt8]

/-- The interleaved samples of frames. -/
def interleaved (frames : List Frame) : List Int16 := frames.flatMap fun f => [f.1, f.2]

/-- The bytes that are written for frames. -/
def pcmBytes (frames : List Frame) : List UInt8 := (interleaved frames).flatMap sampleBytes

/-- The state of the read loop: the output stream, the frames written so far, and the exit status
as the source's `ret` has it, which is zero after a successful open. -/
structure LoopState where
  wav_file : Stream
  total_samples_read : ℕ
  success : Bool

/-- The read loop. -/
def readLoop (dev : Device) : List OpRead → LoopState → LoopState
  | [], s => { s with success := true }
  | .hole :: reads, s => readLoop dev reads s
  | .error :: _, s => { s with success := false }
  | .samples chunk :: reads, s =>
    let wav_file := s.wav_file.write dev (pcmBytes chunk.frames)
    -- After a failed write the loop is left, and its frames are not counted.
    if wav_file.failed then { s with wav_file := wav_file, success := false }
    else
      readLoop dev reads
        { s with
          wav_file := wav_file
          total_samples_read := s.total_samples_read + chunk.frames.length }

/-- How a call ended: the file it left at the output path, if it opened one, and its result; no
result is a failed `RTC_CHECK`. -/
structure Outcome where
  wav_file : Option (List UInt8)
  ret : Option Bool
  deriving DecidableEq

/-- The end of `opus_decode` after its loop: the header is rewritten if the total differs from the
declared duration. The insertion takes the array of the header for a C string. -/
def rewriteHeader (dev : Device) (duration_in_samples : Int64) (s : LoopState) : Outcome :=
  if (s.total_samples_read : ℤ) ≠ duration_in_samples.toInt then
    match makeWavHeader s.total_samples_read 48000 2 with
    | none => { wav_file := some (s.wav_file.close dev), ret := none }
    | some wav_header =>
      let wav_file := (s.wav_file.seek dev 0).writeCString dev wav_header
      -- A failure of the loop is kept, but one of the stream comes first.
      { wav_file := some (wav_file.close dev)
        ret := some (if wav_file.failed then false else s.success) }
  else { wav_file := some (s.wav_file.close dev), ret := some s.success }

/-- `opus_decode` after both files were opened. -/
def decodeOpened (dev : Device) (of : OggOpusFile) : Outcome :=
  match makeWavHeader (toSizeT of.declared) 48000 2 with
  | none => { wav_file := some (Stream.opened.close dev), ret := none }
  | some wav_header =>
    let wav_file := Stream.opened.write dev wav_header
    rewriteHeader dev of.declared
      (readLoop dev of.reads { wav_file := wav_file, total_samples_read := 0, success := true })

/-- `opus_decode`, from the device of its output file and from its input file, each of which may
fail to open. The output file is opened first. -/
def opusDecode (wav_file : Option Device) (of : Option OggOpusFile) : Outcome :=
  match wav_file, of with
  | none, _ => { wav_file := none, ret := some false }
  | some dev, none => { wav_file := some (Stream.opened.close dev), ret := some false }
  | some dev, some of => decodeOpened dev of

end TgVoipRate.Opus
