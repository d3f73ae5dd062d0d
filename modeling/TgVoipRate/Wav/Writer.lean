import Mathlib.Algebra.Order.Floor.Ring
import Mathlib.Data.Rat.Floor
import TgVoipRate.Lib.OutStream
import TgVoipRate.Wav.ReaderCalls

/-!
# The WAV writer

`WavWriter` of `wav_file/wav_file.cc`. It writes a blank header, then samples in two variants, the
one for `float` in chunks and with a conversion, and when it is closed it goes back and writes the
header, which it only then knows the number of samples for. Every check that fails ends the process.

A file is a stream over a device that can fail (`OutStream`); a check of `fclose` fails if the
device loses something when the file is closed.
-/

namespace TgVoipRate.Wav

open OutStream (Device Stream)

/-! ## The conversion of samples -/

section Convert

variable {𝕜 : Type*} [Field 𝕜] [LinearOrder 𝕜] [FloorRing 𝕜]

/-- From here on, a sample is rounded to the largest one. -/
def kMaxRound : ℚ := 32767 - 0.5

/-- Up to here, a sample is rounded to the smallest one. -/
def kMinRound : ℚ := -32768 + 0.5

/-- `FloatS16ToS16`: rounds to the nearest sample. The conversion to `int16_t` truncates. -/
def FloatS16ToS16 (v : 𝕜) : Int16 :=
  if v > 0 then
    if v ≥ kMaxRound then Int16.maxValue else Int16.ofInt ⌊v + (0.5 : ℚ)⌋
  else if v ≤ kMinRound then Int16.minValue
  else Int16.ofInt ⌈v - (0.5 : ℚ)⌉

end Convert

/-! ## The writer -/

/-- An open writer, and the device under its file. -/
structure WavWriter where
  sample_rate_ : Int32
  /-- The number of interleaved channels. -/
  num_channels_ : ℕ
  /-- The number of samples written so far, over all channels. -/
  num_samples_ : ℕ
  file_handle_ : Stream
  device : Device

/-- Opens a writer, with a blank header in its file; none is a failed check. A file that could not
be created has no device. -/
def WavWriter.open (file : Option Device) (sample_rate : Int32) (num_channels : ℕ) :
    Option WavWriter :=
  match file with
  | none => none
  | some device =>
    if ¬checkWavParameters num_channels sample_rate .kWavFormatPcm 2 0 = true then none
    else
      let blank_header := List.replicate kWavHeaderSize 0
      let file_handle_ := Stream.opened.write device blank_header
      if file_handle_.failed then none
      else
        some
          { sample_rate_ := sample_rate
            num_channels_ := num_channels
            num_samples_ := 0
            file_handle_
            device }

/-- `WriteSamples` for `int16_t`. -/
def WavWriter.WriteSamples (w : WavWriter) (samples : List Int16) : Option WavWriter :=
  -- A write of nothing does not reach the device.
  let missing := if samples.length = 0 then 0 else w.device.missing w.file_handle_.ops
  let file_handle_ :=
    if samples.length = 0 then w.file_handle_
    else w.file_handle_.write w.device (memBytes samples)
  let written := (2 * samples.length - missing) / 2
  let num_samples_ := (w.num_samples_ + written) % 2^64
  if ¬samples.length = written then none
  else if ¬num_samples_ ≥ written then none
  else some { w with num_samples_, file_handle_ }

section Floats

variable {𝕜 : Type*} [Field 𝕜] [LinearOrder 𝕜] [FloorRing 𝕜]

/-- The loop over the chunks, from an entry of the buffer on. A request is at most as large as its
buffer, so that the entry does not wrap. -/
def writeFloats (samples : List 𝕜) (i : ℕ) (w : WavWriter) : Option WavWriter :=
  if i < samples.length then
    let isamples := ((samples.drop i).take kChunksize).map FloatS16ToS16
    match w.WriteSamples isamples with
    | none => none
    | some w => writeFloats samples (i + kChunksize) w
  else some w
termination_by samples.length - i
decreasing_by
  unfold kChunksize
  omega

/-- `WriteSamples` for `float`. -/
def WavWriter.WriteFloatSamples (w : WavWriter) (samples : List 𝕜) : Option WavWriter :=
  writeFloats samples 0 w

/-- A call of one of the variants. -/
inductive Write (𝕜 : Type*) where
  | int16 (samples : List Int16)
  | float (samples : List 𝕜)

/-- One call. -/
def WavWriter.write (w : WavWriter) : Write 𝕜 → Option WavWriter
  | .int16 samples => w.WriteSamples samples
  | .float samples => w.WriteFloatSamples samples

/-- One call after the other; none where a check fails. -/
def WavWriter.writeAll : List (Write 𝕜) → WavWriter → Option WavWriter
  | [], w => some w
  | call :: calls, w =>
    match w.write call with
    | none => none
    | some w => writeAll calls w

end Floats

/-- What the header is written from. -/
def WavWriter.parameters (w : WavWriter) : WavParameters :=
  ⟨w.num_channels_, w.sample_rate_, .kWavFormatPcm, 2, w.num_samples_⟩

/-- `Close`: goes back and writes the header; the file that is left, or none where a check fails. -/
def WavWriter.Close (w : WavWriter) : Option (List UInt8) :=
  let file_handle_ := w.file_handle_.seek w.device 0
  if file_handle_.failed then none
  else
    match writeWavHeader w.parameters with
    | none => none
    | some header =>
      let file_handle_ := file_handle_.write w.device header
      if file_handle_.failed then none
      else if ¬w.device.unflushed = 0 then none
      else some (file_handle_.close w.device)

end TgVoipRate.Wav
