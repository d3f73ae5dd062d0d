import TgVoipRate.Lib.OutStream
import TgVoipRate.Wav.Reader

/-!
# Resampling a WAV file

`resample` of `resampler.cc`, with the functions of the sample library that size its buffers. The
resampler itself, the memory it needs and its initialisation are given by an `FFmpeg`.

Three counts meet here: `num_samples` of the reader counts the values of all channels, `swr_convert`
takes and returns samples per channel, and the written header declares the size of the output
buffer.
-/

namespace TgVoipRate.Resample

open OutStream (Device Stream)
open Wav (WavParameters WavReader writeWavHeader memBytes)

/-! ## Buffer sizes -/

/-- The largest `int`. -/
def intMax : ℤ := 2^31 - 1

/-- `AVERROR(EINVAL)` -/
def averrorEinval : ℤ := -22

/-- `AVERROR(ENOMEM)` -/
def averrorEnomem : ℤ := -12

/-- `FFALIGN`: rounds up to a multiple. -/
def ffAlign (x a : ℤ) : ℤ := (x + a - 1) / a * a

/-- The size of a buffer of interleaved 16-bit samples, or an error. -/
def avSamplesGetBufferSize (nb_channels nb_samples align : ℤ) : ℤ :=
  if nb_samples ≤ 0 ∨ nb_channels ≤ 0 then averrorEinval
  else if align = 0 then
    if nb_samples > intMax - 31 then averrorEinval
    else lineSize (ffAlign nb_samples 32) 1
  else lineSize nb_samples align
where
  /-- The part after the alignment was selected. -/
  lineSize (nb_samples align : ℤ) : ℤ :=
    if nb_channels > intMax / align ∨ nb_channels * nb_samples > (intMax - align * nb_channels) / 2
    then averrorEinval
    else ffAlign (nb_samples * 2 * nb_channels) align

/-- The smallest `int64_t`, which `av_rescale_rnd` returns for arguments it cannot rescale. -/
def int64Min : ℤ := -2^63

/-- `av_rescale_rnd` with `AV_ROUND_UP`: the quotient rounded up. -/
def avRescaleRndUp (a b c : ℤ) : ℤ :=
  let q := (a * b + (c - 1)) / c
  if c ≤ 0 ∨ b < 0 ∨ q ≥ 2^63 then int64Min else q

/-! ## The library -/

/-- What the source calls of FFmpeg: whether a context and memory can be had, and the results of
the initialisation and of the conversion. -/
structure FFmpeg where
  /-- Whether `swr_alloc` returns a context. -/
  swr_alloc : Bool
  /-- `swr_init` on the number of input channels, the input rate and the output rate. -/
  swr_init : ℕ → Int32 → ℕ → ℤ
  /-- Whether `av_malloc` returns memory of a size. -/
  av_malloc : ℤ → Bool
  /-- `swr_convert` on the number of input channels, the input buffer, `in_count` and `out_count`:
  the samples produced, as many as its return value says, or none for an error. -/
  swr_convert : ℕ → List Int16 → Int32 → Int32 → Option (List Int16)
  /-- No more samples are produced than the output buffer has room for. -/
  swr_convert_le : ∀ channels input in_count out_count output,
    swr_convert channels input in_count out_count = some output →
      (output.length : ℤ) ≤ out_count.toInt

/-- `av_samples_alloc_array_and_samples` for interleaved samples: the size of the buffer, which is
filled with silence, or an error. -/
def FFmpeg.avSamplesAlloc (ff : FFmpeg) (nb_channels nb_samples : ℤ) : ℤ :=
  let size := avSamplesGetBufferSize nb_channels nb_samples 0
  if size < 0 then size else if ff.av_malloc size then size else averrorEnomem

/-! ## The function -/

/-- What a call of `swr_convert` was given and what it produced. -/
structure Conversion where
  /-- The number of input samples it was told of. -/
  in_count : Int32
  /-- The samples that it reported. -/
  produced : List Int16
  deriving DecidableEq

/-- How a call ended: the conversion it made and the file it left at the output path, if any, and
its result; no result is a failed `RTC_CHECK`. -/
structure Outcome where
  swr : Option Conversion
  wav_file : Option (List UInt8)
  ret : Option Bool
  deriving DecidableEq

/-- The part of `resample` after the conversion: the output buffer, which holds the samples produced
and silence after them, is written behind a header. -/
def writeOutput (out_file : Option Device) (out_sample_rate out_channels : ℕ)
    (dst_nb_samples : Int32) (swr : Conversion) : Outcome :=
  if avSamplesGetBufferSize 1 swr.produced.length 1 < 0 then
    { swr := some swr, wav_file := none, ret := some false }
  else
    -- The output file is opened behind the conversion, and is left empty by a failed check.
    match out_file with
    | none => { swr := some swr, wav_file := none, ret := some false }
    | some dev =>
      match writeWavHeader
          { num_channels := out_channels, sample_rate := Int32.ofNat out_sample_rate,
            format := .kWavFormatPcm, bytes_per_sample := 2,
            num_samples := Wav.toSizeT dst_nb_samples } with
      | none => { swr := some swr, wav_file := some (Stream.opened.close dev), ret := none }
      | some wav_header =>
        -- The whole buffer is written, whatever part of it was filled.
        let dst_data := swr.produced.takeD (Wav.toSizeT dst_nb_samples) 0
        let wav_file := (Stream.opened.write dev wav_header).write dev (memBytes dst_data)
        { swr := some swr, wav_file := some (wav_file.close dev), ret := some !wav_file.failed }

/-- `resample`, from the content of its input file and the device of its output file, each of which
may fail to open. -/
def resample (ff : FFmpeg) (in_file : Option (List UInt8)) (out_file : Option Device)
    (out_sample_rate out_channels : ℕ) : Outcome :=
  match WavReader.open in_file with
  | none => { swr := none, wav_file := none, ret := none }
  | some wav_reader =>
    let failure : Outcome := { swr := none, wav_file := none, ret := some false }
    let src_nb_samples := wav_reader.num_samples_
    let in_sample_rate := wav_reader.sample_rate_
    let src_nb_channels := if wav_reader.num_channels_ = 2 then 2 else 1
    if in_sample_rate = 0 ∨ wav_reader.num_channels_ = 0 ∨ src_nb_samples = 0 then failure
    else if !ff.swr_alloc then failure
    else if ff.swr_init src_nb_channels in_sample_rate out_sample_rate < 0 then failure
    else if ff.avSamplesAlloc src_nb_channels (Int32.ofNat src_nb_samples).toInt < 0 then failure
    else
      let dst_nb_samples := Int32.ofInt
        (avRescaleRndUp src_nb_samples (Int64.ofNat out_sample_rate).toInt in_sample_rate.toInt)
      if ff.avSamplesAlloc 1 dst_nb_samples.toInt < 0 then failure
      else
        let src_data := (wav_reader.ReadSamples src_nb_samples).1
        if src_data.length ≠ src_nb_samples ∨ src_data.length = 0 then failure
        else
          -- The input buffer has room for as many samples in each channel.
          let input := src_data.takeD (src_nb_channels * src_nb_samples) 0
          match ff.swr_convert src_nb_channels input
            (Int32.ofNat src_nb_samples) dst_nb_samples with
          | none => failure
          | some produced =>
            writeOutput out_file out_sample_rate out_channels dst_nb_samples
              { in_count := Int32.ofNat src_nb_samples, produced := produced }

end TgVoipRate.Resample
