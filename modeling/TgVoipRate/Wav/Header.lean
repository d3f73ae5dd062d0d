import TgVoipRate.Lib.LittleEndian

/-!
# The WAV header

`wav_file/wav_header.cc`: the check of the five parameters of a WAV file, the writer of the 44-byte
header, and its reader. A `size_t` is a natural number here and an `int` an `Int32`, and the
narrowing casts of the source are the conversions to `UInt16` and `UInt32`. The products of the
source are taken modulo `2^64` before they are narrowed; since a field's modulus divides `2^64`,
`UInt16.ofNat` and `UInt32.ofNat` of the exact product are the same fields.

The reader takes its bytes from a `ReadableWav`, which may return fewer bytes than were asked for.
A failed `RTC_CHECK` ends the process: `writeWavHeader` is `none` there.
-/

namespace TgVoipRate.Wav

open LittleEndian (encode decode)

/-- The size of the header in bytes. -/
def kWavHeaderSize : ℕ := 44

/-- The formats of the source's enumeration. The reader casts a 16-bit field to it, so a value may
also be a code without a name. -/
inductive WavFormat
  /-- PCM, each sample of `bytes_per_sample` bytes. -/
  | kWavFormatPcm
  /-- 8-bit A-law. -/
  | kWavFormatALaw
  /-- 8-bit mu-law. -/
  | kWavFormatMuLaw
  /-- A code that the enumeration does not name. -/
  | other (code : UInt16)
  deriving DecidableEq, Repr

/-- The 16-bit code of a format. -/
def WavFormat.code : WavFormat → UInt16
  | .kWavFormatPcm => 1
  | .kWavFormatALaw => 6
  | .kWavFormatMuLaw => 7
  | .other code => code

/-- The cast of a 16-bit code to a format. -/
def WavFormat.ofCode (code : UInt16) : WavFormat :=
  if code = 1 then .kWavFormatPcm
  else if code = 6 then .kWavFormatALaw
  else if code = 7 then .kWavFormatMuLaw
  else .other code

/-- The five parameters that the header carries. -/
structure WavParameters where
  /-- The number of interleaved channels. -/
  num_channels : ℕ
  /-- The sample rate. -/
  sample_rate : Int32
  /-- The sample format. -/
  format : WavFormat
  /-- The size of one sample. -/
  bytes_per_sample : ℕ
  /-- The number of samples. `wav_header.h` documents it as the total over all channels. -/
  num_samples : ℕ
  deriving DecidableEq, Repr

/-- The largest `uint16_t`. -/
def uint16Max : ℕ := 2^16 - 1

/-- The largest `uint32_t`. -/
def uint32Max : ℕ := 2^32 - 1

/-- The conversion of an `int` to `size_t` or `uint64_t`. -/
def toSizeT (x : Int32) : ℕ := (x.toInt % 2^64).toNat

/-- The size of a `ChunkHeader`. -/
def chunkHeaderSize : ℕ := 8

/-- Whether the parameters make a well-formed header. -/
def checkWavParameters (num_channels : ℕ) (sample_rate : Int32) (format : WavFormat)
    (bytes_per_sample num_samples : ℕ) : Bool :=
  if num_channels = 0 ∨ sample_rate ≤ 0 ∨ bytes_per_sample = 0 then false
  else if toSizeT sample_rate > uint32Max then false
  else if num_channels > uint16Max then false
  else if bytes_per_sample * 8 % 2^64 > uint16Max then false
  else if toSizeT sample_rate * num_channels % 2^64 * bytes_per_sample % 2^64 > uint32Max then false
  else if !formatAllows format bytes_per_sample then false
  else
    let header_size := kWavHeaderSize - chunkHeaderSize
    let max_samples := (uint32Max - header_size) / bytes_per_sample
    if num_samples > max_samples then false
    else if num_samples % num_channels ≠ 0 then false
    else true
where
  /-- The `switch` on the format: it and `bytes_per_sample` must agree. -/
  formatAllows (format : WavFormat) (bytes_per_sample : ℕ) : Bool :=
    match format with
    | .kWavFormatPcm => bytes_per_sample = 1 ∨ bytes_per_sample = 2
    | .kWavFormatALaw | .kWavFormatMuLaw => bytes_per_sample = 1
    | .other _ => false

/-- The check on the parameters as one record. -/
def WavParameters.check (p : WavParameters) : Bool :=
  checkWavParameters p.num_channels p.sample_rate p.format p.bytes_per_sample p.num_samples

/-! ## The layout -/

/-- The identifier and the size that start a chunk. -/
structure ChunkHeader where
  ID : UInt32
  Size : UInt32
  deriving DecidableEq, Repr

/-- The RIFF chunk: its header and its form. -/
structure RiffChunk where
  header : ChunkHeader
  Format : UInt32
  deriving DecidableEq, Repr

/-- The format subchunk. -/
structure FmtSubchunk where
  header : ChunkHeader
  AudioFormat : UInt16
  NumChannels : UInt16
  SampleRate : UInt32
  ByteRate : UInt32
  BlockAlign : UInt16
  BitsPerSample : UInt16
  deriving DecidableEq, Repr

/-- The start of the data subchunk. -/
structure DataSubchunk where
  header : ChunkHeader
  deriving DecidableEq, Repr

/-- The 44 bytes of a header, as their fields. -/
structure WavHeader where
  riff : RiffChunk
  fmt : FmtSubchunk
  data : DataSubchunk
  deriving DecidableEq, Repr

/-- The payload size of the format subchunk, without its header. -/
def kFmtSubchunkSize : ℕ := 16

/-- The bytes of a chunk header in memory. -/
def ChunkHeader.toBytes (h : ChunkHeader) : List UInt8 :=
  encode 4 h.ID.toNat ++ encode 4 h.Size.toNat

/-- The bytes of the RIFF and format chunks, all of the header but the data subchunk. -/
def WavHeader.frontBytes (h : WavHeader) : List UInt8 :=
  h.riff.header.toBytes ++ encode 4 h.riff.Format.toNat ++ h.fmt.header.toBytes ++
    encode 2 h.fmt.AudioFormat.toNat ++ encode 2 h.fmt.NumChannels.toNat ++
    encode 4 h.fmt.SampleRate.toNat ++ encode 4 h.fmt.ByteRate.toNat ++
    encode 2 h.fmt.BlockAlign.toNat ++ encode 2 h.fmt.BitsPerSample.toNat

/-- The bytes of a header in memory, which `memcpy` copies. -/
def WavHeader.toBytes (h : WavHeader) : List UInt8 := h.frontBytes ++ h.data.header.toBytes

/-- The 32-bit field at an offset. -/
def field32 (bs : List UInt8) (offset : ℕ) : UInt32 :=
  UInt32.ofNat (decode ((bs.drop offset).take 4))

/-- The 16-bit field at an offset. -/
def field16 (bs : List UInt8) (offset : ℕ) : UInt16 :=
  UInt16.ofNat (decode ((bs.drop offset).take 2))

/-- The header struct after its two parts were read into it. -/
def WavHeader.ofBytes (front data : List UInt8) : WavHeader where
  riff :=
    { header := { ID := field32 front 0, Size := field32 front 4 }
      Format := field32 front 8 }
  fmt :=
    { header := { ID := field32 front 12, Size := field32 front 16 }
      AudioFormat := field16 front 20
      NumChannels := field16 front 22
      SampleRate := field32 front 24
      ByteRate := field32 front 28
      BlockAlign := field16 front 32
      BitsPerSample := field16 front 34 }
  data := { header := { ID := field32 data 0, Size := field32 data 4 } }

/-- The four characters that an identifier is made of, as bytes. -/
def fourCC (s : String) : List UInt8 := s.toList.map fun c => UInt8.ofNat c.toNat

/-- The identifier of four characters. -/
def writeFourCC (a b c d : Char) : UInt32 :=
  a.val ||| b.val <<< 8 ||| c.val <<< 16 ||| d.val <<< 24

/-- The four characters of an identifier. -/
def readFourCC (x : UInt32) : List UInt8 := encode 4 x.toNat

/-! ## The writer -/

/-- The size field of the RIFF chunk. -/
def riffChunkSize (bytes_in_payload : ℕ) : UInt32 :=
  UInt32.ofNat (bytes_in_payload + kWavHeaderSize - chunkHeaderSize)

/-- The byte rate field. -/
def byteRate (num_channels : ℕ) (sample_rate : Int32) (bytes_per_sample : ℕ) : UInt32 :=
  UInt32.ofNat (num_channels * toSizeT sample_rate * bytes_per_sample)

/-- The block alignment field. -/
def blockAlign (num_channels bytes_per_sample : ℕ) : UInt16 :=
  UInt16.ofNat (num_channels * bytes_per_sample)

/-- The payload size that the writer computes from its parameters. -/
def WavParameters.bytesInPayload (p : WavParameters) : ℕ :=
  p.num_channels * p.bytes_per_sample * p.num_samples

/-- The header struct that the writer fills in. -/
def WavParameters.header (p : WavParameters) : WavHeader where
  riff :=
    { header := { ID := writeFourCC 'R' 'I' 'F' 'F', Size := riffChunkSize p.bytesInPayload }
      Format := writeFourCC 'W' 'A' 'V' 'E' }
  fmt :=
    { header := { ID := writeFourCC 'f' 'm' 't' ' ', Size := UInt32.ofNat kFmtSubchunkSize }
      AudioFormat := p.format.code
      NumChannels := UInt16.ofNat p.num_channels
      SampleRate := p.sample_rate.toUInt32
      ByteRate := byteRate p.num_channels p.sample_rate p.bytes_per_sample
      BlockAlign := blockAlign p.num_channels p.bytes_per_sample
      BitsPerSample := UInt16.ofNat (8 * p.bytes_per_sample) }
  data := { header := { ID := writeFourCC 'd' 'a' 't' 'a', Size := UInt32.ofNat p.bytesInPayload } }

/-- Writes the header of parameters that pass the check; other parameters end the process. -/
def writeWavHeader (p : WavParameters) : Option (List UInt8) :=
  if p.check then some p.header.toBytes else none

/-! ## The reader -/

/-- A source of bytes: `Read` asks for a number of bytes and gets at most as many. -/
structure ReadableWav (σ : Type) where
  /-- The bytes read and the state of the source after them. -/
  Read : σ → ℕ → List UInt8 × σ

/-- A source that holds its bytes, such as a file that is read sequentially with `fread`. -/
def byteSource : ReadableWav (List UInt8) where
  Read bs num_bytes := (bs.take num_bytes, bs.drop num_bytes)

/-- The optional extension of the format subchunk: two bytes, present when the subchunk's size says
so, which must be zero. -/
def readFmtExtension {σ : Type} (readable : ReadableWav σ) (fmt_size : ℕ) (s : σ) : Option σ :=
  if fmt_size ≠ kFmtSubchunkSize then
    if kFmtSubchunkSize + 2 ≠ fmt_size then none
    else
      let (ext_size, s) := readable.Read s 2
      if ext_size.length ≠ 2 then none
      else if decode ext_size ≠ 0 then none
      else some s
  else some s

/-- The part of the reader after its reads: the parameters of a header, if its fields agree. -/
def WavHeader.parse (header : WavHeader) : Option WavParameters :=
  let format := WavFormat.ofCode header.fmt.AudioFormat
  let num_channels := header.fmt.NumChannels.toNat
  let sample_rate := header.fmt.SampleRate.toInt32
  let bytes_per_sample := header.fmt.BitsPerSample.toNat / 8
  let bytes_in_payload := header.data.header.Size.toNat
  if bytes_per_sample = 0 then none
  else
    let num_samples := bytes_in_payload / bytes_per_sample
    if readFourCC header.riff.header.ID ≠ fourCC "RIFF" then none
    else if readFourCC header.riff.Format ≠ fourCC "WAVE" then none
    else if readFourCC header.fmt.header.ID ≠ fourCC "fmt " then none
    else if readFourCC header.data.header.ID ≠ fourCC "data" then none
    else if header.riff.header.Size < riffChunkSize bytes_in_payload then none
    else if header.fmt.ByteRate ≠ byteRate num_channels sample_rate bytes_per_sample then none
    else if header.fmt.BlockAlign ≠ blockAlign num_channels bytes_per_sample then none
    else if checkWavParameters num_channels sample_rate format bytes_per_sample num_samples then
      some ⟨num_channels, sample_rate, format, bytes_per_sample, num_samples⟩
    else none

/-- Reads a header: its parameters and the source after it, or `none` where the source's function
returns false. -/
def readWavHeader {σ : Type} (readable : ReadableWav σ) (s : σ) : Option (WavParameters × σ) :=
  let (front, s) := readable.Read s (kWavHeaderSize - chunkHeaderSize)
  if front.length ≠ kWavHeaderSize - chunkHeaderSize then none
  else
    match readFmtExtension readable (field32 front 16).toNat s with
    | none => none
    | some s =>
      let (data, s) := readable.Read s chunkHeaderSize
      if data.length ≠ chunkHeaderSize then none
      else
        match (WavHeader.ofBytes front data).parse with
        | none => none
        | some p => some (p, s)

end TgVoipRate.Wav
