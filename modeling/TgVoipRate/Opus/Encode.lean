import TgVoipRate.Lib.OutStream
import TgVoipRate.Wav.ReaderCalls

/-!
# Encoding a WAV file to Opus packets

`opus_encode` of `opusfile_adapter.cc`. It reads the file in frames of 480 samples into a buffer
that is declared in the body of its loop and never initialised, converts the whole buffer, and
writes the packets of the encoder one after the other.

The Opus encoder is a state with its three operations, each of which can report an error. The output
is a stream on a device that can fail, or no stream where the file could not be opened, which the
source only prints a message about. What the memory of the buffer holds before a read is a parameter
(`stale`). An outcome also records the calls of the encoder, which the source does not keep.
-/

namespace TgVoipRate.Opus

open OutStream (Device Stream)
open Wav (FileReader)

/-- The samples in a frame. -/
def FRAME_SIZE : ℕ := 480

/-- The bytes that the buffer for a packet has room for. -/
def MAX_PACKET_SIZE : ℕ := 3 * 1276

/-- The exit status of a failure, in C. -/
def EXIT_FAILURE : ℕ := 1

/-- A packet of the encoder. -/
structure Packet where
  bytes : List UInt8
  /-- A packet has at least its first byte, which describes it. -/
  bytes_pos : 0 < bytes.length
  /-- The packet fits the buffer. -/
  bytes_le : bytes.length ≤ MAX_PACKET_SIZE

/-- The operations of the encoder; none is a negative result. -/
structure OpusEncoder (σ : Type) where
  /-- `opus_encoder_create` -/
  create : Option σ
  /-- `opus_encoder_ctl` with `OPUS_SET_BITRATE` -/
  set_bitrate : σ → Option σ
  /-- `opus_encode` of a frame -/
  encode : σ → List Int16 → Option (Packet × σ)

/-! ## A frame -/

/-- The buffer after a read: the bytes that were read, and behind them what the memory held. -/
def pcmBuffer (bytes : List UInt8) (stale : ℕ → UInt8) (i : ℕ) : UInt8 :=
  bytes[i]?.getD (stale i)

/-- A sample from its two bytes in the buffer. -/
def inSample (pcm_bytes : ℕ → UInt8) (i : ℕ) : Int16 :=
  (UInt16.ofNat
    ((pcm_bytes (2 * i + 1)).toNat <<< 8 ||| (pcm_bytes (2 * i)).toNat <<< 0)).toInt16

/-- The conversion of the buffer, up to an entry of the frame. -/
def convert (pcm_bytes : ℕ → UInt8) : ℕ → (ℕ → Int16) → ℕ → Int16
  | 0, in_ => in_
  | i + 1, in_ => Function.update (convert pcm_bytes i in_) i (inSample pcm_bytes i)

/-- The frame that the encoder is given. -/
def frame (in_ : ℕ → Int16) : List Int16 := (List.range FRAME_SIZE).map in_

/-- The bytes that a call of `ReadSamples` puts in the buffer: a half sample at the end of the file
is one of them. -/
def bytesRead (wav_reader : FileReader) (num_samples : ℕ) : List UInt8 :=
  wav_reader.file_handle_.take (2 * min num_samples wav_reader.num_samples_remaining_)

/-! ## The loop -/

/-- The encoder, the output stream, and the calls of the encoder so far: the frames it was given and
the packets it returned. -/
structure EncodeState (σ : Type) where
  encoder : σ
  encoded_file : Stream
  frames : List (List Int16)
  packets : List Packet

/-- Writes to the output, which is ignored where the file is not open. -/
def writePacket (encoded_file : Option Device) (s : Stream) (cbits : List UInt8) : Stream :=
  match encoded_file with
  | none => s
  | some dev => s.write dev cbits

variable {σ : Type}

/-- The state after a frame was encoded. -/
def EncodeState.encoded (encoded_file : Option Device) (s : EncodeState σ) (frame : List Int16)
    (packet : Packet) (encoder : σ) : EncodeState σ :=
  { encoder
    encoded_file := writePacket encoded_file s.encoded_file packet.bytes
    frames := s.frames ++ [frame]
    packets := s.packets ++ [packet] }

/-- A call that reads samples leaves fewer of them to read. -/
theorem remaining_lt_of_ReadSamples {r r' : FileReader} {num_samples : ℕ} {samples : List Int16}
    (h : r.ReadSamples num_samples = some (samples, r')) (hread : samples.length ≠ 0) :
    r'.num_samples_remaining_ < r.num_samples_remaining_ := by
  rw [FileReader.ReadSamples_eq, Option.some.injEq, Prod.mk.injEq] at h
  obtain ⟨rfl, rfl⟩ := h
  have hremaining := r.afterRead_remaining num_samples
  have hlength := r.rest_length
  rw [List.length_take] at hread hremaining
  omega

/-- The loop over the frames, from the number of a frame on. It is left by its `break` with true,
and by the `return` in it with false; none is a failed check. -/
def encodeLoop (enc : OpusEncoder σ) (encoded_file : Option Device) (stale : ℕ → ℕ → UInt8) (k : ℕ)
    (wav_reader : FileReader) (in_ : ℕ → Int16) (s : EncodeState σ) :
    Option (Bool × EncodeState σ) :=
  match _h : wav_reader.ReadSamples FRAME_SIZE with
  | none => none
  | some (samples, reader) =>
    if _hread : samples.length = 0 then some (true, s)
    else
      let in_ := convert (pcmBuffer (bytesRead wav_reader FRAME_SIZE) (stale k)) FRAME_SIZE in_
      match enc.encode s.encoder (frame in_) with
      | none => some (false, { s with frames := s.frames ++ [frame in_] })
      | some (packet, encoder) =>
        encodeLoop enc encoded_file stale (k + 1) reader in_
          (s.encoded encoded_file (frame in_) packet encoder)
termination_by wav_reader.num_samples_remaining_
decreasing_by exact remaining_lt_of_ReadSamples _h _hread

/-! ## `opus_encode` -/

/-- How a call ended: the file that it left at the output path, if it opened one, the calls of the
encoder, whether an encoder was created and how often that was destroyed, and the result. -/
structure EncodeOutcome where
  encoded_file : Option (List UInt8)
  frames : List (List Int16)
  packets : List Packet
  created : Bool
  destroyed : ℕ
  ret : Bool

/-- `opus_encode`; none is a failed check of the reader, which ends the process. The frame is
initialised once, in front of the loop. -/
def opusEncode (enc : OpusEncoder σ) (encoded_file : Option Device) (stale : ℕ → ℕ → UInt8)
    (input_wav_filename : Option (List UInt8)) : Option EncodeOutcome :=
  match FileReader.open input_wav_filename with
  | none => none
  | some wav_reader =>
    if wav_reader.sample_rate_ = 0 ∨ wav_reader.num_channels_ = 0 ∨ wav_reader.num_samples_ = 0 then
      some { encoded_file := none, frames := [], packets := [], created := false, destroyed := 0,
             ret := false }
    else
      let opened := encoded_file.map Stream.opened.close
      match enc.create with
      | none =>
        -- The `break` of the check leads to a call of `opus_encoder_destroy` without an encoder.
        some { encoded_file := opened, frames := [], packets := [], created := false,
               destroyed := 0, ret := true }
      | some encoder =>
        match enc.set_bitrate encoder with
        | none =>
          some { encoded_file := opened, frames := [], packets := [], created := true,
                 destroyed := 1, ret := true }
        | some encoder =>
          (encodeLoop enc encoded_file stale 0 wav_reader (fun _ => 0)
            { encoder, encoded_file := Stream.opened, frames := [], packets := [] }).map
            fun (completed, s) =>
              { encoded_file := encoded_file.map s.encoded_file.close
                frames := s.frames
                packets := s.packets
                created := true
                destroyed := if completed then 1 else 0
                -- The `return` in the loop converts an exit status to a `bool`.
                ret := if completed then true else EXIT_FAILURE ≠ 0 }

end TgVoipRate.Opus
