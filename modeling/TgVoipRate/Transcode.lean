import TgVoipRate.Opus.EncodeSpec
import TgVoipRate.PipelineSignals

/-!
# Decoding and encoding again

`opus_encode` on a file that `opus_decode` has left. The frames that the encoder is given hold the
decoded samples, one after the other (`take_flatten_inputFrames`). But the file has two channels,
and the encoder is created for one: it is given the samples of both channels in turn, and twice as
many frames as the stream has (`decoded_is_encoded`).
-/

namespace TgVoipRate.Pipeline

open Opus (OggOpusFile OpusEncoder FRAME_SIZE inputFrame inputFrames interleaved pcmBytes Packet)
open OutStream (Device Stream)
open Wav (memBytes memSamples)

/-- The frames hold the samples of the file, in their order. -/
theorem take_flatten_inputFrames (stale : ℕ → ℕ → UInt8) (xs : List Int16) (k : ℕ) :
    (inputFrames stale k (memBytes xs)).flatten.take xs.length = xs := by
  induction h : xs.length using Nat.strong_induction_on generalizing xs k with
  | _ n ih =>
    subst h
    have hcount : (memBytes xs).length / 2 = xs.length := by
      rw [Wav.memBytes_length]
      omega
    rcases Nat.eq_zero_or_pos xs.length with hzero | hpos
    · rw [hzero, List.take_zero, List.length_eq_zero_iff.mp hzero]
    rw [Opus.inputFrames_cons (by omega), List.flatten_cons, Opus.memBytes_drop,
      Opus.inputFrame_memBytes]
    rcases Nat.lt_or_ge xs.length FRAME_SIZE with hshort | hlong
    · -- The last frame begins with the samples that are left.
      rw [List.take_of_length_le hshort.le, List.append_assoc, List.take_left' rfl]
    · -- A full frame, and the frames of the other samples.
      have hframe : 0 < FRAME_SIZE := by decide
      have hnone : memSamples (FRAME_SIZE - xs.length) ((List.range
          (2 * (FRAME_SIZE - xs.length))).map fun i => stale k (2 * xs.length + i)) = [] := by
        rw [Nat.sub_eq_zero_of_le hlong]
        rfl
      have hrest := ih (xs.drop FRAME_SIZE).length (by rw [List.length_drop]; omega)
        (xs.drop FRAME_SIZE) (k + 1) rfl
      have hlength : xs.length = (xs.take FRAME_SIZE).length + (xs.drop FRAME_SIZE).length := by
        rw [← List.length_append, List.take_append_drop]
      rw [hnone, List.append_nil, hlength, List.take_length_add_append, hrest,
        List.take_append_drop]

section Transcode

variable {σ : Type} {enc : OpusEncoder σ} {of : OggOpusFile} {dev out : Device}

/-- A stream that declares its frames, decoded to a file and encoded from there, by an encoder that
reports no error: the encoder is given the decoded samples in their order, those of both channels in
turn, in frames of 480 samples of one channel. So it is given twice as many frames as the stream
has, in samples; and the output has all of its packets. -/
theorem decoded_is_encoded (h : Declares of) (henc : enc.Works) (hdev : Reliable dev)
    (hout : Reliable out) (stale : ℕ → ℕ → UInt8) :
    ∃ file o, Opus.opusDecode (some dev) (some of) = { wav_file := some file, ret := some true } ∧
      Opus.opusEncode enc (some out) stale (some file) = some o ∧
      o.ret = true ∧ o.destroyed = 1 ∧
      o.frames.flatten.take (2 * of.frames.length) = interleaved of.frames ∧
      o.frames.length = (2 * of.frames.length + 479) / 480 ∧
      o.packets.length = o.frames.length ∧
      o.encoded_file = some (o.packets.flatMap Packet.bytes) := by
  have hpos := h.pos
  obtain ⟨file, hdecode, hheader⟩ := h.opusDecode hdev
  obtain ⟨encoder, hready⟩ := henc.ready
  have hencode := Opus.opusEncode_of_ready enc (some out) stale hheader rfl rfl
    (show 2 * of.frames.length ≠ 0 by omega) hready
  have hlength := interleaved_length of.frames
  have hpayload : (pcmBytes of.frames).take (2 * (2 * of.frames.length)) =
      memBytes (interleaved of.frames) := by
    rw [Opus.pcmBytes_eq]
    exact List.take_of_length_le (by rw [Wav.memBytes_length, hlength])
  rw [hpayload] at hencode
  obtain ⟨packets, encoder', hpackets, hframes⟩ := Opus.encodeFrames_of_encodes (some out)
    (s := { encoder, encoded_file := Stream.opened, frames := [], packets := [] })
    (henc.encodes encoder fun frame hmem => Opus.length_of_mem_inputFrames hmem)
  rw [hframes] at hencode
  refine ⟨file, _, hdecode, hencode, rfl, rfl, ?_, ?_, hpackets, ?_⟩
  · show (inputFrames stale 0 (memBytes (interleaved of.frames))).flatten.take _ = _
    rw [← hlength]
    exact take_flatten_inputFrames stale (interleaved of.frames) 0
  · show (inputFrames stale 0 (memBytes (interleaved of.frames))).length = _
    rw [Opus.inputFrames_length, Wav.memBytes_length, hlength,
      Nat.mul_div_cancel_left _ Nat.zero_lt_two]
    rfl
  · have hfile := (Opus.writePackets_eq_iff (some out) packets).mpr
      (Or.inr ⟨out, rfl, hout.loses_nothing, fun k _ => hout.takes_all k⟩)
    exact congrArg some hfile

/-- The encoder is given twice the tone's frames. -/
theorem decoded_is_encoded_tone :
    ∃ file o, Opus.opusDecode (some Device.perfect) (some tone) =
        { wav_file := some file, ret := some true } ∧
      Opus.opusEncode Opus.steadyEncoder (some Device.perfect) (fun _ _ => 1) (some file) = some o ∧
      o.frames.length = 240 := by
  have hreliable : Reliable Device.perfect := ⟨fun _ => rfl, rfl⟩
  obtain ⟨file, o, hdecode, hencode, -, -, -, hframes, -⟩ := decoded_is_encoded declares_tone
    Opus.steadyEncoder_works hreliable hreliable fun _ _ => 1
  exact ⟨file, o, hdecode, hencode, by rw [hframes, tone_frames]⟩

end Transcode

end TgVoipRate.Pipeline
