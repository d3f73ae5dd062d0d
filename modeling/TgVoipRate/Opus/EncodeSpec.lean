import TgVoipRate.Opus.EncodeFrames

/-!
# The calls and the result of `opus_encode`

The encoder is given the frames of the payload (`encodeLoop_eq`), which are the samples of the file
exactly if these fill the last frame or the memory behind them was zero (`opusEncode_exact_iff`).

The result is true for every input with a declared sample: neither the `break`s in front of the loop
nor the `return` in it give false, and the stream is not looked at (`opusEncode_reports_iff`).
-/

namespace TgVoipRate.Opus

open OutStream (Device Stream)
open Wav (FileReader WavParameters memBytes readWavHeader byteSource)

/-! ## The loop -/

variable {σ : Type}

/-- Encodes frames one after the other; false if a call failed, which then is the last one. -/
def encodeFrames (enc : OpusEncoder σ) (encoded_file : Option Device) :
    List (List Int16) → EncodeState σ → Bool × EncodeState σ
  | [], s => (true, s)
  | frame :: frames, s =>
    match enc.encode s.encoder frame with
    | none => (false, { s with frames := s.frames ++ [frame] })
    | some (packet, encoder) =>
      encodeFrames enc encoded_file frames (s.encoded encoded_file frame packet encoder)

/-- A call has read nothing exactly if there is no whole sample in the payload. -/
theorem read_length_eq_zero_iff (r : FileReader) :
    (r.rest.take FRAME_SIZE).length = 0 ↔ r.payload.length / 2 = 0 := by
  rw [List.length_take, r.rest_length_eq]
  simp only [FRAME_SIZE]
  omega

/-- What is read for a frame is the front of the payload. -/
theorem bytesRead_eq (r : FileReader) :
    bytesRead r FRAME_SIZE = r.payload.take (2 * FRAME_SIZE) := by
  rw [bytesRead, FileReader.payload, List.take_take, Nat.mul_min_mul_left]

/-- No check fails in the loop, and it encodes the frames of the payload. -/
theorem encodeLoop_eq (enc : OpusEncoder σ) (encoded_file : Option Device)
    (stale : ℕ → ℕ → UInt8) (k : ℕ) (r : FileReader) (in_ : ℕ → Int16) (s : EncodeState σ) :
    encodeLoop enc encoded_file stale k r in_ s =
      some (encodeFrames enc encoded_file (inputFrames stale k r.payload) s) := by
  induction hn : r.payload.length using Nat.strong_induction_on generalizing k r in_ s with
  | _ n ih =>
    subst hn
    rw [encodeLoop]
    split
    next hread =>
      rw [FileReader.ReadSamples_eq] at hread
      contradiction
    next samples reader hread =>
      rw [FileReader.ReadSamples_eq, Option.some.injEq, Prod.mk.injEq] at hread
      obtain ⟨rfl, rfl⟩ := hread
      by_cases hnone : (r.rest.take FRAME_SIZE).length = 0
      · rw [dif_pos hnone, inputFrames_of_lt ((read_length_eq_zero_iff r).mp hnone)]
        rfl
      · have hpayload : r.payload.length / 2 ≠ 0 := (read_length_eq_zero_iff r).not.mp hnone
        have hframe :
            frame (convert (pcmBuffer (bytesRead r FRAME_SIZE) (stale k)) FRAME_SIZE in_) =
              inputFrame r.payload (stale k) := by
          rw [frame_convert, bytesRead_eq, inputFrame, bufferBytes_take _ (Nat.le_refl _),
            inputFrame]
        have hless : (r.afterRead FRAME_SIZE).payload.length < r.payload.length := by
          rw [r.afterRead_payload, List.length_drop]
          simp only [FRAME_SIZE]
          omega
        rw [dif_neg hnone, inputFrames_cons hpayload]
        dsimp only
        rw [hframe, encodeFrames]
        cases enc.encode s.encoder (inputFrame r.payload (stale k)) with
        | none => rfl
        | some result =>
          dsimp only
          rw [ih _ hless _ _ _ _ rfl, r.afterRead_payload]

/-- The encoder takes frames one after the other without an error. -/
def OpusEncoder.Encodes (enc : OpusEncoder σ) : σ → List (List Int16) → Prop
  | _, [] => True
  | encoder, frame :: frames =>
    match enc.encode encoder frame with
    | none => False
    | some (_, encoder) => Encodes enc encoder frames

/-- The packets are written one after the other. -/
def writePackets (encoded_file : Option Device) (s : Stream) (packets : List Packet) : Stream :=
  packets.foldl (fun s packet => writePacket encoded_file s packet.bytes) s

/-- Without an error, each frame becomes a packet that is written. -/
theorem encodeFrames_of_encodes {enc : OpusEncoder σ} (encoded_file : Option Device)
    {frames : List (List Int16)} {s : EncodeState σ} (h : enc.Encodes s.encoder frames) :
    ∃ packets encoder, packets.length = frames.length ∧
      encodeFrames enc encoded_file frames s =
        (true,
          { encoder
            encoded_file := writePackets encoded_file s.encoded_file packets
            frames := s.frames ++ frames
            packets := s.packets ++ packets }) := by
  induction frames generalizing s with
  | nil => exact ⟨[], s.encoder, rfl, by simp [encodeFrames, writePackets]⟩
  | cons frame frames ih =>
    rw [OpusEncoder.Encodes] at h
    rw [encodeFrames]
    cases hencode : enc.encode s.encoder frame with
    | none =>
      rw [hencode] at h
      exact absurd h id
    | some result =>
      obtain ⟨packet, encoder⟩ := result
      rw [hencode] at h
      obtain ⟨packets, encoder', hlen, heq⟩ :=
        ih (s := s.encoded encoded_file frame packet encoder) h
      refine ⟨packet :: packets, encoder', congrArg (· + 1) hlen, ?_⟩
      dsimp only
      rw [heq]
      simp [EncodeState.encoded, writePackets]

/-- With an error the loop is left by its `return`, with fewer packets than frames. -/
theorem encodeFrames_of_not_encodes {enc : OpusEncoder σ} (encoded_file : Option Device)
    {frames : List (List Int16)} {s : EncodeState σ} (h : ¬enc.Encodes s.encoder frames) :
    (encodeFrames enc encoded_file frames s).1 = false ∧
      (encodeFrames enc encoded_file frames s).2.packets.length <
        s.packets.length + frames.length := by
  induction frames generalizing s with
  | nil => exact absurd trivial h
  | cons frame frames ih =>
    rw [OpusEncoder.Encodes] at h
    rw [encodeFrames]
    cases hencode : enc.encode s.encoder frame with
    | none =>
      refine ⟨rfl, ?_⟩
      dsimp only
      rw [List.length_cons]
      omega
    | some result =>
      obtain ⟨packet, encoder⟩ := result
      rw [hencode] at h
      obtain ⟨hfailed, hlen⟩ := ih (s := s.encoded encoded_file frame packet encoder) h
      refine ⟨hfailed, ?_⟩
      have hpackets : (s.encoded encoded_file frame packet encoder).packets.length =
          s.packets.length + 1 := by
        rw [EncodeState.encoded, List.length_append, List.length_singleton]
      rw [hpackets] at hlen
      rw [List.length_cons]
      dsimp only
      omega

/-- The file that is left holds the packets exactly if there is none, or it could be opened and the
device took them all and lost nothing. -/
theorem writePackets_eq_iff (encoded_file : Option Device) (packets : List Packet) :
    (encoded_file.map (writePackets encoded_file Stream.opened packets).close).getD [] =
        packets.flatMap Packet.bytes ↔
      packets = [] ∨ ∃ dev, encoded_file = some dev ∧ dev.unflushed = 0 ∧
        ∀ k < packets.length, dev.missing k = 0 := by
  have hpos : ∀ bs ∈ packets.map Packet.bytes, 0 < bs.length := by
    intro bs hbs
    obtain ⟨packet, -, rfl⟩ := List.mem_map.mp hbs
    exact packet.bytes_pos
  cases encoded_file with
  | none =>
    have hempty : packets.flatMap Packet.bytes = [] ↔ packets = [] := by
      rw [List.flatMap_eq_nil_iff]
      constructor
      · intro hall
        refine List.eq_nil_iff_forall_not_mem.mpr fun packet hmem => ?_
        exact absurd (congrArg List.length (hall packet hmem)) packet.bytes_pos.ne'
      · rintro rfl
        exact fun packet hmem => absurd hmem List.not_mem_nil
    rw [Option.map_none, Option.getD_none, eq_comm, hempty]
    refine ⟨Or.inl, ?_⟩
    rintro (hnil | ⟨dev, hdev, -⟩)
    · exact hnil
    · contradiction
  | some dev =>
    have hwrites : writePackets (some dev) Stream.opened packets =
        Stream.opened.writeAll dev (packets.map Packet.bytes) := by
      rw [writePackets, Stream.writeAll, List.foldl_map]
      rfl
    rw [hwrites, Option.map_some, Option.getD_some, List.flatMap_def,
      Stream.close_writeAll_iff hpos, List.map_eq_nil_iff, List.length_map]
    simp

/-! ## The result -/

/-- An encoder that was created, and whose bitrate was accepted. -/
def OpusEncoder.Ready (enc : OpusEncoder σ) (encoder : σ) : Prop :=
  ∃ created, enc.create = some created ∧ enc.set_bitrate created = some encoder

/-- What a header that is accepted says about the channels and the sample rate. -/
theorem channels_ne_zero_of_readWavHeader {file rest : List UInt8} {p : WavParameters}
    (h : readWavHeader byteSource file = some (p, rest)) :
    p.sample_rate ≠ 0 ∧ p.num_channels ≠ 0 := by
  have hvalid := Wav.valid_of_readWavHeader h
  refine ⟨fun hzero => ?_, hvalid.channels_pos.ne'⟩
  have hpos := hvalid.rate_pos
  rw [hzero] at hpos
  exact absurd hpos (by decide)

/-- How a call ends whose loop was reached. The result is true whichever way the loop was left. -/
def loopOutcome (encoded_file : Option Device) (result : Bool × EncodeState σ) : EncodeOutcome :=
  { encoded_file := encoded_file.map result.2.encoded_file.close
    frames := result.2.frames
    packets := result.2.packets
    created := true
    destroyed := if result.1 then 1 else 0
    ret := true }

section Input

variable (enc : OpusEncoder σ) (encoded_file : Option Device) (stale : ℕ → ℕ → UInt8)
  {file rest : List UInt8} {p : WavParameters}

/-- A file that declares no sample is not encoded. -/
theorem opusEncode_of_num_samples_eq_zero (h : readWavHeader byteSource file = some (p, rest))
    (hformat : p.format = .kWavFormatPcm) (hbytes : p.bytes_per_sample = 2)
    (hn : p.num_samples = 0) :
    opusEncode enc encoded_file stale (some file) =
      some { encoded_file := none, frames := [], packets := [], created := false, destroyed := 0,
             ret := false } := by
  rw [opusEncode, FileReader.open_of_header h hformat hbytes]
  exact if_pos (Or.inr (Or.inr hn))

/-- Without a ready encoder nothing is encoded, and the result is true. -/
theorem opusEncode_of_not_ready (h : readWavHeader byteSource file = some (p, rest))
    (hformat : p.format = .kWavFormatPcm) (hbytes : p.bytes_per_sample = 2)
    (hn : p.num_samples ≠ 0) (hready : ¬∃ encoder, enc.Ready encoder) :
    ∃ created, opusEncode enc encoded_file stale (some file) =
      some { encoded_file := encoded_file.map Stream.opened.close, frames := [], packets := [],
             created, destroyed := created.toNat, ret := true } := by
  obtain ⟨hrate, hchannels⟩ := channels_ne_zero_of_readWavHeader h
  rw [opusEncode, FileReader.open_of_header h hformat hbytes]
  dsimp only
  rw [if_neg (by rintro (hzero | hzero | hzero) <;> contradiction)]
  cases hcreate : enc.create with
  | none => exact ⟨false, rfl⟩
  | some created =>
    cases hbitrate : enc.set_bitrate created with
    | none => exact ⟨true, by simp only [hbitrate]; rfl⟩
    | some encoder => exact absurd ⟨encoder, created, hcreate, hbitrate⟩ hready

/-- With a ready encoder, the frames of the payload are encoded. -/
theorem opusEncode_of_ready (h : readWavHeader byteSource file = some (p, rest))
    (hformat : p.format = .kWavFormatPcm) (hbytes : p.bytes_per_sample = 2)
    (hn : p.num_samples ≠ 0) {encoder : σ} (hready : enc.Ready encoder) :
    opusEncode enc encoded_file stale (some file) =
      some (loopOutcome encoded_file
        (encodeFrames enc encoded_file (inputFrames stale 0 (rest.take (2 * p.num_samples)))
          { encoder, encoded_file := Stream.opened, frames := [], packets := [] })) := by
  obtain ⟨hrate, hchannels⟩ := channels_ne_zero_of_readWavHeader h
  obtain ⟨created, hcreate, hbitrate⟩ := hready
  rw [opusEncode, FileReader.open_of_header h hformat hbytes]
  dsimp only
  rw [if_neg (by rintro (hzero | hzero | hzero) <;> contradiction), hcreate]
  simp only [hbitrate, encodeLoop_eq, Option.map_some]
  have htrue : decide (EXIT_FAILURE ≠ 0) = true := rfl
  rw [htrue, ite_self]
  rfl

end Input

/-- The encoder that is ready is determined. -/
theorem OpusEncoder.Ready.unique {enc : OpusEncoder σ} {encoder encoder' : σ}
    (h : enc.Ready encoder) (h' : enc.Ready encoder') : encoder = encoder' := by
  obtain ⟨created, hcreate, hbitrate⟩ := h
  obtain ⟨created', hcreate', hbitrate'⟩ := h'
  obtain rfl := Option.some.inj (hcreate.symm.trans hcreate')
  exact Option.some.inj (hbitrate.symm.trans hbitrate')

/-- The samples that are declared and present, from the bytes of the payload. -/
theorem payload_length_div_two (num_samples : ℕ) (rest : List UInt8) :
    (rest.take (2 * num_samples)).length / 2 = min num_samples (rest.length / 2) := by
  rw [List.length_take]
  omega

/-- There is a frame exactly if there is a sample. -/
theorem frameCount_eq_zero_iff {n : ℕ} : frameCount n = 0 ↔ n = 0 := by
  simp only [frameCount, FRAME_SIZE]
  omega

/-- What a caller may take the result for: it is true exactly if each of a number of frames became a
packet and the file holds all packets; and an encoder that was created is destroyed once. -/
def EncodeOutcome.Reports (o : EncodeOutcome) (frames : ℕ) : Prop :=
  (o.ret = true ↔
    o.packets.length = frames ∧ o.encoded_file.getD [] = o.packets.flatMap Packet.bytes) ∧
    (o.created = true → o.destroyed = 1)

/-- Where the encoder takes all frames, it is the file that decides. -/
theorem loopOutcome_reports_iff {enc : OpusEncoder σ} (encoded_file : Option Device)
    {frames : List (List Int16)} {encoder : σ} (h : enc.Encodes encoder frames) :
    (loopOutcome encoded_file (encodeFrames enc encoded_file frames
        { encoder, encoded_file := Stream.opened, frames := [], packets := [] })).Reports
          frames.length ↔
      frames.length = 0 ∨ ∃ dev, encoded_file = some dev ∧ dev.unflushed = 0 ∧
        ∀ k < frames.length, dev.missing k = 0 := by
  obtain ⟨packets, encoder', hpackets, hframes⟩ := encodeFrames_of_encodes
    (s := { encoder, encoded_file := Stream.opened, frames := [], packets := [] })
    encoded_file h
  have hfile := writePackets_eq_iff encoded_file packets
  rw [← List.length_eq_zero_iff, hpackets] at hfile
  rw [hframes]
  simp only [EncodeOutcome.Reports, loopOutcome, List.nil_append, hpackets, true_iff, true_and,
    if_true, implies_true, and_true, hfile]

/-- The `return` in the loop leaves the encoder behind. -/
theorem loopOutcome_not_reports {enc : OpusEncoder σ} (encoded_file : Option Device)
    {frames : List (List Int16)} {encoder : σ} (h : ¬enc.Encodes encoder frames) (n : ℕ) :
    ¬(loopOutcome encoded_file (encodeFrames enc encoded_file frames
        { encoder, encoded_file := Stream.opened, frames := [], packets := [] })).Reports n := by
  obtain ⟨hfailed, -⟩ := encodeFrames_of_not_encodes
    (s := { encoder, encoded_file := Stream.opened, frames := [], packets := [] })
    encoded_file h
  intro hreports
  have hdestroyed := hreports.2 rfl
  rw [loopOutcome, hfailed] at hdestroyed
  contradiction

/-- The result reports what happened exactly if a sample is declared and either no whole sample is
there, or the encoder is ready and takes all frames and the output file takes all packets. -/
theorem opusEncode_reports_iff (enc : OpusEncoder σ) (encoded_file : Option Device)
    (stale : ℕ → ℕ → UInt8) {file rest : List UInt8} {p : WavParameters}
    (h : readWavHeader byteSource file = some (p, rest)) (hformat : p.format = .kWavFormatPcm)
    (hbytes : p.bytes_per_sample = 2) :
    ∃ o, opusEncode enc encoded_file stale (some file) = some o ∧
      (o.Reports (frameCount (min p.num_samples (rest.length / 2))) ↔
        0 < p.num_samples ∧
          (rest.length / 2 = 0 ∨
            (∃ encoder, enc.Ready encoder ∧
              enc.Encodes encoder (inputFrames stale 0 (rest.take (2 * p.num_samples)))) ∧
            ∃ dev, encoded_file = some dev ∧ dev.unflushed = 0 ∧
              ∀ k < frameCount (min p.num_samples (rest.length / 2)), dev.missing k = 0)) := by
  have hlength := payload_length_div_two p.num_samples rest
  generalize hcount : frameCount (min p.num_samples (rest.length / 2)) = count
  have hzero : 0 < p.num_samples → (count = 0 ↔ rest.length / 2 = 0) := by
    intro hn
    rw [← hcount, frameCount_eq_zero_iff]
    omega
  rcases Nat.eq_zero_or_pos p.num_samples with hn | hn
  · -- Nothing is to be encoded, and the result is false.
    refine ⟨_, opusEncode_of_num_samples_eq_zero enc encoded_file stale h hformat hbytes hn, ?_⟩
    have hnone : count = 0 := by rw [← hcount, hn, Nat.zero_min]; rfl
    refine ⟨fun hreports => ?_, fun hpos => absurd hn hpos.1.ne'⟩
    exact absurd (hreports.1.mpr ⟨hnone.symm, rfl⟩) Bool.false_ne_true
  · by_cases hready : ∃ encoder, enc.Ready encoder
    · obtain ⟨encoder, hready⟩ := hready
      have hencode := opusEncode_of_ready enc encoded_file stale h hformat hbytes hn.ne' hready
      by_cases hencodes :
          enc.Encodes encoder (inputFrames stale 0 (rest.take (2 * p.num_samples)))
      · have hfile := loopOutcome_reports_iff encoded_file hencodes
        rw [inputFrames_length, hlength, hcount, hzero hn] at hfile
        refine ⟨_, hencode, ?_⟩
        have hdone : ∃ encoder, enc.Ready encoder ∧
            enc.Encodes encoder (inputFrames stale 0 (rest.take (2 * p.num_samples))) :=
          ⟨encoder, hready, hencodes⟩
        rw [hfile, and_iff_right hn, and_iff_right hdone]
      · refine ⟨_, hencode, ?_⟩
        constructor
        · exact fun hreports => absurd hreports (loopOutcome_not_reports encoded_file hencodes _)
        · -- Neither case is left: without a frame there is nothing to fail.
          rintro ⟨-, hnone | ⟨⟨encoder', hready', hencodes'⟩, -⟩⟩
          · rw [inputFrames_of_lt (by omega)] at hencodes
            exact absurd trivial hencodes
          · rw [hready.unique hready'] at hencodes
            exact absurd hencodes' hencodes
    · -- The result is true without a packet.
      obtain ⟨created, hencode⟩ :=
        opusEncode_of_not_ready enc encoded_file stale h hformat hbytes hn.ne' hready
      refine ⟨_, hencode, ?_⟩
      constructor
      · intro hreports
        obtain ⟨hlen, -⟩ := hreports.1.mp rfl
        exact ⟨hn, Or.inl ((hzero hn).mp hlen.symm)⟩
      · rintro ⟨-, hnone | ⟨⟨encoder, hencoder, -⟩, -⟩⟩
        · refine ⟨⟨fun _ => ⟨((hzero hn).mpr hnone).symm, ?_⟩, fun _ => rfl⟩, ?_⟩
          · exact (writePackets_eq_iff encoded_file []).mpr (Or.inl rfl)
          · rintro rfl
            rfl
        · exact absurd ⟨encoder, hencoder⟩ hready

/-- A mono file at 48 kHz with some samples. -/
def monoFile (xs : List Int16) : List UInt8 :=
  (WavParameters.header ⟨1, 48000, .kWavFormatPcm, 2, xs.length⟩).toBytes ++ memBytes xs

/-- The header of a file with one sample. -/
theorem readWavHeader_monoFile (x : Int16) :
    readWavHeader byteSource (monoFile [x]) =
      some (⟨1, 48000, .kWavFormatPcm, 2, 1⟩, memBytes [x]) := by
  rw [monoFile, Wav.readWavHeader_toBytes _ _ rfl]
  have hparse : (WavParameters.header ⟨1, 48000, .kWavFormatPcm, 2, 1⟩).parse =
      some ⟨1, 48000, .kWavFormatPcm, 2, 1⟩ := by
    decide
  exact congrArg (Option.map fun p => (p, memBytes [x])) hparse

/-- An encoder without errors, which gives every frame the same packet. -/
def steadyEncoder : OpusEncoder Unit :=
  { create := some ()
    set_bitrate := some
    encode := fun encoder _ => some (⟨[0xFC], by decide, by decide⟩, encoder) }

/-- It encodes all frames. -/
theorem steadyEncoder_encodes (frames : List (List Int16)) : steadyEncoder.Encodes () frames := by
  induction frames with
  | nil => trivial
  | cons frame frames ih => exact ih

/-- With such an encoder and a device that takes everything, the result reports what happened. -/
theorem opusEncode_reports_steady :
    ∃ o, opusEncode steadyEncoder (some Device.perfect) (fun _ _ => 0) (some (monoFile [5])) =
      some o ∧ o.Reports 1 := by
  obtain ⟨o, ho, hiff⟩ := opusEncode_reports_iff steadyEncoder (some Device.perfect) (fun _ _ => 0)
    (readWavHeader_monoFile 5) rfl rfl
  have hready : steadyEncoder.Ready () := ⟨(), rfl, rfl⟩
  exact ⟨o, ho, hiff.mpr ⟨by decide,
    Or.inr ⟨⟨(), hready, steadyEncoder_encodes _⟩, Device.perfect, rfl, rfl, fun _ _ => rfl⟩⟩⟩

/-- An encoder whose first call fails: the result is true without a packet, and the encoder is left
behind. -/
theorem opusEncode_hides_failure :
    ∃ o, opusEncode { create := some (), set_bitrate := some, encode := fun _ _ => none }
        (some Device.perfect) (fun _ _ => 0) (some (monoFile [5])) = some o ∧
      o.ret = true ∧ o.packets = [] ∧ o.created = true ∧ o.destroyed = 0 ∧ ¬o.Reports 1 := by
  generalize henc : ({ create := some (), set_bitrate := some, encode := fun _ _ => none } :
    OpusEncoder Unit) = enc
  have hready : enc.Ready () := by
    rw [← henc]
    exact ⟨(), rfl, rfl⟩
  have hencode := opusEncode_of_ready enc (some Device.perfect) (fun _ _ => 0)
    (readWavHeader_monoFile 5) rfl rfl Nat.one_ne_zero hready
  have hframes : ¬enc.Encodes ()
      (inputFrames (fun _ _ => 0) 0 ((memBytes [5]).take (2 * 1))) := by
    rw [← henc, inputFrames_cons (by decide)]
    exact id
  obtain ⟨hfailed, hlen⟩ := encodeFrames_of_not_encodes
    (s := { encoder := (), encoded_file := Stream.opened, frames := [], packets := [] })
    (some Device.perfect) hframes
  rw [inputFrames_length] at hlen
  have hnone := List.eq_nil_of_length_eq_zero (Nat.lt_one_iff.mp hlen)
  refine ⟨_, hencode, rfl, hnone, rfl, ?_, loopOutcome_not_reports _ hframes 1⟩
  rw [loopOutcome, hfailed]
  rfl

/-! ## The frames of a call -/

/-- An encoder that reports no error: `opus_encode` reports one only for arguments that it does not
allow, and the source gives it frames of 10 ms and a buffer that is large enough. -/
structure OpusEncoder.Works (enc : OpusEncoder σ) : Prop where
  create : enc.create.isSome
  set_bitrate : ∀ encoder, (enc.set_bitrate encoder).isSome
  encode : ∀ encoder frame, frame.length = FRAME_SIZE → (enc.encode encoder frame).isSome

/-- It encodes all frames. -/
theorem OpusEncoder.Works.encodes {enc : OpusEncoder σ} (henc : enc.Works) (encoder : σ)
    {frames : List (List Int16)} (h : ∀ frame ∈ frames, frame.length = FRAME_SIZE) :
    enc.Encodes encoder frames := by
  induction frames generalizing encoder with
  | nil => trivial
  | cons frame frames ih =>
    obtain ⟨result, hresult⟩ :=
      Option.isSome_iff_exists.mp (henc.encode encoder frame (h frame List.mem_cons_self))
    rw [OpusEncoder.Encodes, hresult]
    exact ih result.2 fun frame hmem => h frame (List.mem_cons_of_mem _ hmem)

/-- The frames of an input are complete. -/
theorem length_of_mem_inputFrames {stale : ℕ → ℕ → UInt8} {k : ℕ} {payload : List UInt8}
    {frame : List Int16} (h : frame ∈ inputFrames stale k payload) :
    frame.length = FRAME_SIZE := by
  obtain ⟨j, -, rfl⟩ := List.mem_map.mp h
  exact Wav.memSamples_length _ _

/-- It becomes ready. -/
theorem OpusEncoder.Works.ready {enc : OpusEncoder σ} (henc : enc.Works) :
    ∃ encoder, enc.Ready encoder := by
  obtain ⟨created, hcreate⟩ := Option.isSome_iff_exists.mp henc.create
  obtain ⟨encoder, hbitrate⟩ := Option.isSome_iff_exists.mp (henc.set_bitrate created)
  exact ⟨encoder, created, hcreate, hbitrate⟩

/-- It is given all the frames of an input. -/
theorem OpusEncoder.Works.encodeFrames_frames {enc : OpusEncoder σ} (henc : enc.Works)
    (encoded_file : Option Device) (stale : ℕ → ℕ → UInt8) (k : ℕ) (payload : List UInt8)
    (s : EncodeState σ) :
    (encodeFrames enc encoded_file (inputFrames stale k payload) s).2.frames =
      s.frames ++ inputFrames stale k payload := by
  obtain ⟨packets, encoder, -, hframes⟩ := encodeFrames_of_encodes encoded_file
    (henc.encodes s.encoder fun frame hmem => length_of_mem_inputFrames hmem)
  rw [hframes]

/-- For a mono file of samples, the encoder is given as many frames as they make. These are the
samples completed with zeros exactly if the samples fill the last frame or the memory behind them
was zero, and a call ends the same way whatever the memory held exactly if they fill it. -/
theorem opusEncode_exact_iff {enc : OpusEncoder σ} (henc : enc.Works)
    (encoded_file : Option Device) (stale : ℕ → ℕ → UInt8) {file post : List UInt8}
    {xs : List Int16} (hxs : xs ≠ [])
    (h : readWavHeader byteSource file =
      some (⟨1, 48000, .kWavFormatPcm, 2, xs.length⟩, memBytes xs ++ post)) :
    ∃ o, opusEncode enc encoded_file stale (some file) = some o ∧
      o.frames.length = (xs.length + 479) / 480 ∧
      (o.frames = zeroFilledFrames xs ↔
        480 ∣ xs.length ∨
          ∀ i, 2 * (xs.length % 480) ≤ i → i < 960 → stale (xs.length / 480) i = 0) ∧
      ((∀ stale', opusEncode enc encoded_file stale' (some file) = some o) ↔
        480 ∣ xs.length) := by
  have hn : xs.length ≠ 0 := List.length_eq_zero_iff.not.mpr hxs
  obtain ⟨encoder, hready⟩ := henc.ready
  have hencode (stale : ℕ → ℕ → UInt8) :
      opusEncode enc encoded_file stale (some file) =
        some (loopOutcome encoded_file
          (encodeFrames enc encoded_file (inputFrames stale 0 (memBytes xs))
            { encoder, encoded_file := Stream.opened, frames := [], packets := [] })) := by
    rw [opusEncode_of_ready enc encoded_file stale h rfl rfl hn hready,
      List.take_left' (Wav.memBytes_length xs)]
  have hframes (stale : ℕ → ℕ → UInt8) :
      (loopOutcome encoded_file
        (encodeFrames enc encoded_file (inputFrames stale 0 (memBytes xs))
          { encoder, encoded_file := Stream.opened, frames := [], packets := [] })).frames =
        inputFrames stale 0 (memBytes xs) :=
    henc.encodeFrames_frames encoded_file stale 0 (memBytes xs) _
  refine ⟨_, hencode stale, ?_, ?_, ?_⟩
  · rw [hframes, inputFrames_length, Wav.memBytes_length,
      Nat.mul_div_cancel_left _ Nat.zero_lt_two]
    rfl
  · rw [hframes]
    exact inputFrames_eq_zeroFilled_iff xs stale
  · constructor
    · intro hall
      -- The frames do not depend on the memory, so they are those of zeroed memory.
      have hsame (stale' : ℕ → ℕ → UInt8) :
          inputFrames stale' 0 (memBytes xs) = inputFrames stale 0 (memBytes xs) := by
        have heq := Option.some.inj ((hencode stale').symm.trans (hall stale'))
        rw [← hframes stale', heq, hframes]
      have hzero := (inputFrames_eq_zeroFilled_iff xs fun _ _ => 0).mpr (Or.inr fun _ _ _ => rfl)
      have hone : inputFrames (fun _ _ => 1) 0 (memBytes xs) = zeroFilledFrames xs := by
        rw [hsame, ← hsame fun _ _ => 0, hzero]
      refine ((inputFrames_eq_zeroFilled_iff xs _).mp hone).resolve_right fun hstale => ?_
      have hmod : xs.length % FRAME_SIZE < FRAME_SIZE := Nat.mod_lt _ (by decide)
      simp only [FRAME_SIZE] at hmod hstale
      exact absurd (hstale 959 (by omega) (by omega)) (by decide)
    · intro hdvd stale'
      have hfill := (inputFrames_eq_zeroFilled_iff xs stale).mpr (Or.inl hdvd)
      have hfill' := (inputFrames_eq_zeroFilled_iff xs stale').mpr (Or.inl hdvd)
      rw [hencode, hfill', hfill]

/-- The steady encoder reports no error. -/
theorem steadyEncoder_works : steadyEncoder.Works :=
  { create := rfl
    set_bitrate := fun _ => rfl
    encode := fun _ _ _ => rfl }

/-- One sample, with zeroed memory behind it. -/
theorem opusEncode_exact_one :
    ∃ o, opusEncode steadyEncoder none (fun _ _ => 0) (some (monoFile [5])) = some o ∧
      o.frames = zeroFilledFrames [5] := by
  obtain ⟨o, ho, -, hiff, -⟩ := opusEncode_exact_iff steadyEncoder_works none (fun _ _ => 0)
    (List.cons_ne_nil 5 []) (readWavHeader_monoFile 5)
  exact ⟨o, ho, hiff.mpr (Or.inr fun _ _ _ => rfl)⟩

/-- One sample, with memory behind it that is not zero: its last two bytes are a sample of the frame
that the encoder is given. -/
theorem opusEncode_stale :
    ∃ o, opusEncode steadyEncoder none (fun _ _ => 1) (some (monoFile [5])) = some o ∧
      o.frames ≠ zeroFilledFrames [5] := by
  have hready : steadyEncoder.Ready () := ⟨(), rfl, rfl⟩
  refine ⟨_, opusEncode_of_ready steadyEncoder none (fun _ _ => 1) (readWavHeader_monoFile 5) rfl
    rfl Nat.one_ne_zero hready, fun hframes => ?_⟩
  have hinput : inputFrames (fun _ _ => 1) 0 (memBytes [5]) = zeroFilledFrames [5] :=
    (steadyEncoder_works.encodeFrames_frames none (fun _ _ => 1) 0 (memBytes [5]) _).symm.trans
      hframes
  rcases (inputFrames_eq_zeroFilled_iff [5] _).mp hinput with hdvd | hstale
  · exact absurd hdvd (by decide)
  · exact absurd (hstale 959 (by decide) (by decide)) (by decide)

end TgVoipRate.Opus
