import TgVoipRate.Wav.Header
import Mathlib.Tactic.Linarith

/-!
# What the header check, writer and reader guarantee

`check_iff` states what `CheckWavParameters` accepts in exact arithmetic (`Valid`): under it none of
the products of the check itself wraps. The check bounds `num_samples * bytes_per_sample`, while the
writer's payload size is `num_channels * bytes_per_sample * num_samples`, and it bounds no product
by the 16-bit block alignment field. So the header's fields are exact under a further condition
only, and reading back a written header gives the parameters under another one.

The round trip goes in two steps. The bytes of a header are read back as the same fields
(`ofBytes_toBytes`), so reading what was written is parsing the struct that the writer filled in
(`readWavHeader_toBytes`). The parser recomputes the three dependent fields from the narrowed ones,
and they agree, so all that can go wrong is the sample count (`Valid.parse_header`).
-/

namespace TgVoipRate.Wav

open LittleEndian (encode decode)

/-! ## The check -/

/-- What the check accepts, in exact arithmetic. -/
structure WavParameters.Valid (p : WavParameters) : Prop where
  /-- There is a channel. -/
  channels_pos : 0 < p.num_channels
  /-- The channel count fits its field. -/
  channels_le : p.num_channels ≤ uint16Max
  /-- The sample rate is positive. -/
  rate_pos : 0 < p.sample_rate.toInt
  /-- The byte rate fits its field. -/
  byteRate_le : p.num_channels * toSizeT p.sample_rate * p.bytes_per_sample ≤ uint32Max
  /-- The format and the sample size agree. -/
  format_ok : checkWavParameters.formatAllows p.format p.bytes_per_sample = true
  /-- The samples, counted over all channels, leave room for the header in a 32-bit size. -/
  samples_le : p.num_samples * p.bytes_per_sample + 36 ≤ uint32Max
  /-- The samples make complete frames. -/
  channels_dvd : p.num_channels ∣ p.num_samples

/-- A positive `int` is unchanged by its conversion to `size_t`. -/
theorem toSizeT_of_pos {x : Int32} (h : 0 < x.toInt) : (toSizeT x : ℤ) = x.toInt := by
  have hlt := x.toInt_lt
  rw [toSizeT, Int.emod_eq_of_lt h.le (by omega), Int.toNat_of_nonneg h.le]

/-- A positive `int` is below `2^31` as a `size_t`. -/
theorem toSizeT_lt {x : Int32} (h : 0 < x.toInt) : toSizeT x < 2^31 := by
  have heq := toSizeT_of_pos h
  have hlt := x.toInt_lt
  omega

/-- A format that the enumeration names allows one or two bytes per sample. -/
theorem bytes_of_formatAllows {format : WavFormat} {bytes_per_sample : ℕ}
    (h : checkWavParameters.formatAllows format bytes_per_sample = true) :
    bytes_per_sample = 1 ∨ bytes_per_sample = 2 := by
  unfold checkWavParameters.formatAllows at h
  cases format <;> simp_all

/-- The bound on the sample count is the bound on the payload size. -/
theorem le_max_samples_iff {bytes_per_sample num_samples : ℕ} (h : 0 < bytes_per_sample) :
    num_samples ≤ (uint32Max - (kWavHeaderSize - chunkHeaderSize)) / bytes_per_sample ↔
      num_samples * bytes_per_sample + 36 ≤ uint32Max := by
  rw [Nat.le_div_iff_mul_le h]
  simp only [uint32Max, kWavHeaderSize, chunkHeaderSize]
  omega

/-- The check accepts exactly the valid parameters: its own products do not wrap on parameters that
pass its other tests. -/
theorem WavParameters.check_iff (p : WavParameters) : p.check = true ↔ p.Valid := by
  obtain ⟨num_channels, sample_rate, format, bytes_per_sample, num_samples⟩ := p
  unfold WavParameters.check checkWavParameters
  dsimp only
  have hsign : sample_rate ≤ 0 ↔ sample_rate.toInt ≤ 0 := Int32.le_iff_toInt_le
  -- Past the sign tests and the format test, the byte rate of the check is the exact product.
  have hexact (hr : 0 < sample_rate.toInt) (hc : num_channels ≤ uint16Max)
      (hb : bytes_per_sample = 1 ∨ bytes_per_sample = 2) :
      toSizeT sample_rate * num_channels % 2^64 * bytes_per_sample % 2^64 =
        num_channels * toSizeT sample_rate * bytes_per_sample := by
    have hrate := toSizeT_lt hr
    have hprod : toSizeT sample_rate * num_channels ≤ 2^31 * 2^16 :=
      Nat.mul_le_mul hrate.le (by simp only [uint16Max] at hc; omega)
    have hcomm := Nat.mul_comm num_channels (toSizeT sample_rate)
    rcases hb with rfl | rfl <;> omega
  constructor
  · intro h
    -- The tests that were passed, one for each field.
    split_ifs at h with h1 h2 h3 h4 h5 h6 h7 h8
    rw [hsign] at h1
    push Not at h1 h8
    simp only [Bool.not_eq_true', Bool.not_eq_false] at h6
    have hb := bytes_of_formatAllows h6
    rw [hexact h1.2.1 (Nat.le_of_not_lt h3) hb] at h5
    exact
      { channels_pos := Nat.pos_of_ne_zero h1.1
        channels_le := Nat.le_of_not_lt h3
        rate_pos := h1.2.1
        byteRate_le := Nat.le_of_not_lt h5
        format_ok := h6
        samples_le := (le_max_samples_iff (Nat.pos_of_ne_zero h1.2.2)).mp (Nat.le_of_not_lt h7)
        channels_dvd := Nat.dvd_of_mod_eq_zero h8 }
  · rintro ⟨hc0, hc, hr, hrate, hf, hn, hdvd⟩
    dsimp only at hc0 hc hr hrate hf hn hdvd
    have hb := bytes_of_formatAllows hf
    have hsz := toSizeT_lt hr
    have hmax : num_samples ≤ (uint32Max - (kWavHeaderSize - chunkHeaderSize)) / bytes_per_sample :=
      (le_max_samples_iff (by omega)).mpr hn
    have hmod := Nat.mod_eq_zero_of_dvd hdvd
    -- Each test of the check in turn.
    rw [if_neg (by rw [hsign]; omega), if_neg (by simp only [uint32Max]; omega), if_neg (by omega),
      if_neg (by simp only [uint16Max]; omega), if_neg (by rw [hexact hr hc hb]; omega),
      if_neg (by simp [hf]), if_neg (by omega), if_neg (by simp [hmod])]

/-- Valid parameters stay valid with another number of samples that fits and makes complete
frames. -/
theorem WavParameters.Valid.with_samples {p : WavParameters} (h : p.Valid) {n : ℕ}
    (hn : n * p.bytes_per_sample + 36 ≤ uint32Max) (hdvd : p.num_channels ∣ n) :
    { p with num_samples := n }.Valid :=
  { h with samples_le := hn, channels_dvd := hdvd }

/-- The writer writes exactly the headers of valid parameters. -/
theorem writeWavHeader_eq_some_iff (p : WavParameters) (bs : List UInt8) :
    writeWavHeader p = some bs ↔ p.Valid ∧ bs = p.header.toBytes := by
  unfold writeWavHeader
  rw [← p.check_iff]
  split_ifs with h
  · simp [h, eq_comm]
  · simp [h]

/-! ## The fields -/

/-- Every size and rate field of the header is the exact integer, with no wrap. -/
structure WavParameters.ExactFields (p : WavParameters) : Prop where
  /-- The data size is the payload. -/
  data_size : p.header.data.header.Size.toNat = p.bytesInPayload
  /-- The RIFF size is the payload and the header after the first chunk header. -/
  riff_size : p.header.riff.header.Size.toNat = p.bytesInPayload + 36
  /-- The byte rate is the product of its factors. -/
  byte_rate : (p.header.fmt.ByteRate.toNat : ℤ) =
    p.num_channels * p.sample_rate.toInt * p.bytes_per_sample
  /-- The block alignment is the product of its factors. -/
  block_align : p.header.fmt.BlockAlign.toNat = p.num_channels * p.bytes_per_sample
  /-- The sample width in bits. -/
  bits_per_sample : p.header.fmt.BitsPerSample.toNat = 8 * p.bytes_per_sample

/-- The data size field, as the payload modulo `2^32`. -/
theorem WavParameters.data_size_toNat (p : WavParameters) :
    p.header.data.header.Size.toNat = p.bytesInPayload % 2^32 :=
  UInt32.toNat_ofNat'

/-- The RIFF size of a payload, modulo `2^32`. -/
theorem riffChunkSize_toNat (n : ℕ) : (riffChunkSize n).toNat = (n + 36) % 2^32 := by
  rw [riffChunkSize, UInt32.toNat_ofNat']
  rfl

/-- The byte rate of valid parameters is exact: the check bounds this product. -/
theorem WavParameters.Valid.byteRate_toNat {p : WavParameters} (h : p.Valid) :
    p.header.fmt.ByteRate.toNat = p.num_channels * toSizeT p.sample_rate * p.bytes_per_sample := by
  have hle := h.byteRate_le
  simp only [uint32Max] at hle
  show (byteRate _ _ _).toNat = _
  rw [byteRate, UInt32.toNat_ofNat', Nat.mod_eq_of_lt (by omega)]

/-- The width in bits of valid parameters is exact. -/
theorem WavParameters.Valid.bitsPerSample_toNat {p : WavParameters} (h : p.Valid) :
    p.header.fmt.BitsPerSample.toNat = 8 * p.bytes_per_sample := by
  have hb := bytes_of_formatAllows h.format_ok
  show (UInt16.ofNat _).toNat = _
  rw [UInt16.toNat_ofNat', Nat.mod_eq_of_lt (by omega)]

/-- The fields of an accepted header are exact exactly when the payload, which the check does not
bound for more than one channel, leaves room for the header in 32 bits, and the block alignment,
which it does not bound at all, fits 16 bits. -/
theorem writeWavHeader_exactFields_iff (p : WavParameters) (h : p.check = true) :
    p.ExactFields ↔
      p.num_channels * p.bytes_per_sample * p.num_samples + 36 < 2^32 ∧
        p.num_channels * p.bytes_per_sample < 2^16 := by
  have hv := p.check_iff.mp h
  have hriff : p.header.riff.header.Size.toNat = (p.bytesInPayload + 36) % 2^32 :=
    riffChunkSize_toNat _
  have halign : p.header.fmt.BlockAlign.toNat = p.num_channels * p.bytes_per_sample % 2^16 :=
    UInt16.toNat_ofNat'
  constructor
  · intro he
    -- A residue that equals the number is the number.
    have h1 := he.riff_size
    have h2 := he.block_align
    rw [hriff] at h1
    rw [halign] at h2
    unfold WavParameters.bytesInPayload at h1
    omega
  · rintro ⟨hpay, hblock⟩
    have hpay' : p.bytesInPayload + 36 < 2^32 := hpay
    exact
      { data_size := by rw [p.data_size_toNat, Nat.mod_eq_of_lt (by omega)]
        riff_size := by rw [hriff, Nat.mod_eq_of_lt hpay']
        byte_rate := by
          rw [hv.byteRate_toNat]
          push_cast
          rw [toSizeT_of_pos hv.rate_pos]
        block_align := by rw [halign, Nat.mod_eq_of_lt hblock]
        bits_per_sample := hv.bitsPerSample_toNat }

/-- One second of stereo at 48 kHz has exact fields. -/
theorem writeWavHeader_exactFields_stereo :
    (⟨2, 48000, .kWavFormatPcm, 2, 96000⟩ : WavParameters).ExactFields :=
  (writeWavHeader_exactFields_iff ⟨2, 48000, .kWavFormatPcm, 2, 96000⟩ (by decide)).mpr (by decide)

/-- Stereo with `2^30` samples passes the check, and its data size wraps to zero. -/
theorem writeWavHeader_truncates :
    (⟨2, 48000, .kWavFormatPcm, 2, 2^30⟩ : WavParameters).check = true ∧
      ¬(⟨2, 48000, .kWavFormatPcm, 2, 2^30⟩ : WavParameters).ExactFields := by
  refine ⟨by decide, fun h => ?_⟩
  have h := h.data_size
  rw [WavParameters.data_size_toNat] at h
  revert h
  decide

/-! ## The round trip -/

/-- A 32-bit field is read back from its bytes. -/
theorem ofNat_decode_encode32 (x : UInt32) : UInt32.ofNat (decode (encode 4 x.toNat)) = x := by
  have hx := x.toNat_lt
  rw [LittleEndian.decode_encode_of_lt (by omega), UInt32.ofNat_toNat]

/-- A 16-bit field is read back from its bytes. -/
theorem ofNat_decode_encode16 (x : UInt16) : UInt16.ofNat (decode (encode 2 x.toNat)) = x := by
  have hx := x.toNat_lt
  rw [LittleEndian.decode_encode_of_lt (by omega), UInt16.ofNat_toNat]

/-- A 32-bit field is read back from the slice that holds it. -/
theorem field32_of_slice {bs : List UInt8} {offset : ℕ} {x : UInt32}
    (h : (bs.drop offset).take 4 = encode 4 x.toNat) : field32 bs offset = x := by
  rw [field32, h, ofNat_decode_encode32]

/-- A 16-bit field is read back from the slice that holds it. -/
theorem field16_of_slice {bs : List UInt8} {offset : ℕ} {x : UInt16}
    (h : (bs.drop offset).take 2 = encode 2 x.toNat) : field16 bs offset = x := by
  rw [field16, h, ofNat_decode_encode16]

/-- Each slice of the front part is the field that the layout places there. -/
theorem WavHeader.frontBytes_slices (h : WavHeader) :
    (h.frontBytes.drop 0).take 4 = encode 4 h.riff.header.ID.toNat ∧
      (h.frontBytes.drop 4).take 4 = encode 4 h.riff.header.Size.toNat ∧
      (h.frontBytes.drop 8).take 4 = encode 4 h.riff.Format.toNat ∧
      (h.frontBytes.drop 12).take 4 = encode 4 h.fmt.header.ID.toNat ∧
      (h.frontBytes.drop 16).take 4 = encode 4 h.fmt.header.Size.toNat ∧
      (h.frontBytes.drop 20).take 2 = encode 2 h.fmt.AudioFormat.toNat ∧
      (h.frontBytes.drop 22).take 2 = encode 2 h.fmt.NumChannels.toNat ∧
      (h.frontBytes.drop 24).take 4 = encode 4 h.fmt.SampleRate.toNat ∧
      (h.frontBytes.drop 28).take 4 = encode 4 h.fmt.ByteRate.toNat ∧
      (h.frontBytes.drop 32).take 2 = encode 2 h.fmt.BlockAlign.toNat ∧
      (h.frontBytes.drop 34).take 2 = encode 2 h.fmt.BitsPerSample.toNat := by
  simp [WavHeader.frontBytes, ChunkHeader.toBytes, encode]

/-- The bytes of a header struct are read back as the same struct. -/
theorem WavHeader.ofBytes_toBytes (h : WavHeader) :
    WavHeader.ofBytes h.frontBytes h.data.header.toBytes = h := by
  obtain ⟨h0, h4, h8, h12, h16, h20, h22, h24, h28, h32, h34⟩ := h.frontBytes_slices
  have d0 : (h.data.header.toBytes.drop 0).take 4 = encode 4 h.data.header.ID.toNat := by
    simp [ChunkHeader.toBytes, encode]
  have d4 : (h.data.header.toBytes.drop 4).take 4 = encode 4 h.data.header.Size.toNat := by
    simp [ChunkHeader.toBytes, encode]
  unfold WavHeader.ofBytes
  rw [field32_of_slice h0, field32_of_slice h4, field32_of_slice h8, field32_of_slice h12,
    field32_of_slice h16, field16_of_slice h20, field16_of_slice h22, field32_of_slice h24,
    field32_of_slice h28, field16_of_slice h32, field16_of_slice h34, field32_of_slice d0,
    field32_of_slice d4]

@[simp] theorem WavHeader.frontBytes_length (h : WavHeader) : h.frontBytes.length = 36 := by
  simp [WavHeader.frontBytes, ChunkHeader.toBytes]

@[simp] theorem ChunkHeader.toBytes_length (h : ChunkHeader) : h.toBytes.length = 8 := by
  simp [ChunkHeader.toBytes]

/-- A header is 44 bytes long. -/
@[simp] theorem WavHeader.toBytes_length (h : WavHeader) : h.toBytes.length = kWavHeaderSize := by
  simp [WavHeader.toBytes, kWavHeaderSize]

/-- The size of the second chunk in the bytes of a header without the extension. -/
theorem WavHeader.fmtSize_frontBytes {h : WavHeader}
    (hsize : h.fmt.header.Size = UInt32.ofNat kFmtSubchunkSize) :
    (field32 h.frontBytes 16).toNat = kFmtSubchunkSize := by
  obtain ⟨-, -, -, -, h16, -⟩ := h.frontBytes_slices
  rw [field32_of_slice h16, hsize]
  rfl

/-- Reading the bytes of a header without the extension, with anything after them, parses its
struct and stops right after it. -/
theorem readWavHeader_toBytes (h : WavHeader) (post : List UInt8)
    (hsize : h.fmt.header.Size = UInt32.ofNat kFmtSubchunkSize) :
    readWavHeader byteSource (h.toBytes ++ post) = h.parse.map fun p => (p, post) := by
  -- The reads of 36 and of 8 bytes give the two parts of the struct.
  have hfront : (h.toBytes ++ post).take 36 = h.frontBytes := by
    rw [WavHeader.toBytes, List.append_assoc, List.take_left' h.frontBytes_length]
  have hrest : (h.toBytes ++ post).drop 36 = h.data.header.toBytes ++ post := by
    rw [WavHeader.toBytes, List.append_assoc, List.drop_left' h.frontBytes_length]
  have hfmt := WavHeader.fmtSize_frontBytes hsize
  have hdata : (h.data.header.toBytes ++ post).take 8 = h.data.header.toBytes :=
    List.take_left' h.data.header.toBytes_length
  have hpost : (h.data.header.toBytes ++ post).drop 8 = post :=
    List.drop_left' h.data.header.toBytes_length
  unfold readWavHeader
  simp only [byteSource, kWavHeaderSize, chunkHeaderSize, Nat.reduceSub, hfront, hrest, hdata,
    hpost, h.frontBytes_length, ChunkHeader.toBytes_length, readFmtExtension, hfmt, ne_eq,
    not_true_eq_false, if_false, h.ofBytes_toBytes]
  cases h.parse <;> rfl

/-- What the parser takes from a header that it accepts, and what it compares: the parameters are
made of the fields and pass the check, and the three dependent fields agree with them up to their
width. -/
structure WavHeader.Accepted (h : WavHeader) (p : WavParameters) : Prop where
  channels : p.num_channels = h.fmt.NumChannels.toNat
  bytes : p.bytes_per_sample = h.fmt.BitsPerSample.toNat / 8
  samples : p.num_samples = h.data.header.Size.toNat / p.bytes_per_sample
  riff_size : riffChunkSize h.data.header.Size.toNat ≤ h.riff.header.Size
  byte_rate : h.fmt.ByteRate = byteRate p.num_channels p.sample_rate p.bytes_per_sample
  block_align : h.fmt.BlockAlign = blockAlign p.num_channels p.bytes_per_sample
  check : p.check = true

/-- What the parser accepts. -/
theorem WavHeader.accepted {h : WavHeader} {p : WavParameters} (hp : h.parse = some p) :
    h.Accepted p := by
  unfold WavHeader.parse at hp
  dsimp only at hp
  split_ifs at hp with h1 h2 h3 h4 h5 h6 h7 h8 h9
  cases hp
  exact
    { channels := rfl
      bytes := rfl
      samples := rfl
      riff_size := UInt32.not_lt.mp h6
      byte_rate := not_not.mp h7
      block_align := not_not.mp h8
      check := h9 }

/-- The parameters that the parser accepts are valid. -/
theorem WavHeader.Accepted.valid {h : WavHeader} {p : WavParameters} (haccepted : h.Accepted p) :
    p.Valid := p.check_iff.mp haccepted.check

/-- What a reader that returns true has read: 36 bytes, the extension if there is one, and 8 bytes,
whose fields parse. -/
theorem readWavHeader_eq_some {σ : Type} {readable : ReadableWav σ} {s s' : σ} {p : WavParameters}
    (h : readWavHeader readable s = some (p, s')) :
    ∃ front s₁ s₂ data, readable.Read s 36 = (front, s₁) ∧ front.length = 36 ∧
      readFmtExtension readable (field32 front 16).toNat s₁ = some s₂ ∧
      readable.Read s₂ 8 = (data, s') ∧ data.length = 8 ∧
      (WavHeader.ofBytes front data).parse = some p := by
  unfold readWavHeader at h
  rcases hfront : readable.Read s (kWavHeaderSize - chunkHeaderSize) with ⟨front, s₁⟩
  rw [hfront] at h
  dsimp only at h
  by_cases hlen : front.length = kWavHeaderSize - chunkHeaderSize
  · rw [if_neg (by simp [hlen])] at h
    cases hext : readFmtExtension readable (field32 front 16).toNat s₁ with
    | none => simp [hext] at h
    | some s₂ =>
      rcases hdata : readable.Read s₂ chunkHeaderSize with ⟨data, s₃⟩
      simp only [hext, hdata] at h
      by_cases hlen' : data.length = chunkHeaderSize
      · rw [if_neg (by simp [hlen'])] at h
        cases hp : (WavHeader.ofBytes front data).parse with
        | none => simp [hp] at h
        | some q =>
          simp only [hp, Option.some.injEq, Prod.mk.injEq] at h
          obtain ⟨rfl, rfl⟩ := h
          exact ⟨front, s₁, s₂, data, hfront, hlen, hext, hdata, hlen', hp⟩
      · rw [if_pos hlen'] at h
        cases h
  · rw [if_pos hlen] at h
    cases h

/-- The parameters that a reader returns with true are valid. -/
theorem valid_of_readWavHeader {σ : Type} {readable : ReadableWav σ} {s s' : σ} {p : WavParameters}
    (h : readWavHeader readable s = some (p, s')) : p.Valid := by
  obtain ⟨front, s₁, s₂, data, -, -, -, -, -, hp⟩ := readWavHeader_eq_some h
  exact (WavHeader.accepted hp).valid

/-- The extension takes nothing from the source, or two bytes. -/
theorem readFmtExtension_length {fmt_size : ℕ} {s s' : List UInt8}
    (h : readFmtExtension byteSource fmt_size s = some s') : s'.length ≤ s.length := by
  unfold readFmtExtension byteSource at h
  dsimp only at h
  split_ifs at h
  · cases h
    simp
  · cases h
    exact le_rfl

/-- A header that is accepted is at least 44 bytes long, and the reader stops where it ends. -/
theorem readWavHeader_length {bs rest : List UInt8} {p : WavParameters}
    (h : readWavHeader byteSource bs = some (p, rest)) :
      rest.length + kWavHeaderSize ≤ bs.length := by
  obtain ⟨front, s₁, s₂, data, hfront, hlen, hext, hdata, hlen', -⟩ := readWavHeader_eq_some h
  have hle := readFmtExtension_length hext
  simp only [byteSource, Prod.mk.injEq] at hfront hdata
  obtain ⟨rfl, rfl⟩ := hfront
  obtain ⟨rfl, rfl⟩ := hdata
  rw [List.length_take] at hlen hlen'
  rw [List.length_drop] at hle ⊢
  simp only [kWavHeaderSize]
  omega

/-- The code of a format that allows some sample size is cast back to the format. -/
theorem WavFormat.ofCode_code {format : WavFormat} {bytes_per_sample : ℕ}
    (h : checkWavParameters.formatAllows format bytes_per_sample = true) :
    WavFormat.ofCode format.code = format := by
  cases format with
  | kWavFormatPcm => rfl
  | kWavFormatALaw => rfl
  | kWavFormatMuLaw => rfl
  | other code => simp [checkWavParameters.formatAllows] at h

/-- The size field of the RIFF chunk depends on the payload only modulo `2^32`. -/
theorem riffChunkSize_mod (n : ℕ) : riffChunkSize (n % 2^32) = riffChunkSize n := by
  apply UInt32.toNat_inj.mp
  rw [riffChunkSize_toNat, riffChunkSize_toNat]
  omega

/-- Parsing the header of valid parameters: every field agrees with the others, and the parameters
come back with the number of samples that the narrowed payload size stands for. -/
theorem WavParameters.Valid.parse_header {p : WavParameters} (h : p.Valid) :
    p.header.parse =
      let q := { p with num_samples := p.bytesInPayload % 2^32 / p.bytes_per_sample }
      if q.check then some q else none := by
  have hc := h.channels_le
  simp only [uint16Max] at hc
  have hb := bytes_of_formatAllows h.format_ok
  -- The fields that the parameters are made of.
  have hcode : WavFormat.ofCode p.header.fmt.AudioFormat = p.format :=
    WavFormat.ofCode_code h.format_ok
  have hchan : p.header.fmt.NumChannels.toNat = p.num_channels := by
    show (UInt16.ofNat _).toNat = _
    rw [UInt16.toNat_ofNat', Nat.mod_eq_of_lt (by omega)]
  have hrate : p.header.fmt.SampleRate.toInt32 = p.sample_rate := rfl
  have hbits : p.header.fmt.BitsPerSample.toNat / 8 = p.bytes_per_sample := by
    rw [h.bitsPerSample_toNat]
    omega
  -- The fields that are compared with what follows from the parameters.
  have hriff : p.header.riff.header.Size = riffChunkSize (p.bytesInPayload % 2^32) :=
    (riffChunkSize_mod _).symm
  have hbyte : p.header.fmt.ByteRate = byteRate p.num_channels p.sample_rate p.bytes_per_sample :=
    rfl
  have halign : p.header.fmt.BlockAlign = blockAlign p.num_channels p.bytes_per_sample := rfl
  have hR : readFourCC p.header.riff.header.ID = fourCC "RIFF" := by
    show readFourCC (writeFourCC 'R' 'I' 'F' 'F') = _
    decide
  have hW : readFourCC p.header.riff.Format = fourCC "WAVE" := by
    show readFourCC (writeFourCC 'W' 'A' 'V' 'E') = _
    decide
  have hf : readFourCC p.header.fmt.header.ID = fourCC "fmt " := by
    show readFourCC (writeFourCC 'f' 'm' 't' ' ') = _
    decide
  have hd : readFourCC p.header.data.header.ID = fourCC "data" := by
    show readFourCC (writeFourCC 'd' 'a' 't' 'a') = _
    decide
  unfold WavHeader.parse
  simp only [hcode, hchan, hrate, hbits, hR, hW, hf, hd, p.data_size_toNat, ne_eq,
    not_true_eq_false, if_false]
  rw [if_neg (by omega), if_neg (by rw [hriff]; exact UInt32.lt_irrefl _), if_neg (by simp [hbyte]),
    if_neg (by simp [halign])]
  rfl

/-- The samples that a narrowed payload stands for are the samples written exactly when the payload
of the other channels, which the writer adds, is a multiple of `2^32`. -/
theorem WavParameters.Valid.payload_samples_iff {p : WavParameters} (h : p.Valid) :
    p.bytesInPayload % 2^32 / p.bytes_per_sample = p.num_samples ↔
      2^32 ∣ (p.num_channels - 1) * p.bytes_per_sample * p.num_samples := by
  have hpos := h.channels_pos
  have hn := h.samples_le
  simp only [uint32Max] at hn
  obtain ⟨k, hk⟩ : ∃ k, p.num_channels = k + 1 := ⟨p.num_channels - 1, by omega⟩
  have hsplit : p.bytesInPayload =
      k * p.bytes_per_sample * p.num_samples + p.num_samples * p.bytes_per_sample := by
    rw [WavParameters.bytesInPayload, hk]
    ring
  rw [hk, Nat.add_sub_cancel, hsplit]
  -- With two bytes per sample the other channels' payload is even, so no byte is lost in halving.
  rcases bytes_of_formatAllows h.format_ok with hb | hb
  · rw [hb] at hn ⊢
    omega
  · rw [hb] at hn ⊢
    have heven : k * 2 * p.num_samples = 2 * (k * p.num_samples) := by ring
    rw [heven]
    omega

/-- A header is read back as the parameters that it was written from. -/
def WavParameters.RoundTrips (p : WavParameters) : Prop :=
  ∃ bs, writeWavHeader p = some bs ∧ bs.length = kWavHeaderSize ∧
    readWavHeader byteSource bs = some (p, [])

/-- The round trip gives back accepted parameters exactly when the payload of all channels but one
is a multiple of `2^32` bytes: the writer multiplies the sample count by the channel count, and the
reader does not divide by it. So it holds for one channel, and for no samples. -/
theorem readWavHeader_writeWavHeader_iff (p : WavParameters) (h : p.check = true) :
    p.RoundTrips ↔ 2^32 ∣ (p.num_channels - 1) * p.bytes_per_sample * p.num_samples := by
  have hv := p.check_iff.mp h
  have hread : readWavHeader byteSource p.header.toBytes =
      p.header.parse.map fun q => (q, []) := by
    have := readWavHeader_toBytes p.header [] rfl
    rwa [List.append_nil] at this
  rw [← hv.payload_samples_iff]
  constructor
  · rintro ⟨bs, hw, -, hr⟩
    obtain ⟨-, rfl⟩ := (writeWavHeader_eq_some_iff p bs).mp hw
    rw [hread, hv.parse_header] at hr
    dsimp only at hr
    split_ifs at hr with hq
    · simp only [Option.map_some, Option.some.injEq, Prod.mk.injEq, and_true] at hr
      exact congrArg WavParameters.num_samples hr
    · simp at hr
  · intro hs
    refine ⟨p.header.toBytes, (writeWavHeader_eq_some_iff p _).mpr ⟨hv, rfl⟩,
      p.header.toBytes_length, ?_⟩
    rw [hread, hv.parse_header]
    dsimp only
    rw [hs, if_pos h]
    rfl

/-- A mono header round trips. -/
theorem readWavHeader_writeWavHeader_mono :
    (⟨1, 16000, .kWavFormatPcm, 2, 16000⟩ : WavParameters).RoundTrips :=
  (readWavHeader_writeWavHeader_iff ⟨1, 16000, .kWavFormatPcm, 2, 16000⟩ (by decide)).mpr
    (by decide)

/-- Two stereo samples are read back as four. -/
theorem readWavHeader_writeWavHeader_stereo :
    (⟨2, 48000, .kWavFormatPcm, 2, 2⟩ : WavParameters).check = true ∧
      ¬(⟨2, 48000, .kWavFormatPcm, 2, 2⟩ : WavParameters).RoundTrips := by
  refine ⟨by decide, ?_⟩
  rintro ⟨bs, hw, -, hr⟩
  obtain ⟨-, rfl⟩ := (writeWavHeader_eq_some_iff _ bs).mp hw
  revert hr
  decide

end TgVoipRate.Wav
