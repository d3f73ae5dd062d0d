import TgVoipRate.Wav.HeaderSpec

/-!
# What an accepted header says

The reader compares three fields of a header with values that it computes from others and narrows to
their width. The check of the parameters comes last, and bounds what was narrowed before: the sizes
and the byte rate of an accepted header are exact (`WavHeader.parse_riffSize`,
`WavHeader.parse_byteRate`). It does not bound the block alignment, and the number of samples that
it is given was rounded down. So an accepted header is well formed exactly if these two are exact
(`readWavHeader_wellFormed_iff`).
-/

namespace TgVoipRate.Wav

/-! ## The fields of an accepted header -/

section Parse

variable {h : WavHeader} {p : WavParameters}

/-- The data size of an accepted header is less than a sample above what its samples take. -/
theorem WavHeader.parse_dataSize (hp : h.parse = some p) :
    p.num_samples * p.bytes_per_sample ≤ h.data.header.Size.toNat ∧
      h.data.header.Size.toNat < p.num_samples * p.bytes_per_sample + p.bytes_per_sample := by
  have hb := bytes_of_formatAllows (h.accepted hp).valid.format_ok
  have hdiv := Nat.div_add_mod' h.data.header.Size.toNat p.bytes_per_sample
  have hmod := Nat.mod_lt h.data.header.Size.toNat (show 0 < p.bytes_per_sample by omega)
  rw [← (h.accepted hp).samples] at hdiv
  omega

/-- The RIFF size of an accepted header covers the header and the data: the sum does not wrap,
because the check leaves room for the header, and an odd size is one that is below the largest even
one. -/
theorem WavHeader.parse_riffSize (hp : h.parse = some p) :
    36 + h.data.header.Size.toNat ≤ h.riff.header.Size.toNat := by
  have hv := (h.accepted hp).valid
  have hle := hv.samples_le
  have hb := bytes_of_formatAllows hv.format_ok
  have hdata := (h.parse_dataSize hp).2
  have hsize : (riffChunkSize h.data.header.Size.toNat).toNat = h.data.header.Size.toNat + 36 := by
    rw [riffChunkSize_toNat, Nat.mod_eq_of_lt]
    simp only [uint32Max] at hle
    rcases hb with hb | hb <;> rw [hb] at hle hdata <;> omega
  have hnat := UInt32.le_iff_toNat_le.mp (h.accepted hp).riff_size
  omega

/-- The byte rate of an accepted header is the product of its factors. -/
theorem WavHeader.parse_byteRate (hp : h.parse = some p) :
    (h.fmt.ByteRate.toNat : ℤ) = p.num_channels * p.sample_rate.toInt * p.bytes_per_sample := by
  have hv := (h.accepted hp).valid
  have hexact := hv.byteRate_toNat
  calc (h.fmt.ByteRate.toNat : ℤ)
      = (p.header.fmt.ByteRate.toNat : ℤ) := by
        rw [(h.accepted hp).byte_rate]
        rfl
    _ = p.num_channels * toSizeT p.sample_rate * p.bytes_per_sample := by
        rw [hexact]
        push_cast
        rfl
    _ = p.num_channels * p.sample_rate.toInt * p.bytes_per_sample := by
        rw [toSizeT_of_pos hv.rate_pos]

/-- The block alignment of an accepted header, modulo its width. -/
theorem WavHeader.parse_blockAlign (hp : h.parse = some p) :
    h.fmt.BlockAlign.toNat = p.num_channels * p.bytes_per_sample % 2^16 := by
  rw [(h.accepted hp).block_align, blockAlign, UInt16.toNat_ofNat']

end Parse

/-! ## Well-formed headers -/

/-- A header that agrees with the parameters that were read from it, in exact arithmetic. -/
structure WavHeader.WellFormed (h : WavHeader) (p : WavParameters) : Prop where
  /-- The RIFF size covers the header and the data. -/
  riff_size : 36 + h.data.header.Size.toNat ≤ h.riff.header.Size.toNat
  /-- The byte rate is the product of its factors. -/
  byte_rate : (h.fmt.ByteRate.toNat : ℤ) =
    p.num_channels * p.sample_rate.toInt * p.bytes_per_sample
  /-- The block alignment is the product of its factors. -/
  block_align : h.fmt.BlockAlign.toNat = p.num_channels * p.bytes_per_sample
  /-- The data is made of complete samples. -/
  data_size : h.data.header.Size.toNat = p.num_samples * p.bytes_per_sample
  /-- The samples make complete frames. -/
  channels_dvd : p.num_channels ∣ p.num_samples
  /-- The parameters pass the check. -/
  check : p.check = true

/-- An accepted header is well formed exactly if the data is made of complete samples and the block
alignment fits its field. -/
theorem WavHeader.wellFormed_iff {h : WavHeader} {p : WavParameters} (hp : h.parse = some p) :
    h.WellFormed p ↔
      h.fmt.BitsPerSample.toNat / 8 ∣ h.data.header.Size.toNat ∧
        h.fmt.NumChannels.toNat * (h.fmt.BitsPerSample.toNat / 8) < 2^16 := by
  have haccepted := h.accepted hp
  have halign := h.parse_blockAlign hp
  rw [← haccepted.channels, ← haccepted.bytes]
  constructor
  · intro hwf
    have hblock := hwf.block_align
    refine ⟨⟨p.num_samples, ?_⟩, ?_⟩
    · rw [hwf.data_size, Nat.mul_comm]
    · omega
  · rintro ⟨hdvd, hfits⟩
    exact
      { riff_size := h.parse_riffSize hp
        byte_rate := h.parse_byteRate hp
        block_align := by rw [halign, Nat.mod_eq_of_lt hfits]
        data_size := by rw [haccepted.samples, Nat.div_mul_cancel hdvd]
        channels_dvd := haccepted.valid.channels_dvd
        check := haccepted.check }

/-! ## The reader -/

/-- The header that was read from a source: 36 bytes, the extension if there is one, and 8 bytes. -/
def ReadsHeader {σ : Type} (readable : ReadableWav σ) (s : σ) (header : WavHeader) (s' : σ) :
    Prop :=
  ∃ front s₁ s₂ data, readable.Read s 36 = (front, s₁) ∧ front.length = 36 ∧
    readFmtExtension readable (field32 front 16).toNat s₁ = some s₂ ∧
      readable.Read s₂ 8 = (data, s') ∧ data.length = 8 ∧ header = WavHeader.ofBytes front data

/-- A source gives one header. -/
theorem ReadsHeader.unique {σ : Type} {readable : ReadableWav σ} {s s₁ s₂ : σ}
    {header header' : WavHeader} (h : ReadsHeader readable s header s₁)
    (h' : ReadsHeader readable s header' s₂) : header = header' := by
  obtain ⟨front, t₁, t₂, data, hfront, -, hext, hdata, -, rfl⟩ := h
  obtain ⟨front', t₁', t₂', data', hfront', -, hext', hdata', -, rfl⟩ := h'
  obtain ⟨rfl, rfl⟩ := Prod.mk.inj (hfront.symm.trans hfront')
  obtain rfl := Option.some.inj (hext.symm.trans hext')
  obtain ⟨rfl, -⟩ := Prod.mk.inj (hdata.symm.trans hdata')
  rfl

/-- The bytes of a header without the extension give this header. -/
theorem readsHeader_toBytes (h : WavHeader) (post : List UInt8)
    (hsize : h.fmt.header.Size = UInt32.ofNat kFmtSubchunkSize) :
    ReadsHeader byteSource (h.toBytes ++ post) h post := by
  have hbytes : h.toBytes ++ post = h.frontBytes ++ (h.data.header.toBytes ++ post) :=
    List.append_assoc _ _ _
  have hfmt := WavHeader.fmtSize_frontBytes hsize
  refine ⟨h.frontBytes, h.data.header.toBytes ++ post, h.data.header.toBytes ++ post,
    h.data.header.toBytes, Prod.ext ?_ ?_, h.frontBytes_length, ?_, Prod.ext ?_ ?_,
    h.data.header.toBytes_length, h.ofBytes_toBytes.symm⟩
  · rw [hbytes]
    exact List.take_left' h.frontBytes_length
  · rw [hbytes]
    exact List.drop_left' h.frontBytes_length
  · rw [readFmtExtension, hfmt, if_neg (not_not.mpr rfl)]
  · exact List.take_left' h.data.header.toBytes_length
  · exact List.drop_left' h.data.header.toBytes_length

/-- Where the reader returns true, the header that it has read is well formed exactly if the data is
made of complete samples and the block alignment fits its field. -/
theorem readWavHeader_wellFormed_iff {σ : Type} (readable : ReadableWav σ) (s s' : σ)
    (p : WavParameters) (h : readWavHeader readable s = some (p, s')) :
    ∃ header, ReadsHeader readable s header s' ∧
      (header.WellFormed p ↔
        header.fmt.BitsPerSample.toNat / 8 ∣ header.data.header.Size.toNat ∧
          header.fmt.NumChannels.toNat * (header.fmt.BitsPerSample.toNat / 8) < 2^16) := by
  obtain ⟨front, s₁, s₂, data, hfront, hlen, hext, hdata, hlen', hp⟩ := readWavHeader_eq_some h
  exact ⟨_, ⟨front, s₁, s₂, data, hfront, hlen, hext, hdata, hlen', rfl⟩,
    WavHeader.wellFormed_iff hp⟩

/-- A header of mono at 16 kHz, with a data size. -/
def headerWithData (Size : UInt32) : WavHeader :=
  let header := WavParameters.header ⟨1, 16000, .kWavFormatPcm, 2, 1⟩
  { header with
    riff := { header.riff with header := { header.riff.header with Size := Size + 36 } }
    data := { header := { header.data.header with Size } } }

/-- The reader accepts a data size of two bytes, and one of three. -/
theorem readWavHeader_headerWithData {Size : UInt32} (h : Size = 2 ∨ Size = 3) :
    readWavHeader byteSource (headerWithData Size).toBytes =
      some (⟨1, 16000, .kWavFormatPcm, 2, 1⟩, []) := by
  have hread := readWavHeader_toBytes (headerWithData Size) [] rfl
  rw [List.append_nil] at hread
  rw [hread]
  rcases h with rfl | rfl <;> decide

/-- The header that is read from its bytes. -/
theorem readsHeader_headerWithData (Size : UInt32) :
    ReadsHeader byteSource (headerWithData Size).toBytes (headerWithData Size) [] := by
  have hreads := readsHeader_toBytes (headerWithData Size) [] rfl
  rwa [List.append_nil] at hreads

/-- One sample of two bytes. -/
theorem readWavHeader_wellFormed_mono :
    (headerWithData 2).WellFormed ⟨1, 16000, .kWavFormatPcm, 2, 1⟩ := by
  obtain ⟨header, hreads, hiff⟩ := readWavHeader_wellFormed_iff byteSource
    (headerWithData 2).toBytes [] _ (readWavHeader_headerWithData (Or.inl rfl))
  obtain rfl := hreads.unique (readsHeader_headerWithData 2)
  exact hiff.mpr (by decide)

/-- A data size of three bytes is accepted as one sample of two. -/
theorem readWavHeader_accepts_odd :
    readWavHeader byteSource (headerWithData 3).toBytes =
        some (⟨1, 16000, .kWavFormatPcm, 2, 1⟩, []) ∧
      ReadsHeader byteSource (headerWithData 3).toBytes (headerWithData 3) [] ∧
      ¬(headerWithData 3).WellFormed ⟨1, 16000, .kWavFormatPcm, 2, 1⟩ := by
  refine ⟨readWavHeader_headerWithData (Or.inr rfl), readsHeader_headerWithData 3, fun hwf => ?_⟩
  have hdata := hwf.data_size
  exact absurd hdata (by decide)

end TgVoipRate.Wav
