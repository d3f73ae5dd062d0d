import TgVoipRate.Resample

/-!
# When resampling preserves the duration

A call of `resample` that returns true went through every test (`resample_true`), and the file it
left is a header and the output buffer (`writeOutput_true`). The conversion is told of as many
samples as the reader counts over all channels, and the header and the file have the size of the
output buffer, whatever the conversion returned. So the duration is kept exactly for one channel and
a conversion that fills the buffer.
-/

namespace TgVoipRate.Resample

open OutStream (Device Stream)
open Wav (WavParameters WavHeader WavReader readWavHeader byteSource memBytes kWavHeaderSize)

/-- The size of an output buffer that was allocated: positive, and far below the largest `int`. -/
theorem avSamplesAlloc_nonneg {ff : FFmpeg} {n : ℤ} (h : ¬ff.avSamplesAlloc 1 n < 0) :
    0 < n ∧ n < 2^30 := by
  have hsize : ¬avSamplesGetBufferSize 1 n 0 < 0 := by
    intro hneg
    apply h
    unfold FFmpeg.avSamplesAlloc
    simp [hneg]
  unfold avSamplesGetBufferSize avSamplesGetBufferSize.lineSize averrorEinval ffAlign intMax
    at hsize
  split_ifs at hsize <;> omega

/-- A positive `int` as a `size_t`, as an integer. -/
theorem toSizeT_eq {x : Int32} (h : 0 < x.toInt) : (Wav.toSizeT x : ℤ) = x.toInt :=
  Wav.toSizeT_of_pos h

/-- The file that a successful end of the call leaves: a header that passed the check, which
declares the size of the output buffer, and the buffer, less what was lost at the close. -/
theorem writeOutput_true {out_file : Option Device} {rate channels : ℕ} {dst : Int32}
    {swr swr' : Conversion} {file : List UInt8}
    (h : writeOutput out_file rate channels dst swr =
      { swr := some swr', wav_file := some file, ret := some true }) :
    swr' = swr ∧ ∃ dev bytes, out_file = some dev ∧
      bytes = (WavParameters.header ⟨channels, Int32.ofNat rate, .kWavFormatPcm, 2,
          Wav.toSizeT dst⟩).toBytes ++ memBytes (swr.produced.takeD (Wav.toSizeT dst) 0) ∧
      file = bytes.take (bytes.length - dev.unflushed) := by
  unfold writeOutput at h
  split_ifs at h with hsize
  · cases h
  · cases hout : out_file with
    | none =>
      rw [hout] at h
      cases h
    | some dev =>
      simp only [hout] at h
      cases hhead : Wav.writeWavHeader
          ⟨channels, Int32.ofNat rate, .kWavFormatPcm, 2, Wav.toSizeT dst⟩ with
      | none => simp [hhead] at h
      | some wav_header =>
        obtain ⟨-, rfl⟩ := (Wav.writeWavHeader_eq_some_iff _ _).mp hhead
        simp only [hhead, Outcome.mk.injEq, Option.some.injEq, Bool.not_eq_true'] at h
        obtain ⟨hswr, hfile, hfail⟩ := h
        refine ⟨hswr.symm, dev, _, rfl, rfl, ?_⟩
        rw [← hfile]
        exact Stream.close_write_write hfail

/-- A file that the reader accepts: `F` complete frames of `c` channels at the rate `r`, which are
what the header declares. Anything may follow them. -/
structure AcceptedWav (file : List UInt8) (c F : ℕ) (r : Int32) (samples : List Int16) : Prop where
  /-- The header is read, and the samples follow it. -/
  header : ∃ post, readWavHeader byteSource file =
    some (⟨c, r, .kWavFormatPcm, 2, c * F⟩, memBytes samples ++ post)
  /-- The frames are complete. -/
  length : samples.length = c * F
  /-- One or two channels. -/
  channels : c = 1 ∨ c = 2
  /-- There is a frame. -/
  frames_pos : 0 < F

/-- The number of samples of a header that the reader accepts is below `2^31`. -/
theorem AcceptedWav.count_lt {file : List UInt8} {c F : ℕ} {r : Int32} {samples : List Int16}
    (h : AcceptedWav file c F r samples) : c * F < 2^31 := by
  obtain ⟨post, hread⟩ := h.header
  have hle := (Wav.valid_of_readWavHeader hread).samples_le
  simp only [Wav.uint32Max] at hle
  omega

/-- So it is unchanged by its conversion to `int`. -/
theorem AcceptedWav.toInt_count {file : List UInt8} {c F : ℕ} {r : Int32} {samples : List Int16}
    (h : AcceptedWav file c F r samples) : (Int32.ofNat (c * F)).toInt = ((c * F : ℕ) : ℤ) := by
  have hlt : ((c * F : ℕ) : ℤ) < 2^31 := by exact_mod_cast h.count_lt
  rw [Int32.toInt_ofNat']
  exact Int.bmod_eq_of_le (by simp only [Int32.size]; omega) (by simp only [Int32.size]; omega)

/-- The size of the output buffer for a number of samples. -/
def dstNbSamples (n rate : ℕ) (r : Int32) : Int32 :=
  Int32.ofInt (avRescaleRndUp n (Int64.ofNat rate).toInt r.toInt)

/-- What a call that returns true did: it told the conversion of as many samples as there are in all
channels, and wrote what the conversion produced from a buffer of the rescaled size. -/
theorem resample_true {ff : FFmpeg} {file out : List UInt8} {out_file : Option Device}
    {c F rate : ℕ} {r : Int32} {samples : List Int16} {swr : Conversion}
    (hin : AcceptedWav file c F r samples)
    (h : resample ff (some file) out_file rate 1 =
      { swr := some swr, wav_file := some out, ret := some true }) :
    swr.in_count = Int32.ofNat (c * F) ∧
      (0 < (dstNbSamples (c * F) rate r).toInt ∧ (dstNbSamples (c * F) rate r).toInt < 2^30) ∧
      (swr.produced.length : ℤ) ≤ (dstNbSamples (c * F) rate r).toInt ∧
      writeOutput out_file rate 1 (dstNbSamples (c * F) rate r) swr =
        { swr := some swr, wav_file := some out, ret := some true } := by
  obtain ⟨post, hread⟩ := hin.header
  unfold resample at h
  rw [WavReader.open_of_header hread] at h
  dsimp only at h
  generalize (if c = 2 then 2 else 1 : ℕ) = nb_channels at h
  -- The tests that end the call early cannot give its result.
  split_ifs at h with h1 h2 h3 h4 h5 h6
  all_goals try cases h
  split at h
  · cases h
  · obtain ⟨rfl, dev, bytes, -⟩ := writeOutput_true h
    exact ⟨rfl, avSamplesAlloc_nonneg h5, ff.swr_convert_le _ _ _ _ _ ‹_›, h⟩

/-- The centred residue of a number that is not negative does not exceed it. -/
theorem bmod_le {x : ℤ} (hx : 0 ≤ x) (m : ℕ) : x.bmod m ≤ x := by
  have hmod : x % m ≤ x := by
    obtain ⟨k, rfl⟩ := Int.eq_ofNat_of_zero_le hx
    exact_mod_cast Nat.mod_le k m
  rw [Int.bmod_eq_emod]
  split <;> omega

/-- The size of the output buffer is at most the exact quotient, rounded up, if it is positive. -/
theorem dstNbSamples_le {n rate : ℕ} {r : Int32} (hr : 0 < r.toInt)
    (h : 0 < (dstNbSamples n rate r).toInt) :
    (dstNbSamples n rate r).toInt ≤ (n * rate + (r.toInt - 1)) / r.toInt := by
  have hrate : (Int64.ofNat rate).toInt ≤ rate := by
    rw [Int64.toInt_ofNat']
    exact bmod_le (by omega) _
  unfold dstNbSamples at h ⊢
  rw [Int32.toInt_ofInt] at h ⊢
  unfold avRescaleRndUp at h ⊢
  dsimp only at h ⊢
  split_ifs at h ⊢ with hb
  · exact absurd h (by decide)
  · push Not at hb
    have hnum : (0 : ℤ) ≤ n * (Int64.ofNat rate).toInt :=
      Int.mul_nonneg (Int.natCast_nonneg n) hb.2.1
    have hle : (n : ℤ) * (Int64.ofNat rate).toInt ≤ n * rate :=
      Int.mul_le_mul_of_nonneg_left hrate (Int.natCast_nonneg n)
    calc Int.bmod ((n * (Int64.ofNat rate).toInt + (r.toInt - 1)) / r.toInt) Int32.size
        ≤ (n * (Int64.ofNat rate).toInt + (r.toInt - 1)) / r.toInt :=
          bmod_le (Int.ediv_nonneg (by omega) hr.le) _
      _ ≤ (n * rate + (r.toInt - 1)) / r.toInt := Int.ediv_le_ediv hr (by omega)

/-- The conversion was told of the frames of the input, it produced no more samples than the rates
allow, and the output is a mono file of exactly the samples it produced, with a header that declares
them. -/
def PreservesDuration (F rate : ℕ) (r : Int32) (swr : Conversion) (out : List UInt8) : Prop :=
  swr.in_count.toInt = F ∧
    (swr.produced.length : ℤ) ≤ (F * rate + (r.toInt - 1)) / r.toInt ∧
    out = (WavParameters.header ⟨1, Int32.ofNat rate, .kWavFormatPcm, 2,
      swr.produced.length⟩).toBytes ++ memBytes swr.produced

/-- Two mono files with a header of the same kind have the same number of declared samples. -/
theorem declared_inj {rate m n : ℕ} {as bs : List UInt8} (hm : 2 * m < 2^32) (hn : 2 * n < 2^32)
    (h : (WavParameters.header ⟨1, Int32.ofNat rate, .kWavFormatPcm, 2, m⟩).toBytes ++ as =
      (WavParameters.header ⟨1, Int32.ofNat rate, .kWavFormatPcm, 2, n⟩).toBytes ++ bs) :
        m = n := by
  have hlen : (WavParameters.header ⟨1, Int32.ofNat rate, .kWavFormatPcm, 2, m⟩).toBytes.length =
      (WavParameters.header ⟨1, Int32.ofNat rate, .kWavFormatPcm, 2, n⟩).toBytes.length := by
    rw [WavHeader.toBytes_length, WavHeader.toBytes_length]
  have hhead := Wav.WavHeader.toBytes_inj (List.append_inj h hlen).1
  have hsize := congrArg (fun h => h.data.header.Size.toNat) hhead
  simp only [WavParameters.data_size_toNat, WavParameters.bytesInPayload] at hsize
  omega

/-- A resampling that returns true preserves the duration exactly when nothing of the output was
lost at the close, the input has one channel, and the conversion filled the output buffer: the
input's samples of all channels are taken for samples per channel, and the whole buffer is written
and declared. -/
theorem resample_preservesDuration_iff (ff : FFmpeg) (file out : List UInt8) (dev : Device)
    (c F rate : ℕ) (r : Int32) (samples : List Int16) (swr : Conversion)
    (hin : AcceptedWav file c F r samples)
    (h : resample ff (some file) (some dev) rate 1 =
      { swr := some swr, wav_file := some out, ret := some true }) :
    PreservesDuration F rate r swr out ↔
      dev.unflushed = 0 ∧ c = 1 ∧ (swr.produced.length : ℤ) = (dstNbSamples F rate r).toInt := by
  obtain ⟨hcount, ⟨hpos, hlt⟩, hle, hout⟩ := resample_true hin h
  obtain ⟨-, dev', bytes, hdev, hbytes, hfile⟩ := writeOutput_true hout
  cases hdev
  have hsize := toSizeT_eq hpos
  generalize hdst : Wav.toSizeT (dstNbSamples (c * F) rate r) = dst at hbytes hsize
  have htake : (swr.produced.takeD dst 0).length = dst := List.takeD_length _ _ _
  have hlen : bytes.length = 44 + 2 * dst := by
    rw [hbytes, List.length_append, WavHeader.toBytes_length, Wav.memBytes_length, htake]
    rfl
  constructor
  · rintro ⟨hc, -, hexact⟩
    -- The count over all channels is the count per channel only for one channel.
    have hone : c = 1 := by
      have hF := hin.frames_pos
      rw [hcount, hin.toInt_count] at hc
      exact Nat.eq_of_mul_eq_mul_right hF (by omega)
    subst hone
    -- The file is a prefix of what was written, so its header is the one that was written.
    have hprefix : (WavParameters.header ⟨1, Int32.ofNat rate, .kWavFormatPcm, 2,
        swr.produced.length⟩).toBytes ++ memBytes swr.produced <+: bytes := by
      rw [← hexact, hfile]
      exact List.take_prefix _ _
    obtain ⟨lost, hlost⟩ := hprefix
    have hdeclared : swr.produced.length = dst := by
      rw [hbytes, List.append_assoc] at hlost
      exact declared_inj (by omega) (by omega) hlost
    -- It is as long as what was written, so nothing was lost.
    have hout := congrArg List.length hexact
    rw [hfile, List.length_take, List.length_append, WavHeader.toBytes_length,
      Wav.memBytes_length] at hout
    simp only [kWavHeaderSize] at hout
    rw [one_mul] at hsize
    exact ⟨by omega, rfl, by rw [← hsize, hdeclared]⟩
  · rintro ⟨hflushed, rfl, hfull⟩
    -- The buffer holds what was produced, and nothing else.
    rw [one_mul] at hsize hcount hpos hle
    have hdst : swr.produced.length = dst := by omega
    obtain ⟨post, hread⟩ := hin.header
    have hr : 0 < r.toInt := (Wav.valid_of_readWavHeader hread).rate_pos
    refine ⟨?_, le_trans hle (dstNbSamples_le hr hpos), ?_⟩
    · have hin' := hin.toInt_count
      rw [one_mul] at hin'
      rw [hcount, hin']
    · rw [hfile, hflushed, Nat.sub_zero, List.take_length, hbytes, ← hdst,
        List.takeD_eq_take 0 le_rfl, List.take_length]

/-- A library for a rate that is a multiple of the output's: memory is always there, and the
conversion takes every so many frames, mixes their channels and has no delay. -/
def takesEvery (factor : ℕ) : FFmpeg where
  swr_alloc := true
  swr_init := fun _ _ _ => 0
  av_malloc := fun _ => true
  swr_convert := fun channels input in_count out_count =>
    if out_count.toInt < 0 then none
    else
      let mix (i : ℕ) : ℤ := ((List.range channels).map fun ch =>
        (input.getD (factor * i * channels + ch) 0).toInt).sum / channels
      some (((List.range (in_count.toInt.toNat / factor)).map fun i => Int16.ofInt (mix i)).take
        out_count.toInt.toNat)
  swr_convert_le := by
    intro channels input in_count out_count output h
    split_ifs at h with hneg
    cases h
    rw [List.length_take]
    omega

/-- The first sample of a conversion from stereo is the mean of the first frame. -/
theorem takesEvery_stereo {factor : ℕ} (hfactor : 0 < factor) {left right : Int16}
    {rest : List Int16} {in_count out_count : Int32} (hin : (factor : ℤ) ≤ in_count.toInt)
    (hout : 0 < out_count.toInt) :
    ∃ output, (takesEvery factor).swr_convert 2 (left :: right :: rest) in_count out_count =
      some (Int16.ofInt ((left.toInt + right.toInt) / 2) :: output) := by
  obtain ⟨m, hm⟩ : ∃ m, in_count.toInt.toNat / factor = m + 1 :=
    Nat.exists_eq_add_one.mpr (Nat.div_pos (by omega) hfactor)
  obtain ⟨n, hn⟩ : ∃ n, out_count.toInt.toNat = n + 1 := Nat.exists_eq_add_one.mpr (by omega)
  have hmix : ((List.range 2).map fun ch =>
      ((left :: right :: rest).getD (factor * 0 * 2 + ch) 0).toInt).sum =
        left.toInt + right.toInt := by
    simp [List.range_succ]
  unfold takesEvery
  dsimp only
  rw [if_neg (not_lt.mpr hout.le), hm, hn, List.range_succ_eq_map (n := m), List.map_cons,
    List.take_succ_cons, hmix]
  exact ⟨_, rfl⟩

/-- A library at equal rates. -/
def equalRates : FFmpeg := takesEvery 1

/-- A mono file of two samples at 16 kHz. -/
def monoFile : List UInt8 :=
  (WavParameters.header ⟨1, 16000, .kWavFormatPcm, 2, 2⟩).toBytes ++ memBytes [300, -300]

/-- Resampling a mono file to its own rate preserves the duration. -/
theorem resample_preservesDuration_mono :
    PreservesDuration 2 16000 16000 { in_count := 2, produced := [300, -300] } monoFile :=
  (resample_preservesDuration_iff equalRates monoFile monoFile .perfect 1 2 16000 16000
    [300, -300] _
    { header := ⟨[], by decide⟩, length := rfl, channels := Or.inl rfl, frames_pos := by decide }
    (by decide)).mpr (by decide)

/-- A stereo file of one frame at 16 kHz. -/
def stereoFile : List UInt8 :=
  (WavParameters.header ⟨2, 16000, .kWavFormatPcm, 2, 1⟩).toBytes ++ memBytes [300, 300]

/-- Resampling a stereo frame to its own rate tells the conversion of two frames, and the output
holds two samples: the frame, and one of silence. -/
theorem resample_stereo_doubles :
    AcceptedWav stereoFile 2 1 16000 [300, 300] ∧ ∃ swr out,
      resample equalRates (some stereoFile) (some .perfect) 16000 1 =
        { swr := some swr, wav_file := some out, ret := some true } ∧
      ¬PreservesDuration 1 16000 16000 swr out := by
  refine ⟨{ header := ⟨[], by decide⟩, length := rfl, channels := Or.inr rfl,
            frames_pos := by decide },
    { in_count := 2, produced := [300, 0] },
    (WavParameters.header ⟨1, 16000, .kWavFormatPcm, 2, 2⟩).toBytes ++ memBytes [300, 0],
    by decide, fun h => ?_⟩
  exact absurd h.1 (by decide)

end TgVoipRate.Resample
