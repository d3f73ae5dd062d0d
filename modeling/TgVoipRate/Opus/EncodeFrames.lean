import TgVoipRate.Opus.Encode

/-!
# The frames of `opus_encode`

What the encoder is given is the payload of the file, cut into buffers of 960 bytes, where the last
buffer is completed by what the memory held (`inputFrames`). So the last frame is completed by zeros
exactly if there is nothing to complete or the memory was zero (`inputFrames_eq_zeroFilled_iff`).
-/

namespace TgVoipRate.Opus

open LittleEndian (encode decode)
open Wav (memBytes memSamples)

/-! ## Samples and their bytes -/

/-- The bytes of samples that were read. -/
theorem memBytes_memSamples {n : ℕ} {bs : List UInt8} (h : bs.length = 2 * n) :
    memBytes (memSamples n bs) = bs := by
  induction n generalizing bs with
  | zero =>
    rw [List.eq_nil_of_length_eq_zero h]
    rfl
  | succ n ih =>
    obtain _ | ⟨b₀, _ | ⟨b₁, bs⟩⟩ := bs
    · exact absurd h (by rw [List.length_nil]; omega)
    · exact absurd h (by rw [List.length_singleton]; omega)
    have hrest : bs.length = 2 * n := by
      rw [List.length_cons, List.length_cons] at h
      omega
    have hword : decode [b₀, b₁] < 2^16 := by
      have hlt := LittleEndian.decode_lt [b₀, b₁]
      rw [List.length_cons, List.length_singleton] at hlt
      omega
    have hsample : (UInt16.ofNat (decode [b₀, b₁])).toInt16.toUInt16.toNat = decode [b₀, b₁] := by
      rw [UInt16.toUInt16_toInt16, UInt16.toNat_ofNat', Nat.mod_eq_of_lt hword]
    have hbytes : encode 2 (decode [b₀, b₁]) = [b₀, b₁] := LittleEndian.encode_decode [b₀, b₁]
    have hsamples : memSamples (n + 1) (b₀ :: b₁ :: bs) =
        (UInt16.ofNat (decode [b₀, b₁])).toInt16 :: memSamples n bs := rfl
    have hcons (x : Int16) (xs : List Int16) :
        memBytes (x :: xs) = encode 2 x.toUInt16.toNat ++ memBytes xs := by
      rw [memBytes, List.map_cons, LittleEndian.encodeAll_cons, memBytes]
    rw [hsamples, hcons, hsample, hbytes, ih hrest]
    rfl

/-- The bytes of samples that are zero. -/
theorem memBytes_replicate_zero (n : ℕ) :
    memBytes (List.replicate n 0) = List.replicate (2 * n) 0 := by
  induction n with
  | zero => rfl
  | succ n ih =>
    have hsplit : memBytes (List.replicate (n + 1) 0) = [0, 0] ++ memBytes (List.replicate n 0) :=
      rfl
    rw [hsplit, ih]
    rfl

/-- Samples are zero exactly if their bytes are. -/
theorem memSamples_eq_zero_iff {n : ℕ} {bs : List UInt8} (h : bs.length = 2 * n) :
    memSamples n bs = List.replicate n 0 ↔ bs = List.replicate (2 * n) 0 := by
  constructor
  · intro hzero
    rw [← memBytes_memSamples h, hzero, memBytes_replicate_zero]
  · rintro rfl
    rw [← memBytes_replicate_zero]
    have hread := Wav.memSamples_memBytes (List.replicate n 0) []
    rwa [List.length_replicate, List.append_nil] at hread

/-- The samples of bytes that start with those of some samples. -/
theorem memSamples_memBytes_append (xs : List Int16) {n : ℕ} (hn : xs.length ≤ n)
    (bs : List UInt8) :
    memSamples n (memBytes xs ++ bs) = xs ++ memSamples (n - xs.length) bs := by
  have hfront : (memSamples n (memBytes xs ++ bs)).take xs.length = xs := by
    rw [Wav.memSamples_take, Nat.min_eq_left hn, Wav.memSamples_memBytes]
  have hback : (memSamples n (memBytes xs ++ bs)).drop xs.length =
      memSamples (n - xs.length) bs := by
    rw [Wav.memSamples_drop, List.drop_left' (Wav.memBytes_length xs)]
  rw [← List.take_append_drop xs.length (memSamples n _), hfront, hback]

/-! ## The frames -/

/-- A sample of the frame is the word of its two bytes. -/
theorem inSample_eq (pcm_bytes : ℕ → UInt8) (i : ℕ) :
    inSample pcm_bytes i =
      (UInt16.ofNat (decode [pcm_bytes (2 * i), pcm_bytes (2 * i + 1)])).toInt16 := by
  have hlow : (pcm_bytes (2 * i)).toNat < 2^8 := (pcm_bytes (2 * i)).toNat_lt
  have hword : (pcm_bytes (2 * i + 1)).toNat <<< 8 ||| (pcm_bytes (2 * i)).toNat <<< 0 =
      decode [pcm_bytes (2 * i), pcm_bytes (2 * i + 1)] := by
    rw [Nat.shiftLeft_zero, ← Nat.shiftLeft_add_eq_or_of_lt hlow, Nat.shiftLeft_eq]
    simp only [LittleEndian.decode_cons, LittleEndian.decode_nil]
    ring
  rw [inSample, hword]

/-- The conversion assigns every entry of the frame. -/
theorem convert_apply (pcm_bytes : ℕ → UInt8) {n i : ℕ} (h : i < n) (in_ : ℕ → Int16) :
    convert pcm_bytes n in_ i = inSample pcm_bytes i := by
  induction n with
  | zero => exact absurd h (Nat.not_lt_zero i)
  | succ n ih =>
    rw [convert]
    rcases Nat.lt_succ_iff_lt_or_eq.mp h with hlt | rfl
    · rw [Function.update_of_ne hlt.ne, ih hlt]
    · rw [Function.update_self]

/-- The bytes of a buffer that are converted. -/
def bufferBytes (bytes : List UInt8) (stale : ℕ → UInt8) : List UInt8 :=
  (List.range (2 * FRAME_SIZE)).map (pcmBuffer bytes stale)

/-- The frame that is made of bytes that were read and of what the memory held. -/
def inputFrame (bytes : List UInt8) (stale : ℕ → UInt8) : List Int16 :=
  memSamples FRAME_SIZE (bufferBytes bytes stale)

/-- The words of a list of pairs of bytes. -/
theorem memSamples_range (f : ℕ → UInt8) (n : ℕ) :
    memSamples n ((List.range (2 * n)).map f) =
      (List.range n).map fun i => (UInt16.ofNat (decode [f (2 * i), f (2 * i + 1)])).toInt16 := by
  induction n generalizing f with
  | zero => rfl
  | succ n ih =>
    have hbytes : (List.range (2 * (n + 1))).map f =
        f 0 :: f 1 :: (List.range (2 * n)).map fun i => f (i + 2) := by
      rw [Nat.mul_succ, List.range_succ_eq_map, List.map_cons, List.range_succ_eq_map]
      simp only [List.map_cons, List.map_map]
      rfl
    rw [hbytes, List.range_succ_eq_map, List.map_cons, List.map_map]
    exact congrArg (List.cons _) (ih fun i => f (i + 2))

/-- The frame does not depend on what the frame held before. -/
theorem frame_convert (bytes : List UInt8) (stale : ℕ → UInt8) (in_ : ℕ → Int16) :
    frame (convert (pcmBuffer bytes stale) FRAME_SIZE in_) = inputFrame bytes stale := by
  rw [inputFrame, bufferBytes, memSamples_range, frame]
  refine List.map_congr_left fun i hi => ?_
  rw [convert_apply _ (List.mem_range.mp hi), inSample_eq]

/-- Bytes that do not fill the buffer are completed by what the memory held. -/
theorem bufferBytes_of_le {bytes : List UInt8} (stale : ℕ → UInt8)
    (h : bytes.length ≤ 2 * FRAME_SIZE) :
    bufferBytes bytes stale =
      bytes ++ (List.range (2 * FRAME_SIZE - bytes.length)).map fun i =>
        stale (bytes.length + i) := by
  have hrange : List.range (2 * FRAME_SIZE) = List.range bytes.length ++
      (List.range (2 * FRAME_SIZE - bytes.length)).map (bytes.length + ·) := by
    rw [← List.range_add, Nat.add_sub_cancel' h]
  rw [bufferBytes, hrange, List.map_append, List.map_map]
  refine congrArg₂ (· ++ ·) ?_ ?_
  · refine List.ext_getElem (by simp) fun i hi hi' => ?_
    simp [pcmBuffer, hi']
  · refine List.map_congr_left fun i _ => ?_
    rw [Function.comp_apply, pcmBuffer, List.getElem?_eq_none (by omega), Option.getD_none]

/-- Only the first bytes are taken from more than the buffer holds. -/
theorem bufferBytes_take {bytes : List UInt8} (stale : ℕ → UInt8) {n : ℕ}
    (h : 2 * FRAME_SIZE ≤ n) : bufferBytes (bytes.take n) stale = bufferBytes bytes stale := by
  refine List.map_congr_left fun i hi => ?_
  rw [pcmBuffer, pcmBuffer, List.getElem?_take_of_lt (by rw [List.mem_range] at hi; omega)]

/-- The number of frames that some samples make. -/
def frameCount (num_samples : ℕ) : ℕ := (num_samples + FRAME_SIZE - 1) / FRAME_SIZE

/-- The frames of the payload of a file, from the number of a frame on. -/
def inputFrames (stale : ℕ → ℕ → UInt8) (k : ℕ) (payload : List UInt8) : List (List Int16) :=
  (List.range (frameCount (payload.length / 2))).map fun j =>
    inputFrame (payload.drop (2 * FRAME_SIZE * j)) (stale (k + j))

@[simp] theorem inputFrames_length (stale : ℕ → ℕ → UInt8) (k : ℕ) (payload : List UInt8) :
    (inputFrames stale k payload).length = frameCount (payload.length / 2) := by
  rw [inputFrames, List.length_map, List.length_range]

/-- Without a whole sample there is no frame. -/
theorem inputFrames_of_lt {payload : List UInt8} (h : payload.length / 2 = 0)
    (stale : ℕ → ℕ → UInt8) (k : ℕ) : inputFrames stale k payload = [] := by
  rw [inputFrames, h]
  rfl

/-- The first frame, and the others. -/
theorem inputFrames_cons {payload : List UInt8} (h : payload.length / 2 ≠ 0)
    (stale : ℕ → ℕ → UInt8) (k : ℕ) :
    inputFrames stale k payload =
      inputFrame payload (stale k) ::
        inputFrames stale (k + 1) (payload.drop (2 * FRAME_SIZE)) := by
  have hcount : frameCount (payload.length / 2) =
      frameCount ((payload.drop (2 * FRAME_SIZE)).length / 2) + 1 := by
    rw [List.length_drop]
    simp only [frameCount, FRAME_SIZE]
    omega
  rw [inputFrames, hcount, List.range_succ_eq_map, List.map_cons, List.map_map, Nat.mul_zero,
    List.drop_zero, Nat.add_zero, inputFrames]
  refine congrArg _ (List.map_congr_left fun j _ => ?_)
  rw [Function.comp_apply, List.drop_drop, Nat.mul_succ, Nat.add_comm (2 * FRAME_SIZE * j),
    Nat.add_right_comm, Nat.add_assoc k]

/-! ## Frames completed with zeros -/

/-- The first samples of a list as a frame, completed with zeros. -/
def zeroFilled (xs : List Int16) : List Int16 :=
  xs.take FRAME_SIZE ++ List.replicate (FRAME_SIZE - xs.length) 0

/-- The frames of some samples, the last one completed with zeros. -/
def zeroFilledFrames (xs : List Int16) : List (List Int16) :=
  (List.range (frameCount xs.length)).map fun k => zeroFilled (xs.drop (FRAME_SIZE * k))

/-- The bytes of the samples behind the first ones. -/
theorem memBytes_drop (xs : List Int16) (n : ℕ) :
    (memBytes xs).drop (2 * n) = memBytes (xs.drop n) := by
  rcases Nat.le_total n xs.length with h | h
  · nth_rewrite 1 [← List.take_append_drop n xs]
    rw [Wav.memBytes_append, List.drop_left']
    rw [Wav.memBytes_length, List.length_take, Nat.min_eq_left h]
  · rw [List.drop_eq_nil_of_le h, List.drop_eq_nil_of_le (by rw [Wav.memBytes_length]; omega)]
    rfl

/-- The bytes of the first samples. -/
theorem memBytes_take (xs : List Int16) (n : ℕ) :
    (memBytes xs).take (2 * n) = memBytes (xs.take n) := by
  rcases Nat.le_total n xs.length with h | h
  · nth_rewrite 1 [← List.take_append_drop n xs]
    rw [Wav.memBytes_append, List.take_left']
    rw [Wav.memBytes_length, List.length_take, Nat.min_eq_left h]
  · rw [List.take_of_length_le h, List.take_of_length_le (by rw [Wav.memBytes_length]; omega)]

/-- A frame is the first samples, and behind them samples of what the memory held. -/
theorem inputFrame_memBytes (xs : List Int16) (stale : ℕ → UInt8) :
    inputFrame (memBytes xs) stale = xs.take FRAME_SIZE ++
      memSamples (FRAME_SIZE - xs.length)
        ((List.range (2 * (FRAME_SIZE - xs.length))).map fun i => stale (2 * xs.length + i)) := by
  rcases Nat.le_total xs.length FRAME_SIZE with h | h
  · rw [inputFrame, bufferBytes_of_le stale (by rw [Wav.memBytes_length]; omega),
      memSamples_memBytes_append xs h, List.take_of_length_le h, Wav.memBytes_length,
      Nat.mul_sub]
  · have hlen : (xs.take FRAME_SIZE).length = FRAME_SIZE := by
      rw [List.length_take, Nat.min_eq_left h]
    have hsamples := memSamples_memBytes_append (xs.take FRAME_SIZE) hlen.le []
    rw [hlen, Nat.sub_self] at hsamples
    rw [inputFrame, ← bufferBytes_take stale (Nat.le_refl _), memBytes_take,
      bufferBytes_of_le stale (by rw [Wav.memBytes_length, hlen]), Wav.memBytes_length, hlen,
      Nat.sub_self, Nat.sub_eq_zero_of_le h]
    exact hsamples

/-- A frame is the first samples completed with zeros exactly if there is nothing to complete or the
memory was zero there. -/
theorem inputFrame_eq_zeroFilled_iff (xs : List Int16) (stale : ℕ → UInt8) :
    inputFrame (memBytes xs) stale = zeroFilled xs ↔
      ∀ i, 2 * xs.length ≤ i → i < 2 * FRAME_SIZE → stale i = 0 := by
  rw [inputFrame_memBytes, zeroFilled, List.append_cancel_left_eq,
    memSamples_eq_zero_iff (by rw [List.length_map, List.length_range]),
    List.eq_replicate_iff, List.length_map, List.length_range, and_iff_right rfl]
  constructor
  · intro hzero i hi hlt
    have hmem := hzero (stale i) (List.mem_map.mpr ⟨i - 2 * xs.length, ?_, ?_⟩)
    · exact hmem
    · rw [List.mem_range]
      omega
    · rw [Nat.add_sub_cancel' hi]
  · intro hstale b hb
    obtain ⟨i, hi, rfl⟩ := List.mem_map.mp hb
    rw [List.mem_range] at hi
    exact hstale _ (Nat.le_add_right _ _) (by omega)

/-- The frames of a file are its samples completed with zeros exactly if the samples fill the last
frame, or the memory behind them was zero in that frame. -/
theorem inputFrames_eq_zeroFilled_iff (xs : List Int16) (stale : ℕ → ℕ → UInt8) :
    inputFrames stale 0 (memBytes xs) = zeroFilledFrames xs ↔
      FRAME_SIZE ∣ xs.length ∨
        ∀ i, 2 * (xs.length % FRAME_SIZE) ≤ i → i < 2 * FRAME_SIZE →
          stale (xs.length / FRAME_SIZE) i = 0 := by
  have hframe (k : ℕ) :
      inputFrame ((memBytes xs).drop (2 * FRAME_SIZE * k)) (stale (0 + k)) =
          zeroFilled (xs.drop (FRAME_SIZE * k)) ↔
        ∀ i, 2 * (xs.length - FRAME_SIZE * k) ≤ i → i < 2 * FRAME_SIZE → stale k i = 0 := by
    rw [Nat.mul_assoc, memBytes_drop, Nat.zero_add, inputFrame_eq_zeroFilled_iff,
      List.length_drop]
  have hlast : xs.length - FRAME_SIZE * (xs.length / FRAME_SIZE) = xs.length % FRAME_SIZE := by
    have hdiv := Nat.div_add_mod xs.length FRAME_SIZE
    omega
  rw [inputFrames, zeroFilledFrames, Wav.memBytes_length,
    Nat.mul_div_cancel_left _ Nat.zero_lt_two, List.map_inj_left]
  constructor
  · intro hall
    by_cases hdvd : FRAME_SIZE ∣ xs.length
    · exact Or.inl hdvd
    · have hmem : xs.length / FRAME_SIZE < frameCount xs.length := by
        rw [Nat.dvd_iff_mod_eq_zero] at hdvd
        simp only [frameCount, FRAME_SIZE] at hdvd ⊢
        omega
      have hzero := (hframe _).mp (hall _ (List.mem_range.mpr hmem))
      rw [hlast] at hzero
      exact Or.inr hzero
  · intro hfill k hk
    rw [hframe]
    intro i hi hlt
    -- Only the last frame can be completed, and only if the samples do not fill it.
    have hkeq : k = xs.length / FRAME_SIZE ∧ ¬FRAME_SIZE ∣ xs.length := by
      rw [List.mem_range] at hk
      rw [Nat.dvd_iff_mod_eq_zero]
      simp only [frameCount, FRAME_SIZE] at *
      omega
    obtain ⟨rfl, hdvd⟩ := hkeq
    rw [hlast] at hi
    exact hfill.resolve_left hdvd i hi hlt

end TgVoipRate.Opus
