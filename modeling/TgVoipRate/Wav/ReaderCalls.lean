import TgVoipRate.Wav.HeaderSound
import TgVoipRate.Wav.Reader

/-!
# Sequences of calls of the WAV reader

`WavReader::ReadSamples` in its two variants, with its checks: the one for `int16_t` reads once, the
one for `float` reads in chunks and converts. What a reader can still deliver is a list
(`FileReader.rest`), and both variants take the requested number of samples off its front
(`FileReader.ReadSamples_eq`, `readFloats_eq`). So a sequence of calls returns a prefix of the
payload, in whatever pieces it is asked for (`readSamples_payload`).
-/

namespace TgVoipRate.Wav

/-! ## The two variants -/

/-- A reader with the end-of-file flag of its handle. -/
structure FileReader extends WavReader where
  /-- `feof(file_handle_)` -/
  feof : Bool

/-- Opens a reader; none is a failed check. All reads of the header are complete, so that none of
them has reached the end of the file. -/
def FileReader.open (filename : Option (List UInt8)) : Option FileReader :=
  (WavReader.open filename).map fun reader => { reader with feof := false }

/-- `ReadSamples` for `int16_t`, with its checks: the samples that were read, or none where a check
fails. -/
def FileReader.ReadSamples (r : FileReader) (num_samples : ℕ) : Option (List Int16 × FileReader) :=
  let requested := min num_samples r.num_samples_remaining_
  let (samples, reader) := r.toWavReader.ReadSamples num_samples
  -- A read that asks for more bytes than are left sets the flag.
  let feof := r.feof || r.file_handle_.length < 2 * requested
  if ¬(samples.length = requested ∨ feof = true) then none
  else if ¬samples.length ≤ r.num_samples_remaining_ then none
  else some (samples, { reader with feof })

variable {F : Type*} (toFloat : Int16 → F)

/-- The samples of a chunk in the buffer of the variant for `float`. -/
def kChunksize : ℕ := 4096 / 2

/-- Stores samples at consecutive entries of a buffer. -/
def storeFloats : List Int16 → ℕ → (ℕ → F) → ℕ → F
  | [], _, samples => samples
  | x :: isamples, i, samples =>
    storeFloats isamples (i + 1) (Function.update samples i (toFloat x))

/-- The variables of the loop over the chunks. -/
structure FloatRead (F : Type*) where
  reader : FileReader
  samples : ℕ → F
  read : ℕ

/-- The loop over the chunks, from an entry of the buffer on. A request is at most as large as its
buffer, so that the entry does not wrap. -/
def readFloats (num_samples i : ℕ) (s : FloatRead F) : Option (FloatRead F) :=
  if i < num_samples then
    match s.reader.ReadSamples (min kChunksize (num_samples - i)) with
    | none => none
    | some (isamples, reader) =>
      readFloats num_samples (i + kChunksize)
        { reader
          samples := storeFloats toFloat isamples i s.samples
          read := s.read + isamples.length }
  else some s
termination_by num_samples - i
decreasing_by
  unfold kChunksize
  omega

/-- `ReadSamples` for `float`: the number of samples that were read, and the buffer. -/
def FileReader.ReadFloatSamples (r : FileReader) (num_samples : ℕ) (samples : ℕ → F) :
    Option (ℕ × (ℕ → F) × FileReader) :=
  (readFloats toFloat num_samples 0 { reader := r, samples, read := 0 }).map
    fun s => (s.read, s.samples, s.reader)

/-! ## Sequences of calls -/

/-- A call of one of the variants; the buffer of the variant for `float` is given with what it
holds. -/
inductive Request (F : Type*) where
  | int16 (num_samples : ℕ)
  | float (num_samples : ℕ) (samples : ℕ → F)

/-- The number of samples that a call asks for. -/
def Request.num_samples : Request F → ℕ
  | .int16 num_samples => num_samples
  | .float num_samples _ => num_samples

/-- What a call returns: the samples, as many as it says it has read, or that number and the
buffer. -/
inductive Reply (F : Type*) where
  | int16 (samples : List Int16)
  | float (read : ℕ) (samples : ℕ → F)

/-- One call. -/
def FileReader.serve (r : FileReader) : Request F → Option (Reply F × FileReader)
  | .int16 num_samples =>
    (r.ReadSamples num_samples).map fun (samples, r) => (.int16 samples, r)
  | .float num_samples buffer =>
    (r.ReadFloatSamples toFloat num_samples buffer).map
      fun (read, samples, r) => (.float read samples, r)

/-- One call after the other; none where a check fails. -/
def FileReader.serveAll : List (Request F) → FileReader → Option (List (Reply F) × FileReader)
  | [], r => some ([], r)
  | request :: requests, r =>
    match r.serve toFloat request with
    | none => none
    | some (reply, r) => (serveAll requests r).map fun (replies, r) => (reply :: replies, r)

/-- A call has delivered some samples: as its result, or at the front of its buffer, which is
otherwise as it was, with their number. -/
def Reply.Delivers : Request F → Reply F → List Int16 → Prop
  | .int16 _, .int16 samples, part => samples = part
  | .float _ buffer, .float read samples, part =>
    read = part.length ∧
      ∀ k, samples k = (part[k]?.map toFloat).getD (buffer k)
  | _, _, _ => False

/-- Each call has delivered its part. -/
inductive Served : List (Request F) → List (Reply F) → List (List Int16) → Prop
  | nil : Served [] [] []
  | cons {request requests reply replies part parts} :
    Reply.Delivers toFloat request reply part → Served requests replies parts →
    Served (request :: requests) (reply :: replies) (part :: parts)

/-- The pieces of a list in given sizes, as far as it reaches. -/
def pieces {α : Type*} : List ℕ → List α → List (List α)
  | [], _ => []
  | n :: ns, xs => xs.take n :: pieces ns (xs.drop n)

/-- The pieces make up the front of the list. -/
theorem pieces_flatten {α : Type*} (ns : List ℕ) (xs : List α) :
    (pieces ns xs).flatten = xs.take ns.sum := by
  induction ns generalizing xs with
  | nil => rfl
  | cons n ns ih => rw [pieces, List.flatten_cons, ih, List.sum_cons, List.take_add]

/-! ## What a reader can still deliver -/

/-- The samples that are declared, not yet read, and present in the file. -/
def FileReader.rest (r : FileReader) : List Int16 :=
  memSamples (min r.num_samples_remaining_ (r.file_handle_.length / 2)) r.file_handle_

/-- As many samples are read as were asked for. -/
@[simp] theorem memSamples_length (n : ℕ) (bs : List UInt8) : (memSamples n bs).length = n := by
  rw [memSamples, List.length_map, LittleEndian.decodeAll_length]

/-- The first ones of some samples. -/
theorem memSamples_take (m n : ℕ) (bs : List UInt8) :
    (memSamples n bs).take m = memSamples (min m n) bs := by
  rw [memSamples, ← List.map_take, LittleEndian.decodeAll_take, memSamples]

/-- The samples behind the first ones. -/
theorem memSamples_drop (m n : ℕ) (bs : List UInt8) :
    (memSamples n bs).drop m = memSamples (n - m) (bs.drop (2 * m)) := by
  rw [memSamples, ← List.map_drop, LittleEndian.decodeAll_drop, memSamples]

/-- The number of samples that a reader can still deliver. -/
theorem FileReader.rest_length (r : FileReader) :
    r.rest.length = min r.num_samples_remaining_ (r.file_handle_.length / 2) :=
  memSamples_length _ _

/-- The reader after a call. -/
def FileReader.afterRead (r : FileReader) (num_samples : ℕ) : FileReader :=
  { (r.toWavReader.ReadSamples num_samples).2 with
    feof := r.feof || r.file_handle_.length < 2 * min num_samples r.num_samples_remaining_ }

/-- No check fails, and the call takes the requested samples off the front. -/
theorem FileReader.ReadSamples_eq (r : FileReader) (num_samples : ℕ) :
    r.ReadSamples num_samples = some (r.rest.take num_samples, r.afterRead num_samples) := by
  have hsamples : (r.toWavReader.ReadSamples num_samples).1 = r.rest.take num_samples := by
    rw [FileReader.rest, memSamples_take, ← Nat.min_assoc]
    rfl
  have hlength := congrArg List.length hsamples
  rw [List.length_take, r.rest_length] at hlength
  -- Fewer samples than asked for are read only where the file ends.
  have hfeof : (r.toWavReader.ReadSamples num_samples).1.length =
      min num_samples r.num_samples_remaining_ ∨
      (r.feof || decide (r.file_handle_.length < 2 * min num_samples r.num_samples_remaining_)) =
        true := by
    rw [Bool.or_eq_true, decide_eq_true_eq, hlength]
    omega
  have hremaining : (r.toWavReader.ReadSamples num_samples).1.length ≤
      r.num_samples_remaining_ := by
    omega
  rw [← hsamples]
  unfold FileReader.ReadSamples
  dsimp only
  rw [if_neg (not_not.mpr hfeof), if_neg (not_not.mpr hremaining)]
  rfl

/-- What is declared and not yet read after a call. -/
theorem FileReader.afterRead_remaining (r : FileReader) (num_samples : ℕ) :
    (r.afterRead num_samples).num_samples_remaining_ =
      r.num_samples_remaining_ - (r.rest.take num_samples).length := by
  rw [FileReader.rest, memSamples_take, memSamples_length, ← Nat.min_assoc]
  rfl

/-- The bytes of the samples that are declared and not yet read, as far as the file reaches. -/
def FileReader.payload (r : FileReader) : List UInt8 :=
  r.file_handle_.take (2 * r.num_samples_remaining_)

/-- The samples that a reader can still deliver are those of its payload. -/
theorem FileReader.rest_length_eq (r : FileReader) : r.rest.length = r.payload.length / 2 := by
  rw [r.rest_length, FileReader.payload, List.length_take]
  omega

/-- A call takes the bytes of the requested samples off the payload. After a call that reads less
than it asked for, nothing is left. -/
theorem FileReader.afterRead_payload (r : FileReader) (num_samples : ℕ) :
    (r.afterRead num_samples).payload = r.payload.drop (2 * num_samples) := by
  have hremaining := r.afterRead_remaining num_samples
  rw [List.length_take, r.rest_length] at hremaining
  have hhandle : (r.afterRead num_samples).file_handle_ =
      r.file_handle_.drop (2 * min num_samples r.num_samples_remaining_) := rfl
  rw [FileReader.payload, hremaining, hhandle, FileReader.payload, List.drop_take]
  by_cases hshort : num_samples ≤ r.num_samples_remaining_ ∧
      2 * num_samples ≤ r.file_handle_.length
  · rw [Nat.min_eq_left hshort.1]
    congr 1
    omega
  · trans []
    · refine List.eq_nil_of_length_eq_zero ?_
      rw [List.length_take, List.length_drop]
      omega
    · refine (List.eq_nil_of_length_eq_zero ?_).symm
      rw [List.length_take, List.length_drop]
      omega

/-- The samples of a reader from its payload. -/
theorem FileReader.rest_eq (r : FileReader) :
    r.rest = memSamples (r.payload.length / 2) r.payload := by
  rw [← r.rest_length_eq, r.rest_length, FileReader.payload, memSamples,
    LittleEndian.decodeAll_of_take (by omega)]
  rfl

/-- A call takes the requested samples off what is left. -/
theorem FileReader.afterRead_rest (r : FileReader) (num_samples : ℕ) :
    (r.afterRead num_samples).rest = r.rest.drop num_samples := by
  rw [FileReader.rest_eq, FileReader.rest_eq r, afterRead_payload, memSamples_drop,
    List.length_drop]
  congr 1
  omega

/-! ## The variant for `float` -/

/-- Storing two lists one behind the other. -/
theorem storeFloats_append (xs ys : List Int16) (i : ℕ) (samples : ℕ → F) :
    storeFloats toFloat (xs ++ ys) i samples =
      storeFloats toFloat ys (i + xs.length) (storeFloats toFloat xs i samples) := by
  induction xs generalizing i samples with
  | nil => rfl
  | cons x xs ih =>
    rw [List.cons_append, storeFloats, storeFloats, ih, List.length_cons, Nat.add_right_comm]
    rfl

/-- What storing leaves in front of its first entry. -/
theorem storeFloats_of_lt (xs : List Int16) {i k : ℕ} (samples : ℕ → F) (h : k < i) :
    storeFloats toFloat xs i samples k = samples k := by
  induction xs generalizing i samples with
  | nil => rfl
  | cons x xs ih => rw [storeFloats, ih _ (by omega), Function.update_of_ne (by omega)]

/-- The buffer behind the entry where storing starts. -/
theorem storeFloats_add (xs : List Int16) (i k : ℕ) (samples : ℕ → F) :
    storeFloats toFloat xs i samples (i + k) = (xs[k]?.map toFloat).getD (samples (i + k)) := by
  induction xs generalizing i k samples with
  | nil => rfl
  | cons x xs ih =>
    rw [storeFloats]
    cases k with
    | zero =>
      rw [storeFloats_of_lt _ _ _ (by omega)]
      exact Function.update_self _ _ _
    | succ k =>
      have hnext : i + (k + 1) = i + 1 + k := by omega
      rw [hnext, ih, Function.update_of_ne (by omega), List.getElem?_cons_succ]

/-- The chunks together are the requested samples, stored one behind the other. After a chunk that
is shorter than asked for, nothing is left to read. -/
theorem readFloats_eq (num_samples i : ℕ) (s : FloatRead F) :
    ∃ s', readFloats toFloat num_samples i s = some s' ∧
      s'.samples = storeFloats toFloat (s.reader.rest.take (num_samples - i)) i s.samples ∧
      s'.read = s.read + (s.reader.rest.take (num_samples - i)).length ∧
      s'.reader.rest = s.reader.rest.drop (num_samples - i) := by
  induction i, s using readFloats.induct toFloat num_samples with
  | case1 i s hi hnone =>
    rw [FileReader.ReadSamples_eq] at hnone
    contradiction
  | case2 i s hi isamples reader hread ih =>
    rw [FileReader.ReadSamples_eq, Option.some.injEq, Prod.mk.injEq] at hread
    obtain ⟨rfl, rfl⟩ := hread
    obtain ⟨s', hs', hsamples, hcount, hrest'⟩ := ih
    have hchunk : num_samples - i =
        min kChunksize (num_samples - i) + (num_samples - (i + kChunksize)) := by
      omega
    have htake : s.reader.rest.take (num_samples - i) =
        s.reader.rest.take (min kChunksize (num_samples - i)) ++
          (s.reader.rest.drop (min kChunksize (num_samples - i))).take
            (num_samples - (i + kChunksize)) := by
      rw [← List.take_add, ← hchunk]
    -- Behind a full chunk the next one continues; behind any other there is none.
    have hplace : i + (s.reader.rest.take (min kChunksize (num_samples - i))).length =
        i + kChunksize ∨
        (s.reader.rest.drop (min kChunksize (num_samples - i))).take
          (num_samples - (i + kChunksize)) = [] := by
      rw [← List.length_eq_zero_iff, List.length_take, List.length_take, List.length_drop]
      omega
    dsimp only at hsamples hcount hrest'
    rw [FileReader.afterRead_rest] at hsamples hcount hrest'
    refine ⟨s', ?_, ?_, ?_, ?_⟩
    · rw [readFloats, if_pos hi, FileReader.ReadSamples_eq]
      exact hs'
    · rw [hsamples, htake, storeFloats_append]
      rcases hplace with hfull | hnil
      · rw [hfull]
      · rw [hnil]
        rfl
    · rw [hcount, htake, List.length_append, Nat.add_assoc]
    · rw [hrest', List.drop_drop, ← hchunk]
  | case3 i s hi =>
    have hzero : num_samples - i = 0 := by omega
    refine ⟨s, ?_, ?_⟩
    · rw [readFloats, if_neg hi]
    · rw [hzero]
      exact ⟨rfl, rfl, rfl⟩

/-- The variant for `float` takes the same samples off the front, and stores them at the front of
its buffer. -/
theorem FileReader.ReadFloatSamples_eq (r : FileReader) (num_samples : ℕ) (buffer : ℕ → F) :
    ∃ r', r.ReadFloatSamples toFloat num_samples buffer =
        some ((r.rest.take num_samples).length,
          storeFloats toFloat (r.rest.take num_samples) 0 buffer, r') ∧
      r'.rest = r.rest.drop num_samples := by
  obtain ⟨s', hs', hsamples, hread, hrest⟩ :=
    readFloats_eq toFloat num_samples 0 { reader := r, samples := buffer, read := 0 }
  refine ⟨s'.reader, ?_, hrest⟩
  rw [FileReader.ReadFloatSamples, hs', Option.map_some, hsamples, hread, Nat.zero_add]
  rfl

/-! ## What a sequence of calls returns -/

/-- One call of either variant delivers the front of what is left. -/
theorem FileReader.serve_eq (r : FileReader) (request : Request F) :
    ∃ reply r', r.serve toFloat request = some (reply, r') ∧
      reply.Delivers toFloat request (r.rest.take request.num_samples) ∧
      r'.rest = r.rest.drop request.num_samples := by
  cases request with
  | int16 num_samples =>
    refine ⟨.int16 (r.rest.take num_samples), r.afterRead num_samples, ?_, rfl,
      r.afterRead_rest num_samples⟩
    rw [FileReader.serve, FileReader.ReadSamples_eq]
    rfl
  | float num_samples buffer =>
    obtain ⟨r', hread, hrest⟩ := r.ReadFloatSamples_eq toFloat num_samples buffer
    have hentries (k : ℕ) : storeFloats toFloat (r.rest.take num_samples) 0 buffer k =
        ((r.rest.take num_samples)[k]?.map toFloat).getD (buffer k) := by
      have hentry := storeFloats_add toFloat (r.rest.take num_samples) 0 k buffer
      rwa [Nat.zero_add] at hentry
    refine ⟨.float (r.rest.take num_samples).length
      (storeFloats toFloat (r.rest.take num_samples) 0 buffer), r', ?_, ⟨rfl, hentries⟩, hrest⟩
    rw [FileReader.serve, hread]
    rfl

/-- A sequence of calls delivers the pieces of what is left. -/
theorem FileReader.serveAll_eq (requests : List (Request F)) (r : FileReader) :
    ∃ replies r', serveAll toFloat requests r = some (replies, r') ∧
      Served toFloat requests replies (pieces (requests.map Request.num_samples) r.rest) := by
  induction requests generalizing r with
  | nil => exact ⟨[], r, rfl, Served.nil⟩
  | cons request requests ih =>
    obtain ⟨reply, r', hserve, hdelivers, hrest⟩ := r.serve_eq toFloat request
    obtain ⟨replies, r'', hserveAll, hserved⟩ := ih r'
    rw [hrest] at hserved
    refine ⟨reply :: replies, r'', ?_, Served.cons hdelivers hserved⟩
    rw [serveAll, hserve]
    dsimp only
    rw [hserveAll]
    rfl

/-- The reader right after the header. -/
def FileReader.opened (p : WavParameters) (rest : List UInt8) : FileReader :=
  { num_channels_ := p.num_channels
    sample_rate_ := p.sample_rate
    num_samples_ := p.num_samples
    num_samples_remaining_ := p.num_samples
    file_handle_ := rest
    feof := false }

/-- It can deliver the samples that are declared and present. -/
theorem FileReader.opened_rest (p : WavParameters) (rest : List UInt8) :
    (FileReader.opened p rest).rest = memSamples (min p.num_samples (rest.length / 2)) rest :=
  rfl

/-- The reader of a file with a header that is accepted and declares 16-bit PCM. -/
theorem FileReader.open_of_header {file rest : List UInt8} {p : WavParameters}
    (h : readWavHeader byteSource file = some (p, rest)) (hformat : p.format = .kWavFormatPcm)
    (hbytes : p.bytes_per_sample = 2) :
    FileReader.open (some file) = some (FileReader.opened p rest) := by
  obtain ⟨num_channels, sample_rate, format, bytes_per_sample, num_samples⟩ := p
  subst hformat hbytes
  rw [FileReader.open, WavReader.open_of_header h]
  rfl

/-- Whatever the sizes of the requests and whichever variants they use, no check fails, and the
calls deliver, one after the other, the front of the payload: as many samples as are requested,
declared, and present in whole. -/
theorem readSamples_payload {file rest : List UInt8} {p : WavParameters}
    (h : readWavHeader byteSource file = some (p, rest)) (hformat : p.format = .kWavFormatPcm)
    (hbytes : p.bytes_per_sample = 2) (requests : List (Request F)) :
    ∃ r replies r' parts, FileReader.open (some file) = some r ∧
      FileReader.serveAll toFloat requests r = some (replies, r') ∧
      Served toFloat requests replies parts ∧
      parts = pieces (requests.map Request.num_samples)
        (memSamples (min p.num_samples (rest.length / 2)) rest) ∧
      parts.flatten =
        memSamples (min (requests.map Request.num_samples).sum
          (min p.num_samples (rest.length / 2))) rest := by
  obtain ⟨replies, r', hserveAll, hserved⟩ :=
    (FileReader.opened p rest).serveAll_eq toFloat requests
  refine ⟨_, replies, r', _, FileReader.open_of_header h hformat hbytes, hserveAll, hserved, rfl,
    ?_⟩
  rw [pieces_flatten, FileReader.opened_rest, memSamples_take]

/-- A file whose header declares three samples of mono, and which ends after two and a half. -/
def truncatedFile : List UInt8 :=
  (WavParameters.header ⟨1, 16000, .kWavFormatPcm, 2, 3⟩).toBytes ++ [1, 0, 2, 0, 3]

/-- The header of that file. -/
theorem readWavHeader_truncatedFile :
    readWavHeader byteSource truncatedFile =
      some (⟨1, 16000, .kWavFormatPcm, 2, 3⟩, [1, 0, 2, 0, 3]) := by
  rw [truncatedFile, readWavHeader_toBytes _ _ rfl]
  decide

/-- Its two samples, the second and what is missing being asked for in one call. -/
theorem readSamples_payload_truncated :
    ∃ r replies r' parts, FileReader.open (some truncatedFile) = some r ∧
      FileReader.serveAll Int16.toInt [.float 1 fun _ => 0, .int16 7] r = some (replies, r') ∧
      Served Int16.toInt [.float 1 fun _ => 0, .int16 7] replies parts ∧
      parts = [[1], [2]] ∧ parts.flatten = [1, 2] :=
  readSamples_payload Int16.toInt readWavHeader_truncatedFile rfl rfl
    [.float 1 fun _ => 0, .int16 7]

end TgVoipRate.Wav
