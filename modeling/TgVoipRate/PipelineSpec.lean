import TgVoipRate.Pipeline
import TgVoipRate.Pesq.LoadSrcSpec
import TgVoipRate.Opus.DecodeSpec
import TgVoipRate.ResampleSpec

/-!
# How the calls of a run end

`opus_decode_mono_16khz` returns one where a stage fails, and one is true, so it returns true
whenever it returns (`opusDecodeMono16khz_ret`), and `main` goes on to measure whatever files have
the names. And the names are cut where the record has no more room, so that a longer name is not the
one that was written (`copiedPath_monoName_iff`).
-/

namespace TgVoipRate.Pipeline

open FileSystem (Path World)
open Pesq (suffix)

variable {S : Type}

/-! ## One input -/

/-- The name of the intermediate file of an input. -/
abbrev tmpName (input : Path) : Path := input ++ suffix "_dec_48khz_tmp.wav"

/-- A stage of an input returns false. -/
def StageFails (env : Environment S) (stage : ℕ) (w : World) (input : Path) : Prop :=
  (opusDecodeFile env stage w input (tmpName input)).2 = some false ∨
    ((opusDecodeFile env stage w input (tmpName input)).2 = some true ∧
      (resampleFile env (stage + 1) (opusDecodeFile env stage w input (tmpName input)).1
        (tmpName input) (monoName input) 16000 1).2 = some false)

/-- The call of `opus_decode_mono_16khz` that `main` makes for an input. -/
abbrev monoCall (env : Environment S) (stage : ℕ) (w : World) (input : Path) : World × MonoCall :=
  opusDecodeMono16khz env stage w input (monoName input)

/-- What the call records. -/
abbrev monoRecord (input : Path) (decode : Option Bool) (resample : Option (Option Bool))
    (ret : Option Bool) : MonoCall :=
  { input_filename := input, decoded_16khz_name := monoName input, decode, resample, ret }

/-- The five ways in which a call for an input ends. -/
theorem monoCall_cases (env : Environment S) (stage : ℕ) (w : World) (input : Path) :
    let decoded := opusDecodeFile env stage w input (tmpName input)
    let resampled :=
      resampleFile env (stage + 1) decoded.1 (tmpName input) (monoName input) 16000 1
    (decoded.2 = none ∧
        monoCall env stage w input = (decoded.1, monoRecord input none none none)) ∨
      (decoded.2 = some false ∧
        monoCall env stage w input =
          (decoded.1, monoRecord input (some false) none (some true))) ∨
      (decoded.2 = some true ∧ resampled.2 = none ∧
        monoCall env stage w input =
          (resampled.1, monoRecord input (some true) (some none) none)) ∨
      (decoded.2 = some true ∧ resampled.2 = some false ∧
        monoCall env stage w input =
          (resampled.1, monoRecord input (some true) (some (some false)) (some true))) ∨
      (decoded.2 = some true ∧ resampled.2 = some true ∧
        monoCall env stage w input =
          (resampled.1.remove (tmpName input),
            monoRecord input (some true) (some (some true)) (some true))) := by
  unfold monoCall opusDecodeMono16khz tmpName
  dsimp only
  generalize opusDecodeFile env stage w input (input ++ suffix "_dec_48khz_tmp.wav") = decoded
  rcases decoded with ⟨w', _ | _ | _⟩
  · exact .inl ⟨rfl, rfl⟩
  · exact .inr (.inl ⟨rfl, rfl⟩)
  · dsimp only
    generalize resampleFile env (stage + 1) w' (input ++ suffix "_dec_48khz_tmp.wav")
      (monoName input) 16000 1 = resampled
    rcases resampled with ⟨w'', _ | _ | _⟩
    · exact .inr (.inr (.inl ⟨rfl, rfl, rfl⟩))
    · exact .inr (.inr (.inr (.inl ⟨rfl, rfl, rfl⟩)))
    · exact .inr (.inr (.inr (.inr ⟨rfl, rfl, rfl⟩)))

/-- A call that returns, returns true: where a stage failed it returns one. -/
theorem opusDecodeMono16khz_ret (env : Environment S) (stage : ℕ) (w : World) (input : Path) :
    (monoCall env stage w input).2.ret = none ∨ (monoCall env stage w input).2.ret = some true := by
  rcases monoCall_cases env stage w input with
    ⟨-, hcall⟩ | ⟨-, hcall⟩ | ⟨-, -, hcall⟩ | ⟨-, -, hcall⟩ | ⟨-, -, hcall⟩ <;> rw [hcall]
  · exact .inl rfl
  · exact .inr rfl
  · exact .inl rfl
  · exact .inr rfl
  · exact .inr rfl

/-- A call succeeds in both stages exactly when it returns and no stage fails; a call that does not
return had no stage fail before. -/
theorem opusDecodeMono16khz_succeeded_iff (env : Environment S) (stage : ℕ) (w : World)
    (input : Path) :
    ((monoCall env stage w input).2.Succeeded ↔
        (monoCall env stage w input).2.ret ≠ none ∧ ¬StageFails env stage w input) ∧
      ((monoCall env stage w input).2.ret = none → ¬StageFails env stage w input) := by
  unfold StageFails MonoCall.Succeeded
  rcases monoCall_cases env stage w input with
    ⟨hdecode, hcall⟩ | ⟨hdecode, hcall⟩ | ⟨hdecode, hresample, hcall⟩ |
      ⟨hdecode, hresample, hcall⟩ | ⟨hdecode, hresample, hcall⟩ <;> rw [hcall, hdecode]
  · simp
  · simp
  all_goals simp [hresample]

/-- The name that the call was given for its result. -/
theorem opusDecodeMono16khz_name (env : Environment S) (stage : ℕ) (w : World) (input : Path) :
    (monoCall env stage w input).2.decoded_16khz_name = monoName input := by
  rcases monoCall_cases env stage w input with
    ⟨-, hcall⟩ | ⟨-, hcall⟩ | ⟨-, -, hcall⟩ | ⟨-, -, hcall⟩ | ⟨-, -, hcall⟩ <;> rw [hcall]

/-- A name is copied whole exactly when its argument is at most 497 bytes long. -/
theorem copiedPath_monoName_iff (arg : Path) : copiedPath (monoName arg) = monoName arg ↔
    arg.length ≤ 497 := by
  have hlen : (monoName arg).length = arg.length + 15 := by
    rw [monoName, List.length_append]
    rfl
  unfold copiedPath FILENAME_MAX pathNameSize
  rw [List.take_eq_self_iff, hlen]
  omega

/-! ## The measurement -/

/-- A measurement with a score opened both paths that it was given. -/
theorem pesqMeasure_opened {env : Environment S} {w : World} {ref_path deg_path : Path} {mos : S}
    (h : (pesqMeasure env w ref_path deg_path).2.2 = .score mos) :
    (pesqMeasure env w ref_path deg_path).2.1 = [ref_path, deg_path] := by
  unfold pesqMeasure at h ⊢
  dsimp only at h ⊢
  generalize loadFile env 0 w ref_path = ref at h ⊢
  rcases ref with ⟨w₁, _ | text, ref_info⟩
  · dsimp only at h ⊢
    generalize loadFile env 1 w₁ deg_path = deg at h ⊢
    rcases deg with ⟨w₂, _ | text, deg_info⟩
    · dsimp only at h ⊢
      split_ifs at h ⊢
      cases env.model ref_info deg_info with
      | none => rfl
      | some mos' =>
        dsimp only
        cases env.results mos' <;> rfl
    · cases h
  · cases h

/-- Where both files are loaded and long enough, the measurement ends as the acoustic model does. -/
theorem pesqMeasure_of_loaded {env : Environment S} {w : World} {ref_path deg_path : Path}
    (href : (loadFile env 0 w ref_path).2.1 = none)
    (hdeg : (loadFile env 1 (w.read ref_path) deg_path).2.1 = none)
    (hshort : tooShort (loadFile env 0 w ref_path).2.2 = false)
    (hshort' : tooShort (loadFile env 1 (w.read ref_path) deg_path).2.2 = false)
    (halloc : env.alloc_other = true) :
    (pesqMeasure env w ref_path deg_path).2.2 =
      match env.model (loadFile env 0 w ref_path).2.2
        (loadFile env 1 (w.read ref_path) deg_path).2.2 with
      | none => .exited
      | some mos => .score mos := by
  have hworld : (loadFile env 0 w ref_path).1 = w.read ref_path := rfl
  unfold pesqMeasure
  dsimp only
  rw [hworld, href]
  dsimp only
  rw [hdeg]
  dsimp only
  rw [hshort, hshort', halloc]
  simp only [Bool.or_self, Bool.false_eq_true, if_false, Bool.not_true]
  cases env.model (loadFile env 0 w ref_path).2.2
    (loadFile env 1 (w.read ref_path) deg_path).2.2 with
  | none => rfl
  | some mos =>
    dsimp only
    cases env.results mos <;> rfl

/-- What the end of a run prints is what the measurement gave. -/
theorem measureAndRemove_printed (env : Environment S) (w : World) (calls : List MonoCall)
    (in_wav_A in_wav_B : Path) (mos : S) :
    (measureAndRemove env w calls in_wav_A in_wav_B).printed = .score mos ↔
      (pesqMeasure env w (copiedPath in_wav_A) (copiedPath in_wav_B)).2.2 = .score mos := by
  unfold measureAndRemove
  rcases pesqMeasure env w (copiedPath in_wav_A) (copiedPath in_wav_B) with ⟨w', opened, measured⟩
  cases measured <;> simp

/-- The end of a run keeps the calls, and opened what the measurement opened. -/
theorem measureAndRemove_record (env : Environment S) (w : World) (calls : List MonoCall)
    (in_wav_A in_wav_B : Path) :
    (measureAndRemove env w calls in_wav_A in_wav_B).calls = calls ∧
      (measureAndRemove env w calls in_wav_A in_wav_B).opened =
        (pesqMeasure env w (copiedPath in_wav_A) (copiedPath in_wav_B)).2.1 := by
  unfold measureAndRemove
  rcases pesqMeasure env w (copiedPath in_wav_A) (copiedPath in_wav_B) with ⟨w', opened, measured⟩
  cases measured <;> exact ⟨rfl, rfl⟩

/-! ## The run -/

/-- Where the first call does not return, the run ends there. -/
theorem main_of_first_none {env : Environment S} {w : World} {A B : Path} (hA : A ≠ [])
    (hB : B ≠ []) (ha : (monoCall env 0 w A).2.ret = none) :
    main env w A B =
      { world := (monoCall env 0 w A).1, calls := [(monoCall env 0 w A).2], opened := [],
        printed := .nothing, ret := none } := by
  unfold main
  rw [if_neg (by simp [hA, hB])]
  dsimp only
  rw [ha]

/-- Where the second call does not return, the run ends there. -/
theorem main_of_second_none {env : Environment S} {w : World} {A B : Path} (hA : A ≠ [])
    (hB : B ≠ []) (ha : (monoCall env 0 w A).2.ret = some true)
    (hb : (monoCall env 2 (monoCall env 0 w A).1 B).2.ret = none) :
    main env w A B =
      { world := (monoCall env 2 (monoCall env 0 w A).1 B).1
        calls := [(monoCall env 0 w A).2, (monoCall env 2 (monoCall env 0 w A).1 B).2],
        opened := [], printed := .nothing, ret := none } := by
  unfold main
  rw [if_neg (by simp [hA, hB])]
  dsimp only
  rw [ha]
  dsimp only
  rw [hb]

/-- Where both calls return, the run goes on to the measurement. -/
theorem main_of_returns {env : Environment S} {w : World} {A B : Path} (hA : A ≠ []) (hB : B ≠ [])
    (ha : (monoCall env 0 w A).2.ret = some true)
    (hb : (monoCall env 2 (monoCall env 0 w A).1 B).2.ret = some true) :
    main env w A B =
      measureAndRemove env (monoCall env 2 (monoCall env 0 w A).1 B).1
        [(monoCall env 0 w A).2, (monoCall env 2 (monoCall env 0 w A).1 B).2] (monoName A)
        (monoName B) := by
  unfold main
  rw [if_neg (by simp [hA, hB])]
  dsimp only
  rw [ha]
  dsimp only
  rw [hb]

/-- A library, a system and a model without failures. -/
def benignEnvironment (op_open_file : List UInt8 → Option Opus.OggOpusFile) : Environment Unit where
  op_open_file := op_open_file
  output _ _ := some .perfect
  ffmpeg _ := Resample.equalRates
  load _ := Pesq.allSucceed
  alloc_other := true
  model _ _ := some ()
  results _ := none

/-- Two inputs, and no other file. -/
def twoInputs : World where
  files path := if path = suffix "a" ∨ path = suffix "b" then some [] else none
  log := []

/-- An environment in which no file is an Opus file. -/
abbrev noOpus : Environment Unit := benignEnvironment fun _ => none

end TgVoipRate.Pipeline
