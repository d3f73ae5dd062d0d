import TgVoipRate.PipelineInput

/-!
# What is measured

A run from its Opus files to the acoustic model. If nothing around it fails, a run with two Opus
files that declare their frames prints a score and leaves no trace but the row of results
(`main_succeeds`). And what is measured is the declared part of each input, followed by as much
silence (`main_measures`).
-/

namespace TgVoipRate.Pipeline

open FileSystem (Path World)
open Pesq (LoadsSamples SignalInfo rate_16k resampledHeader suffix)
open Resample (FFmpeg)
open Opus (OggOpusFile)
open Wav (WavHeader memBytes)

section Run

variable {S : Type} {env : Environment S}

/-- Behind a measurement with a score, both files were loaded and the model gave the score. -/
theorem model_of_score {w : World} {ref_path deg_path : Path} {mos : S}
    (h : (pesqMeasure env w ref_path deg_path).2.2 = .score mos) :
    (loadFile env 0 w ref_path).2.1 = none ∧ (loadFile env 1 w deg_path).2.1 = none ∧
      tooShort (loadFile env 0 w ref_path).2.2 = false ∧
      tooShort (loadFile env 1 w deg_path).2.2 = false ∧
      env.model (loadFile env 0 w ref_path).2.2 (loadFile env 1 w deg_path).2.2 = some mos := by
  -- Loading a signal changes no file.
  have hdeg : (loadFile env 1 w deg_path).2 =
      (loadFile env 1 (loadFile env 0 w ref_path).1 deg_path).2 := rfl
  unfold pesqMeasure at h
  rw [hdeg]
  dsimp only at h
  generalize loadFile env 0 w ref_path = ref at h ⊢
  generalize loadFile env 1 ref.1 deg_path = deg at h ⊢
  rcases ref with ⟨w₁, _ | text, ref_info⟩
  · rcases deg with ⟨w₂, _ | text, deg_info⟩
    · dsimp only at h ⊢
      split_ifs at h with hshort
      rw [Bool.or_eq_true, not_or, Bool.not_eq_true, Bool.not_eq_true] at hshort
      cases hmodel : env.model ref_info deg_info with
      | none =>
        rw [hmodel] at h
        cases h
      | some mos' =>
        rw [hmodel] at h
        dsimp only at h
        cases hresults : env.results mos' with
        | none =>
          rw [hresults] at h
          cases h
          exact ⟨rfl, rfl, hshort.1, hshort.2, rfl⟩
        | some row =>
          rw [hresults] at h
          cases h
          exact ⟨rfl, rfl, hshort.1, hshort.2, rfl⟩
    · cases h
  · cases h

/-- In a run that prints a score, both calls returned. -/
theorem returns_of_printed {w : World} {A B : Path} {mos : S}
    (h : (main env w A B).printed = .score mos) :
    (A ≠ [] ∧ B ≠ []) ∧ (monoCall env 0 w A).2.ret = some true ∧
      (monoCall env 2 (afterFirst env w A) B).2.ret = some true := by
  have hnonempty : A ≠ [] ∧ B ≠ [] := by
    by_contra hempty
    unfold main at h
    rw [if_pos (by tauto)] at h
    cases h
  obtain ⟨hA, hB⟩ := hnonempty
  rcases opusDecodeMono16khz_ret env 0 w A with ha | ha
  · rw [main_of_first_none hA hB ha] at h
    cases h
  rcases opusDecodeMono16khz_ret env 2 (afterFirst env w A) B with hb | hb
  · rw [main_of_second_none hA hB ha hb] at h
    cases h
  exact ⟨⟨hA, hB⟩, ha, hb⟩

/-- A score that is printed is that of the measurement. -/
theorem measurement_of_printed {w : World} {A B : Path} {mos : S}
    (h : (main env w A B).printed = .score mos) : (measurement env w A B).2.2 = .score mos := by
  obtain ⟨⟨hA, hB⟩, ha, hb⟩ := returns_of_printed h
  rw [main_of_returns hA hB ha hb] at h
  exact (measureAndRemove_printed _ _ _ _ _ _).mp h

/-- A loaded file that a resampling wrote has the samples that it wrote. -/
theorem loadFile_samples {signal : ℕ} {w : World} {input : Path} {samples : List Int16}
    (hload : (env.load signal).Succeeds)
    (hfile : w.files (monoName input) =
      some ((resampledHeader samples.length).toBytes ++ memBytes samples))
    (hsize : samples.length < 2^63) :
    LoadsSamples rate_16k samples (loadFile env signal w (monoName input)).2 := by
  have hloaded : (loadFile env signal w (monoName input)).2 =
      Pesq.load_src (env.load signal) rate_16k
        (some ((resampledHeader samples.length).toBytes ++ memBytes samples))
        (SignalInfo.named (monoName input)) := by
    rw [← hfile]
    rfl
  have hpath : (input ++ suffix "_mono_16khz") ++ suffix ".wav" = monoName input :=
    List.append_assoc input (suffix "_mono_16khz") (suffix ".wav")
  have hne : input ++ suffix "_mono_16khz" ≠ [] := fun h =>
    absurd (List.append_eq_nil_iff.mp h).2 (by decide)
  rw [hloaded]
  exact Pesq.load_src_behind_header hload rfl hpath hne (WavHeader.toBytes_length _) hsize

/-- A file is loaded without an error only if the calls around it succeed. -/
theorem load_succeeds {signal : ℕ} {w : World} {path : Path} {file : List UInt8}
    (hfile : w.files path = some file) (hnone : (loadFile env signal w path).2.1 = none) :
    (env.load signal).Succeeds := by
  have hloaded : (loadFile env signal w path).2 = Pesq.load_src (env.load signal) rate_16k
      (some file) (SignalInfo.named path) := by
    rw [← hfile]
    rfl
  rw [hloaded] at hnone
  exact Pesq.load_src_succeeds hnone

/-- Fewer samples are converted than an `int` has values. -/
theorem ConvertedFrom.length_lt {ff : FFmpeg} {of : OggOpusFile} {samples : List Int16}
    (h : ConvertedFrom ff of samples) : samples.length < 2^63 := by
  have hdeclared : declaredFrames of < 2^30 := Nat.mod_lt _ (by decide)
  rw [h.length_eq]
  omega

/-- Where both calls succeed, the first one leaves the second input alone, so that both are
converted from the files that were there before the run. -/
theorem converted_of_succeeded {w : World} {A B : Path} (htmp : B ≠ tmpName A)
    (hmono : B ≠ monoName A)
    (houtput : ∀ stage path dev, env.output stage path = some dev → dev.unflushed = 0)
    (ha : (monoCall env 0 w A).2.Succeeded)
    (hb : (monoCall env 2 (afterFirst env w A) B).2.Succeeded) :
    ∃ ofA ofB ref deg,
      (w.files A).bind env.op_open_file = some ofA ∧
      (w.files B).bind env.op_open_file = some ofB ∧
      ConvertedFrom (env.ffmpeg 1) ofA ref ∧ ConvertedFrom (env.ffmpeg 3) ofB deg ∧
      (A ≠ B → (afterSecond env w A B).files (monoName A) =
        some ((resampledHeader ref.length).toBytes ++ memBytes ref)) ∧
      (afterSecond env w A B).files (monoName B) =
        some ((resampledHeader deg.length).toBytes ++ memBytes deg) := by
  obtain ⟨ofA, ref, hofA, href, hfileA⟩ := monoCall_converted houtput ha
  obtain ⟨ofB, deg, hofB, hdeg, hfileB⟩ := monoCall_converted houtput hb
  have hkeepB : (afterFirst env w A).files B = w.files B :=
    (monoCall_changes env 0 w A).files_eq (by simp [htmp, hmono])
  refine ⟨ofA, ofB, ref, deg, hofA, by rw [← hkeepB]; exact hofB, href, hdeg, fun hne => ?_,
    hfileB⟩
  refine ((monoCall_changes env 2 (afterFirst env w A) B).files_eq ?_).trans hfileA
  rintro (⟨heq, -⟩ | ⟨heq, -⟩)
  · exact tmpName_ne_monoName B A heq.symm
  · exact hne (List.append_cancel_right heq)

end Run

/-! ## The run -/

/-- Nothing around a run fails. Whether the acoustic model exits depends on the signals. -/
structure Environment.Reliable {S : Type} (env : Environment S) : Prop where
  output : ∀ stage path, ∃ dev, env.output stage path = some dev ∧ Pipeline.Reliable dev
  ffmpeg : ∀ stage, Works (env.ffmpeg stage)
  load : ∀ signal, (env.load signal).Succeeds
  alloc_other : env.alloc_other = true

section Succeeds

variable {S : Type} {env : Environment S} {w : World} {A B : Path}

/-- A loaded file that a resampling wrote is long enough if a quarter of a second was converted. -/
theorem tooShort_of_samples {signal : ℕ} {input : Path} {samples : List Int16}
    (h : LoadsSamples rate_16k samples (loadFile env signal w (monoName input)).2)
    (hlong : 4000 ≤ samples.length) :
    tooShort (loadFile env signal w (monoName input)).2.2 = false := by
  obtain ⟨-, hN, -⟩ := h
  unfold tooShort
  rw [hN, decide_eq_false_iff_not]
  simp only [Pesq.SEARCHBUFFER, rate_16k]
  omega

/-- What both calls of a run leave to the measurement, if nothing around them fails. For one input
given twice, the second call has written both files. -/
theorem converted_of_reliable (henv : env.Reliable) (htmp : B ≠ tmpName A) (hmono : B ≠ monoName A)
    {ofA ofB : OggOpusFile}
    (hofA : (w.files A).bind env.op_open_file = some ofA)
    (hofB : (w.files B).bind env.op_open_file = some ofB)
    (hdeclaresA : Declares ofA) (hdeclaresB : Declares ofB)
    (hlongA : 6000 ≤ ofA.frames.length) (hlongB : 6000 ≤ ofB.frames.length) :
    ((monoCall env 0 w A).2.Succeeded ∧ (monoCall env 2 (afterFirst env w A) B).2.Succeeded) ∧
      ∃ ref deg,
        ConvertedFrom (env.ffmpeg (if A = B then 3 else 1)) ofA ref ∧
        ConvertedFrom (env.ffmpeg 3) ofB deg ∧
        (afterSecond env w A B).files (monoName A) =
          some ((resampledHeader ref.length).toBytes ++ memBytes ref) ∧
        (afterSecond env w A B).files (monoName B) =
          some ((resampledHeader deg.length).toBytes ++ memBytes deg) := by
  have houtput : ∀ stage path dev, env.output stage path = some dev → dev.unflushed = 0 := by
    intro stage path dev hdev
    obtain ⟨dev', hdev', hreliable⟩ := henv.output stage path
    obtain rfl := Option.some.inj (hdev.symm.trans hdev')
    exact hreliable.loses_nothing
  have hkeepB : (afterFirst env w A).files B = w.files B :=
    (monoCall_changes env 0 w A).files_eq (by simp [htmp, hmono])
  have ha : (monoCall env 0 w A).2.Succeeded :=
    monoCall_succeeds hofA hdeclaresA hlongA henv.output henv.ffmpeg
  have hb : (monoCall env 2 (afterFirst env w A) B).2.Succeeded :=
    monoCall_succeeds (by rw [hkeepB]; exact hofB) hdeclaresB hlongB henv.output henv.ffmpeg
  refine ⟨⟨ha, hb⟩, ?_⟩
  obtain ⟨ofA', ofB', ref, deg, hofA', hofB', href, hdeg, hfileA, hfileB⟩ :=
    converted_of_succeeded htmp hmono houtput ha hb
  obtain rfl := Option.some.inj (hofA.symm.trans hofA')
  obtain rfl := Option.some.inj (hofB.symm.trans hofB')
  rcases eq_or_ne A B with rfl | hne
  · obtain rfl := Option.some.inj (hofA.symm.trans hofB)
    exact ⟨deg, deg, by rwa [if_pos rfl], hdeg, hfileB, hfileB⟩
  · exact ⟨ref, deg, by rwa [if_neg hne], hdeg, hfileA hne, hfileB⟩

/-- If nothing around a run fails, its calls succeed, both inputs are loaded as they were converted,
and the measurement ends as the acoustic model does on them. -/
theorem measured_of_reliable (henv : env.Reliable) (hA : A.length ≤ 497) (hB : B.length ≤ 497)
    (htmp : B ≠ tmpName A) (hmono : B ≠ monoName A) {ofA ofB : OggOpusFile}
    (hofA : (w.files A).bind env.op_open_file = some ofA)
    (hofB : (w.files B).bind env.op_open_file = some ofB)
    (hdeclaresA : Declares ofA) (hdeclaresB : Declares ofB)
    (hlongA : 6000 ≤ ofA.frames.length) (hlongB : 6000 ≤ ofB.frames.length) :
    ((monoCall env 0 w A).2.Succeeded ∧ (monoCall env 2 (afterFirst env w A) B).2.Succeeded) ∧
      ∃ ref deg ref_info deg_info,
        ConvertedFrom (env.ffmpeg (if A = B then 3 else 1)) ofA ref ∧
        ConvertedFrom (env.ffmpeg 3) ofB deg ∧
        LoadsSamples rate_16k ref (none, ref_info) ∧ LoadsSamples rate_16k deg (none, deg_info) ∧
        (measurement env w A B).2.2 =
          match env.model ref_info deg_info with
          | none => .exited
          | some mos => .score mos := by
  obtain ⟨hcalls, ref, deg, href, hdeg, hfileA, hfileB⟩ := converted_of_reliable henv htmp hmono
    hofA hofB hdeclaresA hdeclaresB hlongA hlongB
  have hlong {ff : FFmpeg} {of : OggOpusFile} {samples : List Int16}
      (hdeclares : Declares of) (hframes : 6000 ≤ of.frames.length)
      (h : ConvertedFrom ff of samples) : 4000 ≤ samples.length := by
    rw [h.length_eq, hdeclares.declaredFrames_eq.2]
    omega
  have hloadA := loadFile_samples (henv.load 0) hfileA href.length_lt
  have hloadB := loadFile_samples (henv.load 1) hfileB hdeg.length_lt
  refine ⟨hcalls, ref, deg, (loadFile env 0 (afterSecond env w A B) (monoName A)).2.2,
    (loadFile env 1 (afterSecond env w A B) (monoName B)).2.2, href, hdeg, ⟨rfl, hloadA.2⟩,
    ⟨rfl, hloadB.2⟩, ?_⟩
  unfold measurement
  rw [(copiedPath_monoName_iff A).mpr hA, (copiedPath_monoName_iff B).mpr hB]
  exact pesqMeasure_of_loaded hloadA.1 hloadB.1
    (tooShort_of_samples hloadA (hlong hdeclaresA hlongA href))
    (tooShort_of_samples hloadB (hlong hdeclaresB hlongB hdeg)) henv.alloc_other

/-- How a run ends whose calls succeed, by its measurement. -/
theorem main_of_succeeded (hemptyA : A ≠ []) (hemptyB : B ≠ [])
    (ha : (monoCall env 0 w A).2.Succeeded)
    (hb : (monoCall env 2 (afterFirst env w A) B).2.Succeeded) :
    (∀ call ∈ (main env w A B).calls, call.Succeeded) ∧
      ((measurement env w A B).2.2 = .exited →
        (main env w A B).printed = .nothing ∧ (main env w A B).ret = none) ∧
      ∀ mos, (measurement env w A B).2.2 = .score mos →
        (main env w A B).printed = .score mos ∧ (main env w A B).ret = some 0 := by
  have hreta := ((opusDecodeMono16khz_succeeded_iff env 0 w A).1.mp ha).1
  have hretb := ((opusDecodeMono16khz_succeeded_iff env 2 (afterFirst env w A) B).1.mp hb).1
  rw [main_of_returns hemptyA hemptyB (monoCall_ret hreta) (monoCall_ret hretb)]
  refine ⟨fun call hcall => ?_, fun hexited => ?_, fun mos hmos => ?_⟩
  · rw [(measureAndRemove_record _ _ _ _ _).1] at hcall
    simp only [List.mem_cons, List.not_mem_nil, or_false] at hcall
    rcases hcall with rfl | rfl
    · exact ha
    · exact hb
  · unfold measurement at hexited
    unfold measureAndRemove
    generalize pesqMeasure env (monoCall env 2 (monoCall env 0 w A).1 B).1
      (copiedPath (monoName A)) (copiedPath (monoName B)) = measured at hexited ⊢
    obtain ⟨w', opened, measured⟩ := measured
    cases hexited
    exact ⟨rfl, rfl⟩
  · unfold measurement at hmos
    unfold measureAndRemove
    generalize pesqMeasure env (monoCall env 2 (monoCall env 0 w A).1 B).1
      (copiedPath (monoName A)) (copiedPath (monoName B)) = measured at hmos ⊢
    obtain ⟨w', opened, measured⟩ := measured
    cases hmos
    exact ⟨rfl, rfl⟩

/-- A run that returns, and whose calls succeed on outputs that can be opened, leaves no temporary
file, and changes no other file but that of the results. -/
theorem main_leaves_no_trace (hopened : ∀ stage path, env.output stage path ≠ none)
    (hemptyA : A ≠ []) (hemptyB : B ≠ []) (ha : (monoCall env 0 w A).2.Succeeded)
    (hb : (monoCall env 2 (afterFirst env w A) B).2.Succeeded)
    (hreturns : (main env w A B).ret ≠ none) :
    NoTemporaries (main env w A B).world A B ∧
      ∀ path ∉ [tmpName A, monoName A, tmpName B, monoName B], path ≠ ITU_RESULTS_FILE →
        (main env w A B).world.files path = w.files path := by
  obtain ⟨hreta, hfailsa⟩ := (opusDecodeMono16khz_succeeded_iff env 0 w A).1.mp ha
  obtain ⟨hretb, hfailsb⟩ :=
    (opusDecodeMono16khz_succeeded_iff env 2 (afterFirst env w A) B).1.mp hb
  have hleftB : (afterSecond env w A B).files (tmpName B) = none :=
    (monoCall_tmp_iff env 2 (afterFirst env w A) hretb).mpr (Or.inr ⟨hopened _ _, hfailsb⟩)
  have hleftA : (afterSecond env w A B).files (tmpName A) = none := by
    rcases eq_or_ne A B with rfl | hne
    · exact hleftB
    · have hkeep : (afterSecond env w A B).files (tmpName A) =
          (afterFirst env w A).files (tmpName A) :=
        (monoCall_changes env 2 (afterFirst env w A) B).files_eq (by
          simp [hne, tmpName_ne_monoName])
      rw [hkeep]
      exact (monoCall_tmp_iff env 0 w hreta).mpr (Or.inr ⟨hopened _ _, hfailsa⟩)
  refine ⟨fun path hpath => ?_, fun path hpath hresults => ?_⟩
  · simp only [List.mem_cons, List.not_mem_nil, or_false] at hpath
    rcases hpath with rfl | rfl | rfl | rfl
    · rw [main_files_tmpName env w hemptyA hemptyB hreturns, hleftA]
    · exact main_files_monoName env w hemptyA hemptyB hreturns (Or.inl rfl)
    · rw [main_files_tmpName env w hemptyA hemptyB hreturns, hleftB]
    · exact main_files_monoName env w hemptyA hemptyB hreturns (Or.inr rfl)
  · refine (main_changes env w hemptyA hemptyB).files_eq fun hchanged => ?_
    simp only [List.mem_cons, List.not_mem_nil, or_false, not_or] at hpath
    rcases hchanged with hstages | ⟨hpath', -⟩
    · unfold ChangedByStages at hstages
      tauto
    · exact hresults hpath'

/-- If nothing around a run fails, and both inputs declare their frames and are not shorter than an
eighth of a second, the calls succeed, both signals are loaded as they were converted, and the run
ends as the acoustic model does on them. If it exits, so does the run, without a score. Otherwise
the run prints the score and returns zero, its temporary files do not exist, and no other file has
changed, but for the file of results. -/
theorem main_succeeds (henv : env.Reliable) (hA : A.length ≤ 497) (hB : B.length ≤ 497)
    (hemptyA : A ≠ []) (hemptyB : B ≠ []) (htmp : B ≠ tmpName A) (hmono : B ≠ monoName A)
    {ofA ofB : OggOpusFile}
    (hofA : (w.files A).bind env.op_open_file = some ofA)
    (hofB : (w.files B).bind env.op_open_file = some ofB)
    (hdeclaresA : Declares ofA) (hdeclaresB : Declares ofB)
    (hlongA : 6000 ≤ ofA.frames.length) (hlongB : 6000 ≤ ofB.frames.length) :
    (∀ call ∈ (main env w A B).calls, call.Succeeded) ∧
      ∃ ref deg ref_info deg_info,
        ConvertedFrom (env.ffmpeg (if A = B then 3 else 1)) ofA ref ∧
        ConvertedFrom (env.ffmpeg 3) ofB deg ∧
        LoadsSamples rate_16k ref (none, ref_info) ∧ LoadsSamples rate_16k deg (none, deg_info) ∧
        match env.model ref_info deg_info with
        | none => (main env w A B).printed = .nothing ∧ (main env w A B).ret = none
        | some mos =>
          ((main env w A B).printed = .score mos ∧ (main env w A B).ret = some 0) ∧
            NoTemporaries (main env w A B).world A B ∧
            ∀ path ∉ [tmpName A, monoName A, tmpName B, monoName B], path ≠ ITU_RESULTS_FILE →
              (main env w A B).world.files path = w.files path := by
  obtain ⟨⟨ha, hb⟩, ref, deg, ref_info, deg_info, href, hdeg, hloadA, hloadB, hmeasured⟩ :=
    measured_of_reliable henv hA hB htmp hmono hofA hofB hdeclaresA hdeclaresB hlongA hlongB
  obtain ⟨hcalls, hexits, hprints⟩ := main_of_succeeded hemptyA hemptyB ha hb
  refine ⟨hcalls, ref, deg, ref_info, deg_info, href, hdeg, hloadA, hloadB, ?_⟩
  cases hmodel : env.model ref_info deg_info with
  | none =>
    rw [hmodel] at hmeasured
    exact hexits hmeasured
  | some mos =>
    rw [hmodel] at hmeasured
    obtain ⟨hprinted, hret⟩ := hprints mos hmeasured
    have hopened (stage : ℕ) (path : Path) : env.output stage path ≠ none := by
      obtain ⟨dev, hdev, -⟩ := henv.output stage path
      rw [hdev]
      exact Option.some_ne_none dev
    exact ⟨⟨hprinted, hret⟩, main_leaves_no_trace hopened hemptyA hemptyB ha hb (by
      rw [hret]
      exact Option.some_ne_none 0)⟩

end Succeeds

/-! ## A tone -/

/-- A frame of a square wave with a period of 48 frames. -/
def toneFrame (i : ℕ) : Opus.Frame := if i / 24 % 2 = 0 then (8000, 8000) else (-8000, -8000)

/-- Sixty periods, in one result. -/
def toneChunk : Opus.Chunk where
  frames := (List.range 2880).map toneFrame
  frames_pos := by
    rw [List.length_map, List.length_range]
    decide
  frames_le := by
    rw [List.length_map, List.length_range]
    decide

/-- An Opus file of more than a second of the tone. -/
def tone : OggOpusFile where
  seekable := true
  pcm_total := 57600
  reads := List.replicate 20 (.samples toneChunk)

/-- It has as many frames as it declares. -/
theorem tone_frames : tone.frames.length = 57600 := by
  have hchunk : (Opus.OpRead.samples toneChunk).frames.length = 2880 := by
    unfold Opus.OpRead.frames toneChunk
    dsimp only
    rw [List.length_map, List.length_range]
  unfold OggOpusFile.frames tone
  dsimp only
  rw [List.length_flatMap, List.map_replicate, hchunk]
  rfl

/-- It starts with the first frame of the tone. -/
theorem tone_frames_head : ∃ frames, tone.frames = (8000, 8000) :: frames := by
  have hchunk : ∃ frames, (Opus.OpRead.samples toneChunk).frames = (8000, 8000) :: frames := by
    unfold Opus.OpRead.frames toneChunk
    dsimp only
    rw [List.range_succ_eq_map, List.map_cons]
    exact ⟨_, rfl⟩
  obtain ⟨frames, hframes⟩ := hchunk
  unfold OggOpusFile.frames tone
  dsimp only
  rw [List.replicate_succ, List.flatMap_cons, hframes]
  exact ⟨_, rfl⟩

/-- So it declares its frames. -/
theorem declares_tone : Declares tone where
  no_error h := by cases List.eq_of_mem_replicate h
  declared_eq := by
    rw [tone_frames]
    decide
  even := by
    rw [tone_frames]
    decide
  pos := by
    rw [tone_frames]
    decide
  lt := by
    rw [tone_frames]
    decide

/-- A signal has a sample that is not zero. -/
def sounds (info : SignalInfo) : Bool :=
  match info.data with
  | none => false
  | some data => data.values.any fun value => value ≠ 0

/-- A run with two inputs of the tone. The acoustic model exits if one of the signals is silent,
since no utterance is found then. -/
def toneEnvironment : Environment Unit :=
  { benignEnvironment fun _ => some tone with
    ffmpeg := fun _ => Resample.takesEvery 3
    model := fun ref_info deg_info =>
      if sounds ref_info ∧ sounds deg_info then some () else none }

/-- Nothing around it fails. -/
theorem reliable_toneEnvironment : toneEnvironment.Reliable where
  output _ _ := ⟨.perfect, rfl, fun _ => rfl, rfl⟩
  ffmpeg _ :=
    { swr_alloc := rfl
      swr_init := le_rfl
      av_malloc := fun _ => rfl
      swr_convert := by
        intro input in_count out_count hin hout
        refine ⟨_, if_neg (by omega), fun hempty => ?_⟩
        have hlen := congrArg List.length hempty
        simp only [List.length_take, List.length_map, List.length_range, List.length_nil] at hlen
        omega }
  load _ := ⟨fun _ _ => rfl, rfl, rfl, rfl⟩
  alloc_other := rfl

/-- What is converted from the tone is not silent. -/
theorem sounding_of_converted {samples : List Int16}
    (h : ConvertedFrom (Resample.takesEvery 3) tone samples) : 8000 ∈ samples := by
  obtain ⟨-, -, produced, hconvert, rfl⟩ := h
  obtain ⟨frames, hframes⟩ := tone_frames_head
  let rest := (Opus.interleaved frames).take 115198 ++ List.replicate (2 * 57600) 0
  have hinput : (Opus.interleaved tone.frames).take (2 * 57600) ++ List.replicate (2 * 57600) 0 =
      8000 :: 8000 :: rest := by
    rw [hframes]
    rfl
  rw [declares_tone.declaredFrames_eq.2, tone_frames] at hconvert ⊢
  obtain ⟨output, houtput⟩ : ∃ output, (Resample.takesEvery 3).swr_convert 2 (8000 :: 8000 :: rest)
      (Int32.ofNat (2 * 57600)) (Int32.ofNat ((2 * 57600 + 2) / 3)) = some (8000 :: output) :=
    Resample.takesEvery_stereo (by decide) (by decide) (by decide)
  rw [hinput, houtput] at hconvert
  obtain rfl := Option.some.inj hconvert
  exact List.mem_cons_self

/-- A loaded signal sounds if its samples do. -/
theorem sounds_of_loads {samples : List Int16} {info : SignalInfo}
    (h : LoadsSamples rate_16k samples (none, info)) (hsample : 8000 ∈ samples) :
    sounds info = true := by
  obtain ⟨-, -, data, hdata, hvalues, -⟩ := h
  unfold sounds
  dsimp only at hdata hvalues
  rw [hdata, List.any_eq_true]
  refine ⟨8000, ?_, by decide⟩
  rw [hvalues]
  exact List.mem_append_left _ (List.mem_append_right _ (List.mem_map_of_mem hsample))

/-- In a run with two inputs of the tone, the signals sound. -/
theorem model_tone {ref deg : List Int16} {ref_info deg_info : SignalInfo}
    (href : ConvertedFrom (toneEnvironment.ffmpeg 1) tone ref)
    (hdeg : ConvertedFrom (toneEnvironment.ffmpeg 3) tone deg)
    (hloadA : LoadsSamples rate_16k ref (none, ref_info))
    (hloadB : LoadsSamples rate_16k deg (none, deg_info)) :
    toneEnvironment.model ref_info deg_info = some () :=
  if_pos ⟨sounds_of_loads hloadA (sounding_of_converted href),
    sounds_of_loads hloadB (sounding_of_converted hdeg)⟩

/-- A run with two inputs of the tone prints a score. -/
theorem main_succeeds_tone :
    (main toneEnvironment twoInputs (suffix "a") (suffix "b")).printed = .score () ∧
      NoTemporaries (main toneEnvironment twoInputs (suffix "a") (suffix "b")).world (suffix "a")
        (suffix "b") := by
  obtain ⟨-, ref, deg, ref_info, deg_info, href, hdeg, hloadA, hloadB, hend⟩ :=
    main_succeeds reliable_toneEnvironment (w := twoInputs) (A := suffix "a") (B := suffix "b")
      (by decide) (by decide) (by decide) (by decide) (by decide) (by decide)
      (show _ = some tone from rfl) (show _ = some tone from rfl) declares_tone declares_tone
      (by rw [tone_frames]; decide) (by rw [tone_frames]; decide)
  rw [model_tone href hdeg hloadA hloadB] at hend
  exact ⟨hend.1.1, hend.2.1⟩

/-- The calls of a run with two inputs of the tone succeed, and it prints a score. -/
theorem main_prints_tone :
    (∀ call ∈ (main toneEnvironment twoInputs (suffix "a") (suffix "b")).calls, call.Succeeded) ∧
      (main toneEnvironment twoInputs (suffix "a") (suffix "b")).printed = .score () := by
  obtain ⟨⟨ha, hb⟩, ref, deg, ref_info, deg_info, href, hdeg, hloadA, hloadB, hmeasured⟩ :=
    measured_of_reliable reliable_toneEnvironment (w := twoInputs) (A := suffix "a")
      (B := suffix "b") (by decide) (by decide) (by decide) (by decide)
      (show _ = some tone from rfl) (show _ = some tone from rfl) declares_tone declares_tone
      (by rw [tone_frames]; decide) (by rw [tone_frames]; decide)
  rw [model_tone href hdeg hloadA hloadB] at hmeasured
  obtain ⟨hcalls, -, hprints⟩ := main_of_succeeded (by decide) (by decide) ha hb
  exact ⟨hcalls, (hprints () hmeasured).1⟩

/-- In a run with a score whose stages all succeeded, on outputs that lose nothing when they are
closed, the score is that of the acoustic model for the two inputs as they were before the run: for
each of them, the part that its Opus file declares and as much silence, converted to 16 kHz. -/
theorem main_measures {S : Type} {env : Environment S} {w : World} {A B : Path} {mos : S}
    (hA : A.length ≤ 497) (hB : B.length ≤ 497) (hne : A ≠ B) (htmp : B ≠ tmpName A)
    (hmono : B ≠ monoName A)
    (houtput : ∀ stage path dev, env.output stage path = some dev → dev.unflushed = 0)
    (hcalls : ∀ call ∈ (main env w A B).calls, call.Succeeded)
    (hscore : (main env w A B).printed = .score mos) :
    ∃ ofA ofB ref deg ref_info deg_info,
      (w.files A).bind env.op_open_file = some ofA ∧
      (w.files B).bind env.op_open_file = some ofB ∧
      ConvertedFrom (env.ffmpeg 1) ofA ref ∧ ConvertedFrom (env.ffmpeg 3) ofB deg ∧
      LoadsSamples rate_16k ref (none, ref_info) ∧ LoadsSamples rate_16k deg (none, deg_info) ∧
      env.model ref_info deg_info = some mos := by
  obtain ⟨⟨hA', hB'⟩, ha, hb⟩ := returns_of_printed hscore
  have hmeasured := measurement_of_printed hscore
  rw [main_of_returns hA' hB' ha hb] at hcalls
  have hrecord := (measureAndRemove_record env (afterSecond env w A B)
    [(monoCall env 0 w A).2, (monoCall env 2 (afterFirst env w A) B).2] (monoName A)
    (monoName B)).1
  rw [hrecord] at hcalls
  unfold measurement at hmeasured
  rw [(copiedPath_monoName_iff A).mpr hA, (copiedPath_monoName_iff B).mpr hB] at hmeasured
  obtain ⟨ofA, ofB, ref, deg, hofA, hofB, href, hdeg, hfileA, hfileB⟩ :=
    converted_of_succeeded htmp hmono houtput (hcalls _ List.mem_cons_self)
      (hcalls _ (List.mem_cons_of_mem _ List.mem_cons_self))
  obtain ⟨hnoneA, hnoneB, -, -, hmodel⟩ := model_of_score hmeasured
  have hloadA := loadFile_samples (load_succeeds (hfileA hne) hnoneA) (hfileA hne) href.length_lt
  have hloadB := loadFile_samples (load_succeeds hfileB hnoneB) hfileB hdeg.length_lt
  refine ⟨ofA, ofB, ref, deg, (loadFile env 0 (afterSecond env w A B) (monoName A)).2.2,
    (loadFile env 1 (afterSecond env w A B) (monoName B)).2.2, hofA, hofB,
    href, hdeg, ?_, ?_, hmodel⟩
  · exact ⟨rfl, hloadA.2⟩
  · exact ⟨rfl, hloadB.2⟩

/-- What a run with two inputs of the tone measures. -/
theorem main_measures_tone : ∃ ofA ofB ref deg ref_info deg_info,
    (twoInputs.files (suffix "a")).bind toneEnvironment.op_open_file = some ofA ∧
    (twoInputs.files (suffix "b")).bind toneEnvironment.op_open_file = some ofB ∧
    ConvertedFrom (toneEnvironment.ffmpeg 1) ofA ref ∧
    ConvertedFrom (toneEnvironment.ffmpeg 3) ofB deg ∧
    LoadsSamples rate_16k ref (none, ref_info) ∧ LoadsSamples rate_16k deg (none, deg_info) ∧
    toneEnvironment.model ref_info deg_info = some () := by
  obtain ⟨hcalls, hprinted⟩ := main_prints_tone
  refine main_measures (by decide) (by decide) (by decide) (by decide) (by decide)
    (fun stage path dev h => ?_) hcalls hprinted
  obtain rfl := Option.some.inj (show some OutStream.Device.perfect = some dev from h)
  rfl

end TgVoipRate.Pipeline
