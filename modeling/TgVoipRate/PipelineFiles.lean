import TgVoipRate.PipelineSpec

/-!
# What a run does to files

Each stage of a run changes a file at a path that it was given, if it can open it
(`monoCall_changes`, `pesqMeasure_changes`), and a run changes what its stages change
(`main_changes`). The paths are derived from the arguments by appending suffixes. So the temporary
files of a run are left behind exactly where a stage returns before the removal
(`main_leavesNothing_iff`), and an input is changed exactly where its own name is a derived one
(`main_inputsKept_iff`).
-/

namespace TgVoipRate.Pipeline

open FileSystem (Path World)
open Pesq (suffix)

variable {S : Type}

/-! ## Derived names -/

/-- The names of the two temporary files of any two inputs are different. -/
theorem tmpName_ne_monoName (X Y : Path) : tmpName X ≠ monoName Y := by
  intro h
  have hsplit : tmpName X = (X ++ suffix "_de") ++ suffix "c_48khz_tmp.wav" :=
    (List.append_assoc X (suffix "_de") (suffix "c_48khz_tmp.wav")).symm
  exact absurd (List.append_inj' (hsplit.symm.trans h) (by decide)).2 (by decide)

/-- The file of results has no name of a WAV file. -/
theorem append_wav_ne_results (pre : Path) : pre ++ suffix ".wav" ≠ ITU_RESULTS_FILE := by
  intro h
  have hresults : ITU_RESULTS_FILE = suffix "pesq_results" ++ suffix ".txt" := rfl
  exact absurd (List.append_inj' (h.trans hresults) (by decide)).2 (by decide)

/-- The file of results is not the first temporary file of an input. -/
theorem tmpName_ne_results (X : Path) : tmpName X ≠ ITU_RESULTS_FILE := by
  have hsplit : tmpName X = (X ++ suffix "_dec_48khz_tmp") ++ suffix ".wav" :=
    (List.append_assoc X (suffix "_dec_48khz_tmp") (suffix ".wav")).symm
  rw [hsplit]
  exact append_wav_ne_results _

/-- The file of results is not the second temporary file of an input. -/
theorem monoName_ne_results (X : Path) : monoName X ≠ ITU_RESULTS_FILE := by
  have hsplit : monoName X = (X ++ suffix "_mono_16khz") ++ suffix ".wav" :=
    (List.append_assoc X (suffix "_mono_16khz") (suffix ".wav")).symm
  rw [hsplit]
  exact append_wav_ne_results _

/-- An input is not its first temporary file. -/
theorem ne_tmpName (X : Path) : X ≠ tmpName X := fun h =>
  absurd (List.self_eq_append_right.mp h) (by decide)

/-- An input is not its second temporary file. -/
theorem ne_monoName (X : Path) : X ≠ monoName X := fun h =>
  absurd (List.self_eq_append_right.mp h) (by decide)

/-! ## The stages -/

variable (env : Environment S) (stage : ℕ) (w : World)

/-- `opus_decode` changes its output, if it can be opened. -/
theorem opusDecodeFile_changes (input_filename output_filename : Path) :
    w.Changes (opusDecodeFile env stage w input_filename output_filename).1
      {p | p = output_filename ∧ env.output stage output_filename ≠ none} := by
  unfold opusDecodeFile
  cases hout : env.output stage output_filename with
  | none => exact (World.Changes.refl w).congr fun p => by simp
  | some dev =>
    have hopened := (World.Changes.write w output_filename []).trans
      (World.Changes.read _ input_filename)
    exact (hopened.trans (World.Changes.write _ output_filename _)).congr fun p => by simp

/-- `resample` changes its output, if it gets to it and it can be opened. -/
theorem resampleFile_changes (in_file out_file : Path) (out_sample_rate out_channels : ℕ) :
    w.Changes (resampleFile env stage w in_file out_file out_sample_rate out_channels).1
      {p | p = out_file ∧ (Resample.resample (env.ffmpeg stage) (w.files in_file)
        (env.output stage out_file) out_sample_rate out_channels).wav_file ≠ none} := by
  unfold resampleFile
  dsimp only [World.read_files]
  cases hwav : (Resample.resample (env.ffmpeg stage) (w.files in_file)
      (env.output stage out_file) out_sample_rate out_channels).wav_file with
  | none => exact (World.Changes.read w in_file).congr fun p => by simp
  | some content =>
    have hchanges := (World.Changes.read w in_file).trans (World.Changes.write _ out_file content)
    exact hchanges.congr fun p => by simp

/-- The second stage of an input writes its output. -/
def WritesMono (input : Path) : Prop :=
  (opusDecodeFile env stage w input (tmpName input)).2 = some true ∧
    (Resample.resample (env.ffmpeg (stage + 1))
      ((opusDecodeFile env stage w input (tmpName input)).1.files (tmpName input))
      (env.output (stage + 1) (monoName input)) 16000 1).wav_file ≠ none

/-- A decoded file could be opened. -/
theorem output_of_decoded {env : Environment S} {stage : ℕ} {w : World} {input : Path}
    (h : (opusDecodeFile env stage w input (tmpName input)).2 = some true) :
    env.output stage (tmpName input) ≠ none := by
  intro hnone
  unfold opusDecodeFile at h
  rw [hnone] at h
  cases h

/-- A file that can be opened is created, even where the decoding fails later. -/
theorem opusDecodeFile_creates (input_filename output_filename : Path)
    (hout : env.output stage output_filename ≠ none) :
    (opusDecodeFile env stage w input_filename output_filename).1.files output_filename ≠ none := by
  obtain ⟨dev, hdev⟩ := Option.ne_none_iff_exists'.mp hout
  unfold opusDecodeFile
  rw [hdev]
  dsimp only
  rw [World.write_files_self]
  exact Option.some_ne_none _

/-- A call changes the two temporary files of its input, each one if it gets to it and it can be
opened. -/
theorem monoCall_changes (input : Path) :
    w.Changes (monoCall env stage w input).1
      {p | (p = tmpName input ∧ env.output stage (tmpName input) ≠ none) ∨
        (p = monoName input ∧ WritesMono env stage w input)} := by
  have hdecode := opusDecodeFile_changes env stage w input (tmpName input)
  have hresample := resampleFile_changes env (stage + 1)
    (opusDecodeFile env stage w input (tmpName input)).1 (tmpName input) (monoName input) 16000 1
  have hboth := hdecode.trans hresample
  unfold WritesMono
  rcases monoCall_cases env stage w input with
    ⟨hdecoded, hcall⟩ | ⟨hdecoded, hcall⟩ | ⟨hdecoded, -, hcall⟩ | ⟨hdecoded, -, hcall⟩ |
      ⟨hdecoded, -, hcall⟩ <;> rw [hcall]
  · exact hdecode.congr fun p => by simp [hdecoded]
  · exact hdecode.congr fun p => by simp [hdecoded]
  · exact hboth.congr fun p => by simp [hdecoded]
  · exact hboth.congr fun p => by simp [hdecoded]
  · -- Only a success removes the first temporary file, and that one could be opened.
    have hopened := output_of_decoded hdecoded
    exact (hboth.trans (World.Changes.remove _ (tmpName input))).congr fun p => by
      simp only [Set.mem_union, Set.mem_ofPred_eq, Set.mem_singleton_iff]
      tauto

/-- The row that a measurement appends to the file of results. -/
def appendedRow (ref_path deg_path : Path) : Option (List UInt8) :=
  match (pesqMeasure env w ref_path deg_path).2.2 with
  | .score mos => env.results mos
  | _ => none

/-- A measurement appends a row to the file of results, or changes nothing. -/
theorem pesqMeasure_changes (ref_path deg_path : Path) :
    w.Changes (pesqMeasure env w ref_path deg_path).1
        {p | p = ITU_RESULTS_FILE ∧ appendedRow env w ref_path deg_path ≠ none} ∧
      ∀ row, appendedRow env w ref_path deg_path = some row →
        (pesqMeasure env w ref_path deg_path).1.files ITU_RESULTS_FILE =
          some ((w.files ITU_RESULTS_FILE).getD [] ++ row) := by
  -- Every way through the measurement reads, and only the last one writes.
  have hboth := (World.Changes.read w ref_path).trans (World.Changes.read _ deg_path)
  unfold appendedRow pesqMeasure loadFile
  dsimp only
  generalize Pesq.load_src (env.load 0) Pesq.rate_16k (w.files ref_path)
    (Pesq.SignalInfo.named ref_path) = ref
  rcases ref with ⟨_ | text, ref_info⟩
  · dsimp only
    generalize Pesq.load_src (env.load 1) Pesq.rate_16k ((w.read ref_path).files deg_path)
      (Pesq.SignalInfo.named deg_path) = deg
    rcases deg with ⟨_ | text, deg_info⟩
    · dsimp only
      split_ifs
      · exact ⟨hboth.congr fun p => by simp, fun row h => by cases h⟩
      · exact ⟨hboth.congr fun p => by simp, fun row h => by cases h⟩
      · cases env.model ref_info deg_info with
        | none => exact ⟨hboth.congr fun p => by simp, fun row h => by cases h⟩
        | some mos =>
          dsimp only
          cases hresults : env.results mos with
          | none => exact ⟨hboth.congr fun p => by simp [hresults],
            fun row h => by simp [hresults] at h⟩
          | some row =>
            refine ⟨(hboth.trans (World.Changes.write _ ITU_RESULTS_FILE _)).congr fun p => by
              simp [hresults], fun row' h => ?_⟩
            dsimp only at h
            obtain rfl := Option.some.inj (hresults.symm.trans h)
            exact World.write_files_self _ _ _
    · exact ⟨hboth.congr fun p => by simp, fun row h => by cases h⟩
  · exact ⟨(World.Changes.read w ref_path).congr fun p => by simp, fun row h => by cases h⟩

/-! ## The run -/

/-- The file system after the first input. -/
abbrev afterFirst (A : Path) : World := (monoCall env 0 w A).1

/-- The file system after both inputs. -/
abbrev afterSecond (A B : Path) : World := (monoCall env 2 (afterFirst env w A) B).1

/-- The measurement of a run: the file system after it, the paths it opened, and how it ended. -/
abbrev measurement (A B : Path) : World × List Path × Measured S :=
  pesqMeasure env (afterSecond env w A B) (copiedPath (monoName A)) (copiedPath (monoName B))

/-- A call that does not fail to return, returns true. -/
theorem monoCall_ret {env : Environment S} {stage : ℕ} {w : World} {input : Path}
    (h : (monoCall env stage w input).2.ret ≠ none) :
    (monoCall env stage w input).2.ret = some true :=
  (opusDecodeMono16khz_ret env stage w input).resolve_left h

/-- The end of a run returns exactly if the measurement does, and then it removes the second
temporary files. -/
theorem measureAndRemove_world (calls : List MonoCall) (in_wav_A in_wav_B : Path) :
    let measured := pesqMeasure env w (copiedPath in_wav_A) (copiedPath in_wav_B)
    let run := measureAndRemove env w calls in_wav_A in_wav_B
    (measured.2.2 = .exited ∧ run.ret = none ∧ run.world = measured.1) ∨
      (measured.2.2 ≠ .exited ∧ run.ret ≠ none ∧
        run.world = (measured.1.remove in_wav_A).remove in_wav_B) := by
  unfold measureAndRemove
  rcases pesqMeasure env w (copiedPath in_wav_A) (copiedPath in_wav_B) with ⟨w', opened, measured⟩
  cases measured with
  | exited => exact Or.inl ⟨rfl, rfl, rfl⟩
  | score mos => exact Or.inr ⟨by simp, by simp, rfl⟩
  | error err text => exact Or.inr ⟨by simp, by simp, rfl⟩

/-- A run returns exactly if both calls and the measurement do. -/
theorem main_ret_iff {A B : Path} (hA : A ≠ []) (hB : B ≠ []) :
    (main env w A B).ret ≠ none ↔
      (monoCall env 0 w A).2.ret ≠ none ∧ (monoCall env 2 (afterFirst env w A) B).2.ret ≠ none ∧
        (measurement env w A B).2.2 ≠ .exited := by
  rcases opusDecodeMono16khz_ret env 0 w A with ha | ha
  · rw [main_of_first_none hA hB ha, ha]
    simp
  · rcases opusDecodeMono16khz_ret env 2 (afterFirst env w A) B with hb | hb
    · rw [main_of_second_none hA hB ha hb, ha, hb]
      simp
    · rw [main_of_returns hA hB ha hb, ha, hb]
      rcases measureAndRemove_world env (afterSecond env w A B)
        [(monoCall env 0 w A).2, (monoCall env 2 (afterFirst env w A) B).2] (monoName A)
        (monoName B) with ⟨hexited, hret, -⟩ | ⟨hexited, hret, -⟩
      · simp [hexited, hret]
      · simp [hexited, hret]

/-- A run that returns has removed the second temporary files, after the measurement. -/
theorem main_world_of_returns {A B : Path} (hA : A ≠ []) (hB : B ≠ [])
    (hret : (main env w A B).ret ≠ none) :
    (main env w A B).world =
      ((measurement env w A B).1.remove (monoName A)).remove (monoName B) := by
  obtain ⟨ha, hb, hmeasured⟩ := (main_ret_iff env w hA hB).mp hret
  rw [main_of_returns hA hB (monoCall_ret ha) (monoCall_ret hb)]
  rcases measureAndRemove_world env (afterSecond env w A B)
    [(monoCall env 0 w A).2, (monoCall env 2 (afterFirst env w A) B).2] (monoName A)
    (monoName B) with ⟨hexited, -, -⟩ | ⟨-, -, hworld⟩
  · exact absurd hexited hmeasured
  · exact hworld

/-! ## Temporary files -/

/-- A stage of an input fails after the first temporary file was created. -/
def LeavesTmp (input : Path) : Prop :=
  env.output stage (tmpName input) ≠ none ∧ StageFails env stage w input

/-- The first temporary file of an input does not exist after its call exactly if it could not be
opened and did not exist before, or no stage failed. -/
theorem monoCall_tmp_iff {input : Path} (hret : (monoCall env stage w input).2.ret ≠ none) :
    (monoCall env stage w input).1.files (tmpName input) = none ↔
      (env.output stage (tmpName input) = none ∧ w.files (tmpName input) = none) ∨
        (env.output stage (tmpName input) ≠ none ∧ ¬StageFails env stage w input) := by
  have hchanges := monoCall_changes env stage w input
  cases hout : env.output stage (tmpName input) with
  | none =>
    have hkeep : (monoCall env stage w input).1.files (tmpName input) = w.files (tmpName input) :=
      hchanges.files_eq (by simp [hout, tmpName_ne_monoName])
    simp [hkeep]
  | some dev =>
    have hcreated := opusDecodeFile_creates env stage w input (tmpName input) (by simp [hout])
    have hkeep := (resampleFile_changes env (stage + 1)
      (opusDecodeFile env stage w input (tmpName input)).1 (tmpName input) (monoName input) 16000
      1).files_eq (show tmpName input ∉ _ by simp [tmpName_ne_monoName])
    unfold StageFails
    rcases monoCall_cases env stage w input with
      ⟨hdecoded, hcall⟩ | ⟨hdecoded, hcall⟩ | ⟨hdecoded, hresampled, hcall⟩ |
        ⟨hdecoded, hresampled, hcall⟩ | ⟨hdecoded, hresampled, hcall⟩ <;> rw [hcall] at hret ⊢
    · exact absurd rfl hret
    · simpa [hdecoded] using hcreated
    · exact absurd rfl hret
    · simpa [hdecoded, hresampled, hkeep] using hcreated
    · simp [hdecoded, hresampled, World.remove_files_self]

/-- None of the four temporary files of a run exists. -/
def NoTemporaries (w : World) (A B : Path) : Prop :=
  ∀ p ∈ [tmpName A, monoName A, tmpName B, monoName B], w.files p = none

/-- What a run that returns leaves of a first temporary file is what was there after both calls. -/
theorem main_files_tmpName {A B : Path} (hA : A ≠ []) (hB : B ≠ [])
    (hret : (main env w A B).ret ≠ none) (X : Path) :
    (main env w A B).world.files (tmpName X) = (afterSecond env w A B).files (tmpName X) := by
  have hmeasure := (pesqMeasure_changes env (afterSecond env w A B) (copiedPath (monoName A))
    (copiedPath (monoName B))).1
  rw [main_world_of_returns env w hA hB hret]
  calc (((measurement env w A B).1.remove (monoName A)).remove (monoName B)).files (tmpName X)
      = ((measurement env w A B).1.remove (monoName A)).files (tmpName X) :=
        if_neg (tmpName_ne_monoName X B)
    _ = (measurement env w A B).1.files (tmpName X) := if_neg (tmpName_ne_monoName X A)
    _ = (afterSecond env w A B).files (tmpName X) :=
        hmeasure.files_eq fun h => tmpName_ne_results X h.1

/-- A run that returns has removed the second temporary files. -/
theorem main_files_monoName {A B X : Path} (hA : A ≠ []) (hB : B ≠ [])
    (hret : (main env w A B).ret ≠ none) (hX : X = A ∨ X = B) :
    (main env w A B).world.files (monoName X) = none := by
  rw [main_world_of_returns env w hA hB hret]
  show (if monoName X = monoName B then none else _) = none
  split
  · rfl
  · rename_i hne
    obtain rfl := hX.resolve_right fun h => hne (by rw [h])
    exact World.remove_files_self _ _

/-- A run that returns leaves no temporary file behind exactly if no stage of the second input
failed after its file was created, and none of the first input did, except where the second call was
for the same input and created the file again. -/
theorem main_noTemporaries_iff (A B : Path) (hfresh : NoTemporaries w A B)
    (hret : (main env w A B).ret ≠ none) :
    NoTemporaries (main env w A B).world A B ↔
      (A ≠ [] → B ≠ [] →
        ¬LeavesTmp env 2 (afterFirst env w A) B ∧
          (LeavesTmp env 0 w A → A = B ∧ env.output 2 (tmpName B) ≠ none)) := by
  by_cases hempty : A = [] ∨ B = []
  · have hworld : (main env w A B).world = w := by
      unfold main
      rw [if_pos hempty]
    rw [hworld]
    exact iff_of_true hfresh fun hA hB => (hempty.elim hA hB).elim
  · obtain ⟨hA, hB⟩ := not_or.mp hempty
    obtain ⟨ha, hb, -⟩ := (main_ret_iff env w hA hB).mp hret
    have hfirst := monoCall_tmp_iff env 0 w ha
    have hsecond := monoCall_tmp_iff env 2 (afterFirst env w A) hb
    have hfreshA : w.files (tmpName A) = none := hfresh _ (by simp)
    have hfreshB : w.files (tmpName B) = none := hfresh _ (by simp)
    -- Only the first temporary files can be left.
    have hleft : NoTemporaries (main env w A B).world A B ↔
        (afterSecond env w A B).files (tmpName A) = none ∧
          (afterSecond env w A B).files (tmpName B) = none := by
      unfold NoTemporaries
      simp [main_files_tmpName env w hA hB hret, main_files_monoName env w hA hB hret]
    rw [hleft]
    unfold LeavesTmp
    -- For one input given twice the second call decides, otherwise the calls do not meet.
    rcases eq_or_ne A B with rfl | hne
    · rw [and_self, hsecond, hfirst]
      by_cases hout₂ : env.output 2 (tmpName A) = none
      · by_cases hout₀ : env.output 0 (tmpName A) = none <;> simp [hA, hout₂, hout₀, hfreshA]
      · simp [hA, hout₂]
    · have hkeepA : (afterSecond env w A B).files (tmpName A) =
          (afterFirst env w A).files (tmpName A) :=
        (monoCall_changes env 2 (afterFirst env w A) B).files_eq (by
          simp [hne, tmpName_ne_monoName])
      have hkeepB : (afterFirst env w A).files (tmpName B) = w.files (tmpName B) :=
        (monoCall_changes env 0 w A).files_eq (by
          simp [hne.symm, tmpName_ne_monoName])
      rw [hkeepA, hsecond, hfirst, hkeepB]
      by_cases hout₂ : env.output 2 (tmpName B) = none
      · by_cases hout₀ : env.output 0 (tmpName A) = none <;>
          simp [hA, hB, hne, hout₂, hout₀, hfreshA, hfreshB]
      · by_cases hout₀ : env.output 0 (tmpName A) = none <;>
          simp [hA, hB, hne, hout₂, hout₀, hfreshA, and_comm]

/-- A measurement with an acoustic model that never exits does not exit. -/
theorem pesqMeasure_ne_exited (hmodel : ∀ ref_info deg_info, env.model ref_info deg_info ≠ none)
    (ref_path deg_path : Path) : (pesqMeasure env w ref_path deg_path).2.2 ≠ .exited := by
  unfold pesqMeasure
  dsimp only
  generalize loadFile env 0 w ref_path = ref
  rcases ref with ⟨w₁, _ | text, ref_info⟩
  · dsimp only
    generalize loadFile env 1 w₁ deg_path = deg
    rcases deg with ⟨w₂, _ | text, deg_info⟩
    · dsimp only
      split_ifs
      · exact fun h => by cases h
      · exact fun h => by cases h
      · obtain ⟨mos, hmos⟩ := Option.ne_none_iff_exists'.mp (hmodel ref_info deg_info)
        rw [hmos]
        dsimp only
        cases env.results mos <;> exact fun h => by cases h
    · exact fun h => by cases h
  · exact fun h => by cases h

/-- A run whose stages succeed leaves no temporary file behind. -/
theorem main_noTemporaries_two :
    NoTemporaries (main (benignEnvironment fun _ => some Opus.declaringFile) twoInputs (suffix "a")
      (suffix "b")).world (suffix "a") (suffix "b") := by
  refine (main_noTemporaries_iff (benignEnvironment fun _ => some Opus.declaringFile) twoInputs
    (suffix "a") (suffix "b") ?_ ?_).mpr fun _ _ => ⟨?_, ?_⟩
  · unfold NoTemporaries
    decide
  · refine (main_ret_iff _ _ (by decide) (by decide)).mpr ⟨by decide, by decide, ?_⟩
    exact pesqMeasure_ne_exited _ _ (fun _ _ => Option.some_ne_none _) _ _
  · unfold LeavesTmp StageFails
    decide
  · unfold LeavesTmp StageFails
    decide

/-- Two inputs that are no Opus files: the run returns, and the first temporary file of the first
one is left. -/
theorem main_leaves_tmp :
    NoTemporaries twoInputs (suffix "a") (suffix "b") ∧
      (main noOpus twoInputs (suffix "a") (suffix "b")).ret ≠ none ∧
      ¬NoTemporaries (main noOpus twoInputs (suffix "a") (suffix "b")).world (suffix "a")
        (suffix "b") := by
  have hret : (main noOpus twoInputs (suffix "a") (suffix "b")).ret ≠ none := by
    refine (main_ret_iff _ _ (by decide) (by decide)).mpr ⟨by decide, by decide, ?_⟩
    exact pesqMeasure_ne_exited _ _ (fun _ _ => Option.some_ne_none _) _ _
  refine ⟨by unfold NoTemporaries; decide, hret, fun hnone => ?_⟩
  have hfile := hnone (tmpName (suffix "a")) (by simp)
  rw [main_files_tmpName _ _ (by decide) (by decide) hret] at hfile
  revert hfile
  decide

/-! ## Inputs -/

/-- What a run changes besides the file of results. -/
def ChangedByStages (A B p : Path) : Prop :=
  (p = tmpName A ∧ env.output 0 (tmpName A) ≠ none) ∨ (p = monoName A ∧ WritesMono env 0 w A) ∨
    ((monoCall env 0 w A).2.ret ≠ none ∧
      ((p = tmpName B ∧ env.output 2 (tmpName B) ≠ none) ∨
        (p = monoName B ∧ WritesMono env 2 (afterFirst env w A) B))) ∨
    ((main env w A B).ret ≠ none ∧ (p = monoName A ∨ p = monoName B))

/-- The row that a run appends to the file of results, if it gets to it. -/
def mainRow (A B : Path) : Option (List UInt8) :=
  if (monoCall env 0 w A).2.ret ≠ none ∧ (monoCall env 2 (afterFirst env w A) B).2.ret ≠ none then
    appendedRow env (afterSecond env w A B) (copiedPath (monoName A)) (copiedPath (monoName B))
  else none

/-- A run changes what its stages change, and the file of results if it appends a row. -/
theorem main_changes {A B : Path} (hA : A ≠ []) (hB : B ≠ []) :
    w.Changes (main env w A B).world
      {p | ChangedByStages env w A B p ∨ (p = ITU_RESULTS_FILE ∧ mainRow env w A B ≠ none)} := by
  -- The changes of the steps add up, as far as the run gets.
  have hfirst := monoCall_changes env 0 w A
  have hsecond := hfirst.trans (monoCall_changes env 2 (afterFirst env w A) B)
  have hmeasure := hsecond.trans (pesqMeasure_changes env (afterSecond env w A B)
    (copiedPath (monoName A)) (copiedPath (monoName B))).1
  have hreturns := main_ret_iff env w hA hB
  unfold ChangedByStages mainRow
  rcases opusDecodeMono16khz_ret env 0 w A with ha | ha
  · rw [main_of_first_none hA hB ha, ha]
    exact hfirst.congr fun p => by simp
  · rcases opusDecodeMono16khz_ret env 2 (afterFirst env w A) B with hb | hb
    · rw [main_of_second_none hA hB ha hb, ha, hb]
      exact hsecond.congr fun p => by simp [or_assoc]
    · rw [main_of_returns hA hB ha hb, ha, hb]
      rcases measureAndRemove_world env (afterSecond env w A B)
        [(monoCall env 0 w A).2, (monoCall env 2 (afterFirst env w A) B).2] (monoName A)
        (monoName B) with ⟨-, hret, hworld⟩ | ⟨-, hret, hworld⟩
      · rw [hworld, hret]
        exact hmeasure.congr fun p => by simp [or_assoc]
      · rw [hworld]
        refine ((hmeasure.trans (World.Changes.remove _ (monoName A))).trans
          (World.Changes.remove _ (monoName B))).congr fun p => ?_
        simp only [Set.mem_union, Set.mem_ofPred_eq, Set.mem_singleton_iff, hret, ne_eq,
          not_false_eq_true, reduceCtorEq, true_and, and_self, if_true]
        -- What is left is about which of the five conditions hold.
        generalize (p = monoName A) = a
        generalize (p = monoName B) = b
        generalize (p = tmpName A ∧ _) = c
        generalize (p = tmpName B ∧ _) = d
        generalize (p = ITU_RESULTS_FILE ∧ _) = e
        grind

/-- The row is in the file of results at the end of the run. -/
theorem main_files_results {A B : Path} (hA : A ≠ []) (hB : B ≠ []) {row : List UInt8}
    (hrow : mainRow env w A B = some row) :
    (main env w A B).world.files ITU_RESULTS_FILE =
      some ((w.files ITU_RESULTS_FILE).getD [] ++ row) := by
  unfold mainRow at hrow
  split at hrow
  · rename_i hcalls
    have hmeasured : (measurement env w A B).2.2 ≠ .exited := fun hexited => by
      unfold appendedRow at hrow
      rw [show (pesqMeasure _ _ _ _).2.2 = .exited from hexited] at hrow
      cases hrow
    have hret := (main_ret_iff env w hA hB).mpr ⟨hcalls.1, hcalls.2, hmeasured⟩
    -- Neither call changes the file of results, and what is removed at the end is not it.
    have hkeep : (afterSecond env w A B).files ITU_RESULTS_FILE = w.files ITU_RESULTS_FILE :=
      calc (afterSecond env w A B).files ITU_RESULTS_FILE
          = (afterFirst env w A).files ITU_RESULTS_FILE :=
            (monoCall_changes env 2 (afterFirst env w A) B).files_eq (by
              simp [(tmpName_ne_results B).symm, (monoName_ne_results B).symm])
        _ = w.files ITU_RESULTS_FILE :=
            (monoCall_changes env 0 w A).files_eq (by
              simp [(tmpName_ne_results A).symm, (monoName_ne_results A).symm])
    rw [main_world_of_returns env w hA hB hret, ← hkeep]
    calc (((measurement env w A B).1.remove (monoName A)).remove (monoName B)).files
          ITU_RESULTS_FILE
        = ((measurement env w A B).1.remove (monoName A)).files ITU_RESULTS_FILE :=
          if_neg (monoName_ne_results B).symm
      _ = (measurement env w A B).1.files ITU_RESULTS_FILE := if_neg (monoName_ne_results A).symm
      _ = some (((afterSecond env w A B).files ITU_RESULTS_FILE).getD [] ++ row) :=
          (pesqMeasure_changes env (afterSecond env w A B) _ _).2 row hrow
  · cases hrow

/-- The inputs of a run are left alone: no write, truncation or removal by a stage of the run names
one of them, at the end they have the content that they had at the start, and the second one has it
when it is decoded. The measurement's own file of results is not one of the stages' files. -/
def InputsKept (A B : Path) : Prop :=
  (∀ e ∈ (main env w A B).world.log.drop w.log.length, ∀ p, e.Changes p →
      p ≠ ITU_RESULTS_FILE → p ≠ A ∧ p ≠ B) ∧
    (main env w A B).world.files A = w.files A ∧ (main env w A B).world.files B = w.files B ∧
      (afterFirst env w A).files B = w.files B

/-- No stage of an input ends the process. -/
def CallReturns (input : Path) : Prop :=
  (opusDecodeFile env stage w input (tmpName input)).2 ≠ none ∧
    ((opusDecodeFile env stage w input (tmpName input)).2 = some true →
      (resampleFile env (stage + 1) (opusDecodeFile env stage w input (tmpName input)).1
        (tmpName input) (monoName input) 16000 1).2 ≠ none)

/-- A call returns exactly if no stage of its input ends the process. -/
theorem callReturns_iff (input : Path) :
    CallReturns env stage w input ↔ (monoCall env stage w input).2.ret ≠ none := by
  unfold CallReturns
  rcases monoCall_cases env stage w input with
    ⟨hdecode, hcall⟩ | ⟨hdecode, hcall⟩ | ⟨hdecode, hresample, hcall⟩ |
      ⟨hdecode, hresample, hcall⟩ | ⟨hdecode, hresample, hcall⟩ <;> rw [hcall, hdecode]
  · simp
  · simp
  all_goals simp [hresample]

/-- No stage of either input ends the process. -/
def CallsReturn (A B : Path) : Prop :=
  CallReturns env 0 w A ∧ CallReturns env 2 (afterFirst env w A) B

/-- Neither the stages of the inputs nor the measurement end the process. -/
def StagesReturn (A B : Path) : Prop :=
  CallsReturn env w A B ∧ (measurement env w A B).2.2 ≠ .exited

/-- A run returns exactly if its stages do. -/
theorem stagesReturn_iff {A B : Path} (hA : A ≠ []) (hB : B ≠ []) :
    StagesReturn env w A B ↔ (main env w A B).ret ≠ none := by
  unfold StagesReturn CallsReturn
  rw [main_ret_iff env w hA hB, callReturns_iff, callReturns_iff, and_assoc]

/-- A row is appended exactly if the stages of the inputs return and the measurement gives a score
that has one. -/
theorem mainRow_eq_some_iff {A B : Path} {row : List UInt8} :
    mainRow env w A B = some row ↔ CallsReturn env w A B ∧
      ∃ mos, (measurement env w A B).2.2 = .score mos ∧ env.results mos = some row := by
  unfold mainRow CallsReturn appendedRow
  rw [callReturns_iff, callReturns_iff]
  split
  · rename_i hcalls
    rw [and_iff_right hcalls]
    show (match (measurement env w A B).2.2 with
      | .score mos => env.results mos
      | _ => none) = some row ↔ _
    cases (measurement env w A B).2.2 <;> simp
  · rename_i hcalls
    exact iff_of_false (fun h => by cases h) fun h => hcalls h.1

/-- Neither input has a name that the run derives from the other one and changes, or that of the
file of results, if a row is appended to it. -/
structure NamesApart (A B : Path) : Prop where
  first_tmp : B = tmpName A → env.output 0 (tmpName A) = none
  /-- The second file of the first input is written by a stage, and removed where all return. -/
  first_mono : B = monoName A → ¬WritesMono env 0 w A ∧ ¬StagesReturn env w A B
  second_tmp : A = tmpName B → CallReturns env 0 w A → env.output 2 (tmpName B) = none
  second_mono : A = monoName B →
    (CallReturns env 0 w A → ¬WritesMono env 2 (afterFirst env w A) B) ∧ ¬StagesReturn env w A B
  results : A = ITU_RESULTS_FILE ∨ B = ITU_RESULTS_FILE → CallsReturn env w A B →
    ∀ mos, (measurement env w A B).2.2 = .score mos → ∀ row, env.results mos = some row → row = []

/-- The stages of a run leave the second input alone exactly if it has no name derived from the
first one that they change. -/
theorem not_changedByStages_second_iff {A B : Path} (hA : A ≠ []) (hB : B ≠ []) :
    ¬ChangedByStages env w A B B ↔
      (B = tmpName A → env.output 0 (tmpName A) = none) ∧
        (B = monoName A → ¬WritesMono env 0 w A ∧ ¬StagesReturn env w A B) := by
  rw [stagesReturn_iff env w hA hB, not_not]
  constructor
  · intro h
    exact ⟨fun he => not_not.mp fun hout => h (Or.inl ⟨he, hout⟩),
      fun he => ⟨fun hwrites => h (Or.inr (Or.inl ⟨he, hwrites⟩)),
        not_not.mp fun hret => h (Or.inr (Or.inr (Or.inr ⟨hret, Or.inl he⟩)))⟩⟩
  · rintro ⟨htmp, hmono⟩ (⟨he, hout⟩ | ⟨he, hwrites⟩ | ⟨-, ⟨he, -⟩ | ⟨he, -⟩⟩ | ⟨hret, he | he⟩)
    · exact hout (htmp he)
    · exact (hmono he).1 hwrites
    · exact ne_tmpName B he
    · exact ne_monoName B he
    · exact hret (hmono he).2
    · exact ne_monoName B he

/-- The stages of a run leave the first input alone exactly if it has no name derived from the
second one that they change. -/
theorem not_changedByStages_first_iff {A B : Path} (hA : A ≠ []) (hB : B ≠ []) :
    ¬ChangedByStages env w A B A ↔
      (A = tmpName B → CallReturns env 0 w A → env.output 2 (tmpName B) = none) ∧
        (A = monoName B →
          (CallReturns env 0 w A → ¬WritesMono env 2 (afterFirst env w A) B) ∧
            ¬StagesReturn env w A B) := by
  rw [stagesReturn_iff env w hA hB, not_not, callReturns_iff]
  constructor
  · intro h
    exact ⟨fun he hcall => not_not.mp fun hout =>
      h (Or.inr (Or.inr (Or.inl ⟨hcall, Or.inl ⟨he, hout⟩⟩))),
      fun he =>
        ⟨fun hcall hwrites => h (Or.inr (Or.inr (Or.inl ⟨hcall, Or.inr ⟨he, hwrites⟩⟩))),
          not_not.mp fun hret => h (Or.inr (Or.inr (Or.inr ⟨hret, Or.inr he⟩)))⟩⟩
  · rintro ⟨htmp, hmono⟩
      (⟨he, -⟩ | ⟨he, -⟩ | ⟨hcall, ⟨he, hout⟩ | ⟨he, hwrites⟩⟩ | ⟨hret, he | he⟩)
    · exact ne_tmpName A he
    · exact ne_monoName A he
    · exact hout (htmp he hcall)
    · exact (hmono he).1 hcall hwrites
    · exact ne_monoName A he
    · exact hret (hmono he).2

/-- The stages of a run name no input exactly if they leave both alone. -/
theorem effects_iff_changedByStages {A B : Path} (hA : A ≠ []) (hB : B ≠ []) :
    (∀ e ∈ (main env w A B).world.log.drop w.log.length, ∀ p, e.Changes p →
        p ≠ ITU_RESULTS_FILE → p ≠ A ∧ p ≠ B) ↔
      ¬ChangedByStages env w A B A ∧ ¬ChangedByStages env w A B B := by
  have hchanges := main_changes env w hA hB
  -- A stage does not change the file of results.
  have hresults : ¬ChangedByStages env w A B ITU_RESULTS_FILE := by
    unfold ChangedByStages
    simp [(tmpName_ne_results A).symm, (monoName_ne_results A).symm, (tmpName_ne_results B).symm,
      (monoName_ne_results B).symm]
  constructor
  · intro h
    have hnot : ∀ p, ChangedByStages env w A B p → p ≠ A ∧ p ≠ B := fun p hp => by
      obtain ⟨e, he, hep⟩ := hchanges.effects_iff.mpr (Or.inl hp)
      exact h e he p hep fun hpr => hresults (hpr ▸ hp)
    exact ⟨fun hp => (hnot A hp).1 rfl, fun hp => (hnot B hp).2 rfl⟩
  · rintro ⟨hkeepA, hkeepB⟩ e he p hep hne
    have hp : ChangedByStages env w A B p :=
      (hchanges.effects_iff.mp ⟨e, he, hep⟩).resolve_right fun hres => hne hres.1
    exact ⟨fun hpA => hkeepA (hpA ▸ hp), fun hpB => hkeepB (hpB ▸ hp)⟩

/-- An existing file that the stages leave alone has its content at the end, unless it is the file
of results and a row is appended to it. -/
theorem main_files_eq_iff {A B p : Path} (hA : A ≠ []) (hB : B ≠ []) (hp : w.files p ≠ none)
    (hkeep : ¬ChangedByStages env w A B p) :
    (main env w A B).world.files p = w.files p ↔
      (p = ITU_RESULTS_FILE → ∀ row, mainRow env w A B = some row → row = []) := by
  by_cases hres : p = ITU_RESULTS_FILE
  · subst hres
    cases hrow : mainRow env w A B with
    | none =>
      have hsame := (main_changes env w hA hB).files_eq
        (show ITU_RESULTS_FILE ∉ _ from fun h => h.elim hkeep fun hr => hr.2 hrow)
      exact iff_of_true hsame fun _ row h => by cases h
    | some row =>
      obtain ⟨content, hcontent⟩ := Option.ne_none_iff_exists'.mp hp
      rw [main_files_results env w hA hB hrow, hcontent]
      simp
  · have hsame := (main_changes env w hA hB).files_eq
      (show p ∉ _ from fun h => h.elim hkeep fun hr => hres hr.1)
    exact iff_of_true hsame fun h => absurd h hres

/-- The inputs are left alone exactly if neither has a name that the run derives from the other one
and changes, or that of the file of results, if a row is appended to it. -/
theorem main_inputsKept_iff (A B : Path) (hA : A ≠ []) (hB : B ≠ []) (hfileA : w.files A ≠ none)
    (hfileB : w.files B ≠ none) : InputsKept env w A B ↔ NamesApart env w A B := by
  have hfirst := not_changedByStages_first_iff env w hA hB
  have hsecond := not_changedByStages_second_iff env w hA hB
  have heffects := effects_iff_changedByStages env w hA hB
  -- The row, by the stages that it takes.
  have hrow : (∀ row, mainRow env w A B = some row → row = []) ↔ (CallsReturn env w A B →
      ∀ mos, (measurement env w A B).2.2 = .score mos → ∀ row, env.results mos = some row →
        row = []) :=
    ⟨fun h hcalls mos hmos row hresults =>
      h row ((mainRow_eq_some_iff env w).mpr ⟨hcalls, mos, hmos, hresults⟩),
      fun h row hmainRow => by
        obtain ⟨hcalls, mos, hmos, hresults⟩ := (mainRow_eq_some_iff env w).mp hmainRow
        exact h hcalls mos hmos row hresults⟩
  constructor
  · rintro ⟨huntouched, hcontentA, hcontentB, -⟩
    obtain ⟨hkeepA, hkeepB⟩ := heffects.mp huntouched
    obtain ⟨htmpA, hmonoA⟩ := hfirst.mp hkeepA
    obtain ⟨htmpB, hmonoB⟩ := hsecond.mp hkeepB
    refine ⟨htmpB, hmonoB, htmpA, hmonoA, fun hres => hrow.mp ?_⟩
    rcases hres with hres | hres
    · exact (main_files_eq_iff env w hA hB hfileA hkeepA).mp hcontentA hres
    · exact (main_files_eq_iff env w hA hB hfileB hkeepB).mp hcontentB hres
  · intro h
    have hkeepA := hfirst.mpr ⟨h.second_tmp, h.second_mono⟩
    have hkeepB := hsecond.mpr ⟨h.first_tmp, h.first_mono⟩
    refine ⟨heffects.mpr ⟨hkeepA, hkeepB⟩,
      (main_files_eq_iff env w hA hB hfileA hkeepA).mpr fun hres =>
        hrow.mpr (h.results (Or.inl hres)),
      (main_files_eq_iff env w hA hB hfileB hkeepB).mpr fun hres =>
        hrow.mpr (h.results (Or.inr hres)), ?_⟩
    -- The first call comes before the second input is decoded.
    apply (monoCall_changes env 0 w A).files_eq
    rintro (hchanged | hchanged)
    · exact hkeepB (Or.inl hchanged)
    · exact hkeepB (Or.inr (Or.inl hchanged))

/-- The inputs `a` and `b` are left alone. -/
theorem main_inputsKept_two :
    InputsKept (benignEnvironment fun _ => some Opus.declaringFile) twoInputs (suffix "a")
      (suffix "b") :=
  (main_inputsKept_iff (benignEnvironment fun _ => some Opus.declaringFile) twoInputs (suffix "a")
    (suffix "b") (by decide) (by decide) (by decide) (by decide)).mpr
    { first_tmp := fun h => absurd h (by decide)
      first_mono := fun h => absurd h (by decide)
      second_tmp := fun h => absurd h (by decide)
      second_mono := fun h => absurd h (by decide)
      results := fun h => absurd h (by decide) }

/-- Two inputs, the second one of which has the name of the first temporary file of the first one.
-/
def nestedInputs : World where
  files path := if path = suffix "a" ∨ path = tmpName (suffix "a") then some [] else none
  log := []

/-- The second input is overwritten before it is decoded, and removed. -/
theorem main_removes_input :
    nestedInputs.files (suffix "a") ≠ none ∧ nestedInputs.files (tmpName (suffix "a")) ≠ none ∧
      ¬InputsKept (benignEnvironment fun _ => some Opus.declaringFile) nestedInputs (suffix "a")
        (tmpName (suffix "a")) := by
  refine ⟨by decide, by decide, fun hkept => ?_⟩
  have hdecoded := hkept.2.2.2
  revert hdecoded
  decide

end TgVoipRate.Pipeline
