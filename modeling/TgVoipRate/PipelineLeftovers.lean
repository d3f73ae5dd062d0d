import TgVoipRate.PipelineSignals

/-!
# Whose score is printed

A run that prints a score may have failed to decode its inputs: the calls return true all the same,
and what is measured are the files that have the names. A score is that of the run's own inputs
exactly where no stage fails and no name is cut (`main_scoreIsOwn_iff`). Otherwise it may be that of
files which earlier runs left (`main_leftovers`).
-/

namespace TgVoipRate.Pipeline

open FileSystem (Path World)
open Pesq (LoadsSamples rate_16k suffix)

section Run

variable {S : Type}

/-- A printed score is about this run's inputs: both calls succeeded in both stages, and the paths
that were measured are those that their second stages wrote. And a call returns true exactly when
both of its stages succeeded. -/
def MainRun.ScoreIsOwn (r : MainRun S) : Prop :=
  (∀ mos, r.printed = .score mos → ∃ a b, r.calls = [a, b] ∧ a.Succeeded ∧ b.Succeeded ∧
      r.opened = [a.decoded_16khz_name, b.decoded_16khz_name]) ∧
    ∀ c ∈ r.calls, c.ret = some true ↔ c.Succeeded

/-- Where both calls returned true, the run is about its inputs exactly if both succeeded, and the
names were not cut or there is no score. -/
theorem measureAndRemove_scoreIsOwn_iff {env : Environment S} {w : World} {A B : Path}
    {a b : MonoCall} (ha : a.ret = some true) (hb : b.ret = some true)
    (haname : a.decoded_16khz_name = monoName A) (hbname : b.decoded_16khz_name = monoName B) :
    (measureAndRemove env w [a, b] (monoName A) (monoName B)).ScoreIsOwn ↔
      (a.Succeeded ∧ b.Succeeded) ∧
        ((A.length ≤ 497 ∧ B.length ≤ 497) ∨
          ∀ mos, (pesqMeasure env w (copiedPath (monoName A)) (copiedPath (monoName B))).2.2 ≠
            .score mos) := by
  obtain ⟨hcalls, hopened⟩ := measureAndRemove_record env w [a, b] (monoName A) (monoName B)
  unfold MainRun.ScoreIsOwn
  rw [hcalls, hopened]
  constructor
  · rintro ⟨hscore, hiff⟩
    have hasucc := (hiff a List.mem_cons_self).mp ha
    have hbsucc := (hiff b (List.mem_cons_of_mem a List.mem_cons_self)).mp hb
    refine ⟨⟨hasucc, hbsucc⟩, ?_⟩
    by_cases hprint : ∃ mos, (pesqMeasure env w (copiedPath (monoName A))
        (copiedPath (monoName B))).2.2 = .score mos
    · -- The paths that were opened are the cut names, so nothing was cut.
      obtain ⟨mos, hmos⟩ := hprint
      obtain ⟨a', b', hab, -, -, hpaths⟩ := hscore mos
        ((measureAndRemove_printed env w [a, b] _ _ mos).mpr hmos)
      simp only [List.cons.injEq, and_true] at hab
      obtain ⟨rfl, rfl⟩ := hab
      rw [pesqMeasure_opened hmos, haname, hbname] at hpaths
      simp only [List.cons.injEq, and_true] at hpaths
      exact Or.inl ⟨(copiedPath_monoName_iff A).mp hpaths.1,
        (copiedPath_monoName_iff B).mp hpaths.2⟩
    · exact Or.inr fun mos hmos => hprint ⟨mos, hmos⟩
  · rintro ⟨⟨hasucc, hbsucc⟩, hnames⟩
    refine ⟨fun mos hprinted => ⟨a, b, rfl, hasucc, hbsucc, ?_⟩, fun c hc => ?_⟩
    · have hmos := (measureAndRemove_printed env w [a, b] _ _ mos).mp hprinted
      rcases hnames with ⟨hlenA, hlenB⟩ | hnone
      · rw [pesqMeasure_opened hmos, haname, hbname, (copiedPath_monoName_iff A).mpr hlenA,
          (copiedPath_monoName_iff B).mpr hlenB]
      · exact absurd hmos (hnone mos)
    · rcases List.mem_cons.mp hc with rfl | hc
      · exact ⟨fun _ => hasucc, fun _ => ha⟩
      · rw [List.mem_singleton.mp hc]
        exact ⟨fun _ => hbsucc, fun _ => hb⟩

/-- A run is about its inputs exactly when no stage that is reached fails, and, if both calls
return, the arguments are at most 497 bytes long or the measurement of the files at the cut names
gives no score. -/
theorem main_scoreIsOwn_iff (env : Environment S) (w : World) (A B : Path) (hA : A ≠ [])
    (hB : B ≠ []) :
    (main env w A B).ScoreIsOwn ↔
      ¬StageFails env 0 w A ∧
        ((monoCall env 0 w A).2.ret ≠ none →
          ¬StageFails env 2 (monoCall env 0 w A).1 B ∧
            ((monoCall env 2 (monoCall env 0 w A).1 B).2.ret ≠ none →
              (A.length ≤ 497 ∧ B.length ≤ 497) ∨
                ∀ mos, (pesqMeasure env (monoCall env 2 (monoCall env 0 w A).1 B).1
                  (copiedPath (monoName A)) (copiedPath (monoName B))).2.2 ≠ .score mos)) := by
  obtain ⟨haiff, hanone⟩ := opusDecodeMono16khz_succeeded_iff env 0 w A
  have haname := opusDecodeMono16khz_name env 0 w A
  rcases opusDecodeMono16khz_ret env 0 w A with ha | ha
  · -- The first call ended the process.
    have hfails := hanone ha
    have hsucc : ¬(monoCall env 0 w A).2.Succeeded := fun h => (haiff.mp h).1 ha
    rw [main_of_first_none hA hB ha]
    simp [MainRun.ScoreIsOwn, ha, hfails, hsucc]
  · have ha' : (monoCall env 0 w A).2.ret ≠ none := by simp [ha]
    obtain ⟨hbiff, hbnone⟩ := opusDecodeMono16khz_succeeded_iff env 2 (monoCall env 0 w A).1 B
    have hbname := opusDecodeMono16khz_name env 2 (monoCall env 0 w A).1 B
    rcases opusDecodeMono16khz_ret env 2 (monoCall env 0 w A).1 B with hb | hb
    · -- The second call ended the process.
      have hfails := hbnone hb
      have hsucc : ¬(monoCall env 2 (monoCall env 0 w A).1 B).2.Succeeded :=
        fun h => (hbiff.mp h).1 hb
      rw [main_of_second_none hA hB ha hb]
      simp [MainRun.ScoreIsOwn, ha, hb, hfails, hsucc, haiff]
    · -- Both calls returned true, whatever their stages did.
      have hb' : (monoCall env 2 (monoCall env 0 w A).1 B).2.ret ≠ none := by simp [hb]
      rw [main_of_returns hA hB ha hb, measureAndRemove_scoreIsOwn_iff ha hb haname hbname,
        haiff, hbiff]
      simp only [ne_eq, ha', hb', not_false_eq_true, true_and, forall_const, and_assoc]

end Run

/-- A run whose stages succeed, and which prints a score, is about its inputs. -/
theorem main_scoreIsOwn_two :
    (main toneEnvironment twoInputs (suffix "a") (suffix "b")).printed = .score () ∧
      (main toneEnvironment twoInputs (suffix "a") (suffix "b")).ScoreIsOwn := by
  have htone {w : World} {input : Path} (hfile : w.files input = some []) :
      (w.files input).bind toneEnvironment.op_open_file = some tone := by
    rw [hfile]
    rfl
  have hlong : 6000 ≤ tone.frames.length := by
    rw [tone_frames]
    decide
  have hsucceeds (stage : ℕ) {w : World} {input : Path} (hfile : w.files input = some []) :
      ¬StageFails toneEnvironment stage w input :=
    ((opusDecodeMono16khz_succeeded_iff toneEnvironment stage w input).1.mp
      (monoCall_succeeds (htone hfile) declares_tone hlong reliable_toneEnvironment.output
        reliable_toneEnvironment.ffmpeg)).2
  refine ⟨main_prints_tone.2, (main_scoreIsOwn_iff toneEnvironment twoInputs (suffix "a")
    (suffix "b") (by decide) (by decide)).mpr ⟨hsucceeds 0 rfl, fun _ => ⟨hsucceeds 2 ?_,
      fun _ => Or.inl ⟨by decide, by decide⟩⟩⟩⟩
  refine (monoCall_changes toneEnvironment 0 twoInputs (suffix "a")).files_eq ?_
  rintro (⟨hname, -⟩ | ⟨hname, -⟩)
  · exact absurd hname (by decide)
  · exact absurd hname (by decide)

/-! ## Files of earlier runs -/

/-- A second of a square wave with a period of sixteen samples. -/
def leftoverSamples : List Int16 :=
  (List.range 16000).map fun i => if i / 8 % 2 = 0 then 8000 else -8000

/-- The content of a file that an earlier run left. -/
def leftoverFile : List UInt8 :=
  (Pesq.resampledHeader leftoverSamples.length).toBytes ++ Wav.memBytes leftoverSamples

/-- Two files that earlier runs left, and no inputs. -/
def leftovers : World where
  files path :=
    if path = monoName (suffix "a") ∨ path = monoName (suffix "b") then some leftoverFile else none
  log := []

/-- An environment without failures in which no file is an Opus file. -/
def noTone : Environment Unit := { toneEnvironment with op_open_file := fun _ => none }

/-- The file system after the two calls of a run on the leftovers. -/
abbrev afterCalls : World := afterSecond noTone leftovers (suffix "a") (suffix "b")

/-- A file that was left is loaded, is long enough, and sounds. -/
theorem loadFile_leftover (signal : ℕ) {w : World} {input : Path}
    (hfile : w.files (monoName input) = some leftoverFile) :
    (loadFile noTone signal w (monoName input)).2.1 = none ∧
      tooShort (loadFile noTone signal w (monoName input)).2.2 = false ∧
      sounds (loadFile noTone signal w (monoName input)).2.2 = true := by
  have hlength : leftoverSamples.length = 16000 := by
    unfold leftoverSamples
    rw [List.length_map, List.length_range]
  have hsounds : 8000 ∈ leftoverSamples := by
    unfold leftoverSamples
    rw [List.range_succ_eq_map, List.map_cons]
    exact List.mem_cons_self
  have hload : LoadsSamples rate_16k leftoverSamples
      (loadFile noTone signal w (monoName input)).2 :=
    loadFile_samples ⟨fun _ _ => rfl, rfl, rfl, rfl⟩ hfile (by rw [hlength]; decide)
  exact ⟨hload.1, tooShort_of_samples hload (by rw [hlength]; decide),
    sounds_of_loads ⟨rfl, hload.2⟩ hsounds⟩

/-- Neither input exists, but files of their names were left: both calls return true, and a score is
printed. -/
theorem main_leftovers :
    (main noTone leftovers (suffix "a") (suffix "b")).printed = .score () ∧
      (∀ c ∈ (main noTone leftovers (suffix "a") (suffix "b")).calls,
        c.decode = some false ∧ c.ret = some true) ∧
      ¬(main noTone leftovers (suffix "a") (suffix "b")).ScoreIsOwn := by
  have ha : (monoCall noTone 0 leftovers (suffix "a")).2 =
      { input_filename := suffix "a", decoded_16khz_name := monoName (suffix "a"),
        decode := some false, resample := none, ret := some true } := by decide
  have hb : (monoCall noTone 2 (monoCall noTone 0 leftovers (suffix "a")).1 (suffix "b")).2 =
      { input_filename := suffix "b", decoded_16khz_name := monoName (suffix "b"),
        decode := some false, resample := none, ret := some true } := by decide
  rw [main_of_returns (by decide) (by decide) (by rw [ha]) (by rw [hb]), ha, hb]
  obtain ⟨hcalls, -⟩ := measureAndRemove_record noTone afterCalls
    [⟨suffix "a", monoName (suffix "a"), some false, none, some true⟩,
      ⟨suffix "b", monoName (suffix "b"), some false, none, some true⟩]
    (monoName (suffix "a")) (monoName (suffix "b"))
  have hfileA : afterCalls.files (monoName (suffix "a")) = some leftoverFile := rfl
  have hfileB : (afterCalls.read (monoName (suffix "a"))).files (monoName (suffix "b")) =
      some leftoverFile := rfl
  obtain ⟨hloadA, hlongA, hsoundsA⟩ := loadFile_leftover 0 hfileA
  obtain ⟨hloadB, hlongB, hsoundsB⟩ := loadFile_leftover 1 hfileB
  have hscore := pesqMeasure_of_loaded hloadA hloadB hlongA hlongB rfl
  rw [show noTone.model _ _ = some () from if_pos ⟨hsoundsA, hsoundsB⟩] at hscore
  refine ⟨(measureAndRemove_printed noTone afterCalls _ _ _ ()).mpr hscore, ?_, ?_⟩
  · rw [hcalls]
    decide
  · rintro ⟨-, hiff⟩
    rw [hcalls] at hiff
    have hfirst := (hiff _ List.mem_cons_self).mp rfl
    exact absurd hfirst.1 (by decide)

end TgVoipRate.Pipeline
