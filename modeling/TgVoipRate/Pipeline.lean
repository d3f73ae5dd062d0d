import TgVoipRate.Lib.FileSystem
import TgVoipRate.Opus.Decode
import TgVoipRate.Pesq.LoadSrc
import TgVoipRate.Resample

/-!
# The program

`main` of `pesqmain_adapter.cc` with `opus_decode_mono_16khz` of `opusfile_adapter.cc` and
`pesq_measure` of `pesqmain.c`, over a file system. Each stage takes its files by name and may fail
in the way its own model lets it; what is around the program is given by an `Environment`: how an
Opus file is read, which outputs can be opened and what their devices do, the resampling library,
the calls that `load_src` makes, and the acoustic model. The scores are of any type.

A run records what its caller could see of it: the calls of `opus_decode_mono_16khz` with the
results of their stages, the paths that `load_src` opened, what was printed, and the exit status.
-/

namespace TgVoipRate.Pipeline

open FileSystem (Path World)
open OutStream (Device)
open Opus (OggOpusFile)
open Pesq (SignalInfo System suffix)
open Resample (FFmpeg)

/-- What surrounds a run of the program. -/
structure Environment (S : Type) where
  /-- `op_open_file` on the content of a file. -/
  op_open_file : List UInt8 → Option OggOpusFile
  /-- The device of an output that is opened, by the number of the stage and the path. -/
  output : ℕ → Path → Option Device
  /-- The resampling library, by the number of the stage. -/
  ffmpeg : ℕ → FFmpeg
  /-- The calls of `load_src`, for the reference and for the degraded signal. -/
  load : ℕ → System
  /-- Whether `alloc_other` gets its memory. -/
  alloc_other : Bool
  /-- The levels, the filters and the acoustic model: a score, or none where the process exits. -/
  model : SignalInfo → SignalInfo → Option S
  /-- The text that a score appends to the file of results, or none where it cannot be opened. -/
  results : S → Option (List UInt8)

variable {S : Type}

/-! ## The stages -/

/-- `opus_decode` by name: the output file is opened, and truncated, before the input file. -/
def opusDecodeFile (env : Environment S) (stage : ℕ) (w : World)
    (input_filename output_filename : Path) :
    World × Option Bool :=
  match env.output stage output_filename with
  | none => (w, some false)
  | some dev =>
    let w := (w.write output_filename []).read input_filename
    let outcome := Opus.opusDecode (some dev) ((w.files input_filename).bind env.op_open_file)
    (w.write output_filename (outcome.wav_file.getD []), outcome.ret)

/-- `resample` by name. -/
def resampleFile (env : Environment S) (stage : ℕ) (w : World) (in_file out_file : Path)
    (out_sample_rate out_channels : ℕ) : World × Option Bool :=
  let w := w.read in_file
  let outcome := Resample.resample (env.ffmpeg stage) (w.files in_file) (env.output stage out_file)
    out_sample_rate out_channels
  match outcome.wav_file with
  | none => (w, outcome.ret)
  | some content => (w.write out_file content, outcome.ret)

/-- A call of `opus_decode_mono_16khz`: its arguments, the results of its stages and its result. No
result of the second stage is one that was not called; a stage or a call without a result has ended
the process. -/
structure MonoCall where
  input_filename : Path
  decoded_16khz_name : Path
  decode : Option Bool
  resample : Option (Option Bool)
  ret : Option Bool
  deriving DecidableEq

/-- Both stages succeeded. -/
def MonoCall.Succeeded (c : MonoCall) : Prop := c.decode = some true ∧ c.resample = some (some true)

/-- The conversion of an `int` to `bool` by a `return` statement. -/
def returnInt (n : ℤ) : Bool := n ≠ 0

/-- `opus_decode_mono_16khz`; `stage` is the number of its first stage. -/
def opusDecodeMono16khz (env : Environment S) (stage : ℕ) (w : World)
    (input_filename decoded_16khz_name : Path) : World × MonoCall :=
  let decoded_filename_tmp := input_filename ++ suffix "_dec_48khz_tmp.wav"
  let (w, decoded) := opusDecodeFile env stage w input_filename decoded_filename_tmp
  let call : MonoCall :=
    { input_filename, decoded_16khz_name, decode := decoded, resample := none, ret := none }
  -- A failed stage returns the status 1, which is true as a `bool`.
  match decoded with
  | none => (w, call)
  | some false => (w, { call with ret := some (returnInt 1) })
  | some true =>
    let (w, resampled) :=
      resampleFile env (stage + 1) w decoded_filename_tmp decoded_16khz_name 16000 1
    let call := { call with resample := some resampled }
    match resampled with
    | none => (w, call)
    | some false => (w, { call with ret := some (returnInt 1) })
    | some true => (w.remove decoded_filename_tmp, { call with ret := some true })

/-! ## The measurement -/

/-- How a measurement ended. -/
inductive Measured (S : Type)
  /-- `Error_Flag` is not zero. -/
  | error (Error_Flag : ℤ) (Error_Type : String)
  /-- The score. -/
  | score (mapped_mos : S)
  /-- The process has exited. -/
  | exited

/-- The path of the file of results. -/
def ITU_RESULTS_FILE : Path := suffix "pesq_results.txt"

/-- Loads a signal by its path. -/
def loadFile (env : Environment S) (signal : ℕ) (w : World) (path_name : Path) :
    World × Option String × SignalInfo :=
  (w.read path_name, Pesq.load_src (env.load signal) Pesq.rate_16k (w.files path_name)
    (SignalInfo.named path_name))

/-- A signal is below a quarter of a second. -/
def tooShort (info : SignalInfo) : Bool :=
  info.Nsamples - 2 * Pesq.SEARCHBUFFER * Pesq.rate_16k.Downsample < Pesq.rate_16k.Fs / 4

/-- `pesq_measure`: the file system after it, the paths it opened, and how it ended. -/
def pesqMeasure (env : Environment S) (w : World) (ref_path deg_path : Path) :
    World × List Path × Measured S :=
  let (w, err, ref_info) := loadFile env 0 w ref_path
  match err with
  | some text => (w, [ref_path], .error 1 text)
  | none =>
    let (w, err, deg_info) := loadFile env 1 w deg_path
    let opened := [ref_path, deg_path]
    match err with
    | some text => (w, opened, .error 1 text)
    | none =>
      if tooShort ref_info || tooShort deg_info then
        (w, opened, .error 2 "Reference or Degraded below 1/4 second - processing stopped ")
      else if !env.alloc_other then
        (w, opened, .error 2 "Failed to allocate memory for temporary storage.")
      else
        match env.model ref_info deg_info with
        | none => (w, opened, .exited)
        | some mos =>
          -- The score is the result whether or not it could be appended to the file.
          match env.results mos with
          | none => (w, opened, .score mos)
          | some row =>
            let old := (w.files ITU_RESULTS_FILE).getD []
            (w.write ITU_RESULTS_FILE (old ++ row), opened, .score mos)

/-! ## The main function -/

/-- What a run prints last. -/
inductive Printed (S : Type)
  /-- Nothing of the below. -/
  | nothing
  /-- How to call the program. -/
  | usage
  /-- A score. -/
  | score (mapped_mos : S)
  /-- That the prediction failed. -/
  | failed

/-- A run of the program: the file system after it, the calls of `opus_decode_mono_16khz` and the
paths that `load_src` opened, in order, what it printed and the status that `main` returned. No
status is a process that ended before. -/
structure MainRun (S : Type) where
  world : World
  calls : List MonoCall
  opened : List Path
  printed : Printed S
  ret : Option ℤ

/-- The bytes that `path_name` has room for. -/
def pathNameSize : ℕ := 512

/-- The largest file name that `stdio.h` promises. -/
def FILENAME_MAX : ℕ := 4096

/-- The path that `load_src` sees after `strncpy` into the zeroed record: `path_name` may have no
zero byte, but the field after it starts with one. -/
def copiedPath (name : Path) : Path := name.take (min (min FILENAME_MAX pathNameSize) name.length)

/-- The name of the file that an argument is resampled to. -/
def monoName (arg : Path) : Path := arg ++ suffix "_mono_16khz.wav"

/-- The part of `main` after both inputs were decoded. -/
def measureAndRemove (env : Environment S) (w : World) (calls : List MonoCall)
    (in_wav_A in_wav_B : Path) :
    MainRun S :=
  let (w, opened, measured) := pesqMeasure env w (copiedPath in_wav_A) (copiedPath in_wav_B)
  match measured with
  | .exited => { world := w, calls, opened, printed := .nothing, ret := none }
  | .score mos =>
    { world := (w.remove in_wav_A).remove in_wav_B, calls, opened, printed := .score mos,
      ret := some 0 }
  | .error err _ =>
    { world := (w.remove in_wav_A).remove in_wav_B, calls, opened, printed := .failed,
      ret := some err }

/-- `main` on its two arguments. -/
def main (env : Environment S) (w : World) (input_filename_A input_filename_B : Path) : MainRun S :=
  if input_filename_A = [] ∨ input_filename_B = [] then
    { world := w, calls := [], opened := [], printed := .usage, ret := some 1 }
  else
    let in_wav_A := monoName input_filename_A
    let in_wav_B := monoName input_filename_B
    let (w, a) := opusDecodeMono16khz env 0 w input_filename_A in_wav_A
    -- Only the result of the call counts here, and nothing is removed before the measurement.
    match a.ret with
    | none => { world := w, calls := [a], opened := [], printed := .nothing, ret := none }
    | some false => { world := w, calls := [a], opened := [], printed := .nothing, ret := some 1 }
    | some true =>
      let (w, b) := opusDecodeMono16khz env 2 w input_filename_B in_wav_B
      match b.ret with
      | none => { world := w, calls := [a, b], opened := [], printed := .nothing, ret := none }
      | some false =>
        { world := w, calls := [a, b], opened := [], printed := .nothing, ret := some 1 }
      | some true => measureAndRemove env w [a, b] in_wav_A in_wav_B

end TgVoipRate.Pipeline
