import TgVoipRate.Pesq.Params
import TgVoipRate.Wav.Reader

/-!
# Loading a signal

`load_src` of `pesqio.c`. It does not read a header: it skips as many words as the suffix of the
file's name calls for, and takes the rest of the file for samples, block by block. A sample is
stored as a `float`, which represents every 16-bit integer exactly, so it is an integer here.

What may fail around the function is given by a `System`: the allocations and the calls that measure
the file. `load_src` sets `Error_Flag` to one and `Error_Type` to a text, or leaves both alone,
which is an optional text here.
-/

namespace TgVoipRate.Pesq

open Wav (memBytes memSamples)

/-- Which calls of the library and of the system succeed. -/
structure System where
  /-- Whether an allocation gives memory, by its number in the function. -/
  malloc : ℕ → Bool
  /-- `fseek` to the end. -/
  seek_end : Bool
  /-- `ftell` -/
  tell : Bool
  /-- `fseek` to the start. -/
  seek_set : Bool

/-- All the calls of `load_src` succeed. -/
def System.Succeeds (sys : System) : Prop :=
  (∀ i < 4, sys.malloc i = true) ∧ sys.seek_end = true ∧ sys.tell = true ∧ sys.seek_set = true

/-- An allocated array of floats and what was stored in it, from its first entry on. -/
structure Buffer where
  /-- The number of entries that were allocated. -/
  size : ℤ
  /-- The values stored. -/
  values : List ℤ

/-- A signal. -/
structure SignalInfo where
  /-- The path, as a C string. -/
  path_name : List UInt8
  Nsamples : ℤ
  apply_swap : Bool
  data : Option Buffer
  /-- The size of the array, in bytes. -/
  VAD : Option ℤ
  /-- The size of the array, in bytes. -/
  logVAD : Option ℤ

/-- A signal with a path, before it is loaded: its record was filled with zeros. -/
def SignalInfo.named (path_name : List UInt8) : SignalInfo :=
  { path_name, Nsamples := 0, apply_swap := false, data := none, VAD := none, logVAD := none }

/-- `fread` of 16-bit words: the words, and the file after them. -/
def freadShorts (count : ℕ) (file : List UInt8) : List Int16 × List UInt8 :=
  (memSamples (min count (file.length / 2)) file, file.drop (2 * count))

/-- Exchanges the bytes of a word. -/
def swapBytes (x : Int16) : Int16 := (x.toUInt16 >>> 8 ||| x.toUInt16 <<< 8).toInt16

/-- The values that are stored for the words of a block. -/
def blockValues (apply_swap : Bool) (block : List Int16) : List ℤ :=
  block.map fun x => if apply_swap then (swapBytes x).toInt else x.toInt

/-- The words in a full block. -/
def blockSize : ℕ := 16384

/-- Reads the samples: full blocks while there are more words to read than fit one, and the last
block with the words that are left. -/
def readBlocks (apply_swap : Bool) (to_read : ℤ) (file : List UInt8) : Except String (List ℤ) :=
  if to_read > blockSize then
    let (block, file) := freadShorts blockSize file
    if block.length < blockSize then .error "Error reading source file."
    else
      match readBlocks apply_swap (to_read - blockSize) file with
      | .error e => .error e
      | .ok values => .ok (blockValues apply_swap block ++ values)
  else
    -- A negative count is a huge `size_t`.
    let (block, _) := freadShorts (to_read % 2^64).toNat file
    if block.length < to_read then .error "Error reading source file"
    else .ok (blockValues apply_swap block)
termination_by to_read.toNat
decreasing_by
  simp only [blockSize] at *
  omega

/-- The bytes of a suffix. -/
def suffix (s : String) : List UInt8 := s.toList.map fun c => UInt8.ofNat c.toNat

/-- The number of words that are skipped before the samples. -/
def headerSize (path_name : List UInt8) : ℤ :=
  let name_len := path_name.length
  let header_size := 0
  let header_size :=
    if name_len > 4 then
      let ending := path_name.drop (name_len - 4)
      let header_size := if ending = suffix ".wav" then 22 else header_size
      let header_size := if ending = suffix ".WAV" then 22 else header_size
      let header_size := if ending = suffix ".raw" then 0 else header_size
      if ending = suffix ".src" then 0 else header_size
    else header_size
  if name_len > 2 then
    if path_name.drop (name_len - 2) = suffix ".s" then 0 else header_size
  else header_size

/-- The zeros before the samples. -/
def leadZeros (rate : Rate) : ℤ := SEARCHBUFFER * rate.Downsample

/-- The zeros after the samples. -/
def tailZeros (rate : Rate) : ℤ :=
  DATAPADDING_MSECS * (rate.Fs / 1000) + SEARCHBUFFER * rate.Downsample

/-- `load_src`, from the content of the file at the signal's path, if it can be opened: the text of
the error, if there is one, and the signal. -/
def load_src (sys : System) (rate : Rate) (Src_file : Option (List UInt8)) (sinfo : SignalInfo) :
    Option String × SignalInfo :=
  if !sys.malloc 0 then (some "Could not allocate storage for file reading", sinfo)
  else
    match Src_file with
    | none => (some "Could not open source file", sinfo)
    | some file =>
      if !sys.seek_end then (some "Could not reach end of source file", sinfo)
      else if !sys.tell then (some "Could not measure length of source file", sinfo)
      else if !sys.seek_set then (some "Could not reach start of source file", sinfo)
      else
        let file_size : ℤ := file.length
        -- The header is skipped by its length alone, which follows from the name.
        let header_size := headerSize sinfo.path_name
        let file := if header_size > 0 then (freadShorts header_size.toNat file).2 else file
        let Nsamples := file_size / 2 - header_size
        let sinfo := { sinfo with Nsamples := Nsamples + 2 * SEARCHBUFFER * rate.Downsample }
        if !sys.malloc 1 then
          (some "Failed to allocate memory for source file", { sinfo with data := none })
        else
          match readBlocks sinfo.apply_swap Nsamples file with
          | .error e => (some e, { sinfo with data := none })
          | .ok values =>
            let data :=
              { size := sinfo.Nsamples + DATAPADDING_MSECS * (rate.Fs / 1000)
                values := List.replicate (leadZeros rate).toNat 0 ++ values ++
                  List.replicate (tailZeros rate).toNat 0 }
            let bytes := sinfo.Nsamples * 4 / rate.Downsample
            -- The samples stay with the signal if there is no memory for the activities.
            let sinfo :=
              { sinfo with
                data := some data
                VAD := if sys.malloc 2 then some bytes else none
                logVAD := if sys.malloc 3 then some bytes else none }
            if sinfo.VAD = none ∨ sinfo.logVAD = none then
              (some "Failed to allocate memory for VAD", sinfo)
            else (none, sinfo)

end TgVoipRate.Pesq
