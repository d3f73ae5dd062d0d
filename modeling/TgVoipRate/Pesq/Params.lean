import Mathlib.Data.Int.Notation
import TgVoipRate.Lib.Numerals

/-!
# Constants of the PESQ library

The constants of `pesq.h`, and the globals that `select_rate` sets for a sample rate.
-/

namespace TgVoipRate.Pesq

/-- The number of entries of the utterance tables. -/
def MAXNUTTERANCES : ℤ := 50

/-- The windows that an utterance is searched for before and after the signal. -/
def SEARCHBUFFER : ℤ := 75

/-- The padding after a signal, in milliseconds. -/
def DATAPADDING_MSECS : ℤ := 320

/-- The longest run of windows that the voice activity detection drops as too short. -/
def MINSPEECHLGTH : ℤ := 4

/-- The longest gap between two runs that is joined. -/
def JOINSPEECHLGTH : ℤ := 50

/-- The shortest run of windows that is an utterance. -/
def MINUTTLENGTH : ℤ := 50

/-- The globals that depend on the sample rate. -/
structure Rate where
  /-- The sample rate. -/
  Fs : ℤ
  /-- The number of samples in a window. -/
  Downsample : ℤ
  /-- The size of the transform of the fine alignment. -/
  Align_Nfft : ℤ

/-- The globals for 16 kHz, which `init_resamplers` selects. -/
def rate_16k : Rate := { Fs := 16000, Downsample := 64, Align_Nfft := 1024 }

/-- The globals for 8 kHz. -/
def rate_8k : Rate := { Fs := 8000, Downsample := 32, Align_Nfft := 512 }

end TgVoipRate.Pesq
