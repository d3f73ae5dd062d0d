import TgVoipRate.Opus.DecodeSpec
import TgVoipRate.ResampleSpec
import TgVoipRate.Wav.HeaderSound
import TgVoipRate.Pesq.LoadSrcSpec
import TgVoipRate.Pesq.LoadSrcBounds
import TgVoipRate.PipelineSpec
import TgVoipRate.PipelineFiles
import TgVoipRate.PipelineScore
import TgVoipRate.PipelineLeftovers
import TgVoipRate.Transcode
import TgVoipRate.Pesq.Vad
import TgVoipRate.Pesq.TwoLevels
import TgVoipRate.Pesq.LocateSpec
import TgVoipRate.Pesq.SplitSpec
import TgVoipRate.Pesq.SplitSafe
import TgVoipRate.Pesq.VadLaw
import TgVoipRate.Pesq.ScansAgree
import TgVoipRate.Pesq.BadIntervalsSpec
import TgVoipRate.Pesq.BadIntervalsExact
import TgVoipRate.Wav.ReaderCalls
import TgVoipRate.Wav.WriterSpec
import TgVoipRate.Opus.EncodeSpec
import TgVoipRate.Pesq.FinalAverage
import TgVoipRate.Pesq.ModelAccessBounds
import TgVoipRate.Pesq.WindowAligned
import TgVoipRate.Pesq.AlignAccessBounds
import TgVoipRate.Pesq.CrudeLag
import TgVoipRate.Pesq.CrudeCopy
import TgVoipRate.Pesq.BreakpointGrid
import TgVoipRate.Dsp.IirSpec
import TgVoipRate.Pesq.GainSpec
import TgVoipRate.Pesq.ScoreSpec
import TgVoipRate.Pesq.MeasureSpec
import TgVoipRate.Pesq.RealignSpec
import TgVoipRate.Pesq.VotesAgree
import TgVoipRate.Pesq.ConfidenceSpec
import TgVoipRate.Pesq.FilterSpec
