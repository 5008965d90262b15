import PcmConversion.Conversion
import PcmConversion.Rate.BlockTransform
import PcmConversion.Rate.Interpolation

/-!
# The standard rate backends

The two families of backends, chosen by the settings, as one provider.
-/

namespace PcmConversion

/-- The state of a standard backend. -/
inductive StandardBackend where
  | general (state : Interpolator)
  | lowLatency (state : BlockTransform)

namespace StandardBackend

/-- Run whichever backend it is. -/
def backend : RateBackend StandardBackend where
  name
    | general s => Interpolator.backend.name s
    | lowLatency s => BlockTransform.backend.name s
  inputFramesNext
    | general s => Interpolator.backend.inputFramesNext s
    | lowLatency s => BlockTransform.backend.inputFramesNext s
  outputFramesMax
    | general s => Interpolator.backend.outputFramesMax s
    | lowLatency s => BlockTransform.backend.outputFramesMax s
  outputDelay
    | general s => Interpolator.backend.outputDelay s
    | lowLatency s => BlockTransform.backend.outputDelay s
  process state batch :=
    match state with
    | general s =>
      let (result, s) := Interpolator.backend.process s batch
      (result, general s)
    | lowLatency s =>
      let (result, s) := BlockTransform.backend.process s batch
      (result, lowLatency s)
  reset
    | general s => general (Interpolator.backend.reset s)
    | lowLatency s => lowLatency (BlockTransform.backend.reset s)

/-- Build the backend that the settings ask for. -/
def build (settings : Settings) (source target : UInt32) (channels : UInt16) :
    Except Failure StandardBackend :=
  match settings.backend with
  | .general =>
    general <$> Interpolator.build settings.method settings.effectiveChunkFrames
      source target channels
  | .lowLatency =>
    lowLatency <$> BlockTransform.build settings.effectiveQuality source target channels

end StandardBackend

/-- The standard backends, paced by floats. -/
def RateProvider.standard : RateProvider StandardBackend where
  backend := StandardBackend.backend
  build := StandardBackend.build
  pacing := Pacing.floating

end PcmConversion
