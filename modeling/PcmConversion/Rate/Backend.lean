import PcmConversion.Failure
import PcmConversion.Numeric.Binary32

/-!
# Rate backends

A rate backend turns batches of interleaved frames at one rate into frames at another.  It says before
each batch how many frames it wants, and reports how many it used and how many it made; what it leaves in
its output buffer is a separate matter, because nothing forces the report to agree with it.  A backend is
a record of functions on a state of any type, so the adapter in `PcmConversion.Rate.Resampler` can be
reasoned about for all backends at once.
-/

namespace PcmConversion

/-- One call's input: whole interleaved frames, of which the first `frames` are audio.  In a `final`
batch the rest is silence that stands for the end of the stream. -/
structure Batch where
  samples : List Binary32
  frames : Nat
  final : Bool
deriving DecidableEq

/-- What a successful call reports, and the samples it wrote from the start of its output buffer. -/
structure Yield where
  consumed : Nat
  generated : Nat
  written : List Binary32
deriving DecidableEq

/-- A rate conversion algorithm over states of type `σ`. -/
structure RateBackend (σ : Type) where
  /-- Short name, used in error texts. -/
  name : σ → String
  /-- Frames that the next call wants. -/
  inputFramesNext : σ → Nat
  /-- Most frames that one call may make. -/
  outputFramesMax : σ → Nat
  /-- Output frames by which the first input frame is delayed. -/
  outputDelay : σ → Nat
  /-- Convert one batch. -/
  process : σ → Batch → Except Failure Yield × σ
  /-- Forget all filter state. -/
  reset : σ → σ

/-- One thing that was asked of a backend. -/
inductive BackendEvent where
  | batch (batch : Batch)
  | reset
deriving DecidableEq

/-- The same backend, keeping a record of what is asked of it, oldest first. -/
def RateBackend.recorded {σ : Type} (B : RateBackend σ) :
    RateBackend (σ × List BackendEvent) where
  name s := B.name s.1
  inputFramesNext s := B.inputFramesNext s.1
  outputFramesMax s := B.outputFramesMax s.1
  outputDelay s := B.outputDelay s.1
  process s batch :=
    let (result, next) := B.process s.1 batch
    (result, next, s.2 ++ [.batch batch])
  reset s := (B.reset s.1, s.2 ++ [.reset])

end PcmConversion
