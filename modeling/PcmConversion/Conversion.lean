import PcmConversion.Rate.Resampler
import PcmConversion.Sample.Narrowing
import PcmConversion.Sample.Remap
import PcmConversion.Sample.Transcode
import PcmConversion.Settings.Basic

/-!
# Conversions

A conversion is set up once for a source and a target stream and then fed chunk by chunk.  Each chunk
takes the stages it needs: host byte order, truncation (same rate only), floats, resampling, target type,
channels, target byte order.  A 5.1 downmix into a type that cannot be folded in its own width is done on
the floats, before the target type is made.
-/

namespace PcmConversion

/-- A source of rate backends with states of type `σ`: how to build one from the settings, how to run it,
and how the frame counts follow from the rates. -/
structure RateProvider (σ : Type) where
  backend : RateBackend σ
  build : Settings → (source target : UInt32) → (channels : UInt16) → Except Failure σ
  pacing : (source target : Nat) → Pacing

/-- A resampler with the state of its stream. -/
structure RunningResampler (σ : Type) where
  machine : Resampler σ
  state : Resampler.State σ

namespace RunningResampler

variable {σ : Type}

/-- Build the backend that the settings ask for and start a resampler over it. -/
def build (P : RateProvider σ) (settings : Settings) (source target : UInt32) (channels : UInt16) :
    Except Failure (RunningResampler σ) := do
  let backend ← P.build settings source target channels
  let machine := Resampler.over P.backend channels.toNat (P.pacing source.toNat target.toNat)
  return { machine, state := ← liftFault (machine.start backend) }

/-- Resample a chunk. -/
def process (r : RunningResampler σ) (input : List Binary32) :
    Except Failure (List Binary32) × RunningResampler σ :=
  let (result, state) := r.machine.process r.state input
  (result, { r with state })

/-- End the stream. -/
def drain (r : RunningResampler σ) : Except Failure (List Binary32) × RunningResampler σ :=
  let (result, state) := r.machine.drain r.state
  (result, { r with state })

end RunningResampler

/-- Samples between the stages: still integers, or floats. -/
inductive Samples where
  | integers (buffer : SampleBuffer)
  | floats (xs : List Binary32)

/-- A conversion between two streams. -/
structure Conversion (σ : Type) where
  source : StreamParams
  /-- The target, with a concrete byte order. -/
  target : StreamParams
  /-- The truncation applied to every chunk, if there is one. -/
  narrowing : Option Narrowing
  /-- Whether 5.1 is folded into stereo on the floats. -/
  floatDownmix : Bool
  resampler : Option (RunningResampler σ)

namespace Conversion

variable {σ : Type}

/-- Check the pair of streams and set up what converting between them needs. -/
def create (P : RateProvider σ) (settings : Settings) (source target : StreamParams) :
    Except Failure (Conversion σ) := do
  if !source.isValid then throw (.error (.invalidParams source))
  if !target.isValid then throw (.error (.invalidParams target))
  let target := { target with format := target.format.resolved }
  if !remapSupported source.channels target.channels then
    throw (.error (.unsupportedChannels source.channels target.channels))
  let floatDownmix :=
    source.channels = 6 && target.channels = 2 && !Downmix.supports target.format.type
  let resampler ←
    if source.rate = target.rate then pure none
    else if settings.enableResample then
      some <$> RunningResampler.build P settings source.rate target.rate source.channels
    else throw (.error (.resamplingDisabled source.rate target.rate))
  let narrowing :=
    if source.rate = target.rate && !floatDownmix then
      Narrowing.select source.format.type target.format.type
    else none
  return { source, target, narrowing, floatDownmix, resampler }

/-- Whether the rate changes. -/
def isResampling (c : Conversion σ) : Bool :=
  c.resampler.isSome

/-- Source bytes in host order, truncated where a truncation is used. -/
def normalise (c : Conversion σ) (input : List UInt8) : SampleBuffer :=
  let b : SampleBuffer := ⟨input, c.source.format⟩
  let b := if b.format.isNative then b else b.toNative
  match c.narrowing with
  | none => b
  | some n => n.apply b

/-- Whether integer samples of a format have to become floats on the way. -/
def needsFloats (c : Conversion σ) (current : SampleFormat) : Bool :=
  c.source.rate != c.target.rate || c.floatDownmix || c.target.format.type.isFloat ||
    !current.sameWidth c.target.format

/-- The samples of a chunk, as floats where a later stage needs them so. -/
def load (c : Conversion σ) (input : List UInt8) : Except Fault Samples :=
  let b := c.normalise input
  if b.format.type.isFloat then .floats <$> b.toFloats
  else if c.needsFloats b.format then .floats <$> b.decode
  else .ok (.integers b)

/-- Fold 5.1 floats into stereo, where that is done on floats. -/
def foldFloats (c : Conversion σ) : Samples → Except Fault Samples
  | .floats xs =>
    if c.floatDownmix then do
      let stereo ← (SampleBuffer.ofFloats xs).downmix
      .floats <$> stereo.toFloats
    else .ok (.floats xs)
  | s => .ok s

/-- Samples of the target type, in host order. -/
def encode (c : Conversion σ) : Samples → Except Fault SampleBuffer
  | .floats xs =>
    if c.target.format.type.isFloat then .ok (SampleBuffer.ofFloats xs)
    else SampleBuffer.quantise xs c.target.format.type
  | .integers b =>
    if b.format.type.toggledSign = some c.target.format.type then b.toggleSign
    else if b.format.type = c.target.format.type then .ok b
    else do SampleBuffer.quantise (← b.decode) c.target.format.type

/-- The last stages: target type, channels, byte order. -/
def finish (c : Conversion σ) (s : Samples) : Except Fault (List UInt8) := do
  let b ← c.encode (← c.foldFloats s)
  let b ←
    if c.source.channels != c.target.channels && !c.floatDownmix then
      b.remap c.source.channels c.target.channels
    else pure b
  return (b.swapTo c.target.format.order).data

/-- Convert a chunk of source bytes into target bytes.  While resampling, part of the chunk may be held
back; when the backend fails, what is held back and the chunk are lost. -/
def convert (c : Conversion σ) (input : List UInt8) :
    Except Failure (List UInt8) × Conversion σ :=
  match c.load input, c.resampler with
  | .error fault, _ => (.error (.fault fault), c)
  | .ok (.floats xs), some r =>
    let (result, r) := r.process xs
    (do liftFault (c.finish (.floats (← result))), { c with resampler := some r })
  | .ok s, _ => (liftFault (c.finish s), c)

/-- Release what the resampler still holds at the end of a stream. -/
def flush (c : Conversion σ) : Except Failure (List UInt8) × Conversion σ :=
  match c.resampler with
  | none => (.ok [], c)
  | some r =>
    let (result, r) := r.drain
    (do
      let tail ← result
      if tail.isEmpty then return []
      liftFault (c.finish (.floats tail)), { c with resampler := some r })

end Conversion

end PcmConversion
