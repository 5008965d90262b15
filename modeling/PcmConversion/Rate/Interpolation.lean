import PcmConversion.Rate.Backend
import PcmConversion.Rate.Sinc
import PcmConversion.Settings.Basic

/-!
# The interpolating backend

Takes batches of a fixed size and reads the input at equally spaced positions, holding the last sample,
drawing a line between neighbours, or filtering with a windowed sinc.  Positions are counted in input
frames from the start of the batch; the last `2 * points` frames of earlier batches are kept so that they
may lie before it.
-/

namespace PcmConversion

/-- How a value between samples is found. -/
inductive Kernel where
  | hold
  | line
  /-- A filter for each position between two samples; the values of neighbouring filters are joined by
  a line, or by a cubic where `cubic` is set. -/
  | sinc (filters : Array FloatArray) (cubic : Bool)

namespace ResampleMethod

/-- Input samples that one output sample is made from. -/
def points : ResampleMethod → Nat
  | sincBestQuality => 256
  | sincMediumQuality => 128
  | sincFastest => 64
  | zeroOrderHold => 1
  | linear => 2

/-- Whether a windowed sinc is used. -/
def isSinc : ResampleMethod → Bool
  | sincBestQuality | sincMediumQuality | sincFastest => true
  | zeroOrderHold | linear => false

/-- Positions between two samples for which a filter is kept. -/
def oversampling : ResampleMethod → Nat
  | sincFastest => 1024
  | _ => 256

def window : ResampleMethod → Sinc.Window
  | sincFastest => .hann
  | _ => .blackmanHarris

/-- The kernel of a method at a ratio of target to source rate.  Going down in rate, the filter cuts off
at the lower half rate. -/
def kernel (m : ResampleMethod) (ratio : Float) : Kernel :=
  match m with
  | zeroOrderHold => .hold
  | linear => .line
  | _ =>
    let cutoff := m.window.cutoff m.points
    let cutoff := if ratio < 1 then cutoff * ratio else cutoff
    .sinc (Sinc.table m.points m.oversampling cutoff m.window) (m != sincFastest)

/-- Position of the last output sample before a stream starts. -/
def firstPosition (m : ResampleMethod) : Float :=
  if m.isSinc then -(m.points - 1).toFloat else -(m.points.toFloat / 2)

end ResampleMethod

/-- A float cut toward zero to a 64-bit count; negative and undefined values give zero. -/
def floatCount (v : Float) : Nat :=
  v.toUInt64.toNat

/-- What the interpolating backend keeps. -/
structure Interpolator where
  method : ResampleMethod
  channels : Nat
  /-- Frames of one batch. -/
  chunk : Nat
  /-- Target rate over source rate. -/
  ratio : Float
  kernel : Kernel
  /-- The last `2 * points` input frames, by channel. -/
  history : Array FloatArray
  /-- Position of the last output sample, relative to the start of the next batch. -/
  position : Float
  /-- Frames that the next batch will give. -/
  outputNext : Nat

namespace Interpolator

/-- Frames given by the next batch, from the position before it. -/
def countOutput (m : ResampleMethod) (chunk : Nat) (ratio position : Float) : Nat :=
  floatCount (Float.floor
    ((chunk.toFloat - (m.points + 1).toFloat - position) * (0.5 * ratio + 0.5 * ratio)))

/-- Before a stream starts. -/
def fresh (m : ResampleMethod) (kernel : Kernel) (channels chunk : Nat) (ratio : Float) :
    Interpolator where
  method := m
  channels
  chunk
  ratio
  kernel
  history := Array.replicate channels (Signal.tabulate (2 * m.points) fun _ => 0)
  position := m.firstPosition
  outputNext := countOutput m chunk ratio m.firstPosition

/-- Forget all input. -/
def restart (s : Interpolator) : Interpolator :=
  fresh s.method s.kernel s.channels s.chunk s.ratio

/-- Most frames that one batch may give. -/
def outputMax (s : Interpolator) : Nat :=
  floatCount (s.chunk.toFloat * s.ratio * 1.1 + 10)

/-- Output frames by which the input is delayed. -/
def delay (s : Interpolator) : Nat :=
  floatCount (s.method.points.toFloat * s.ratio / 2)

/-- The positions of the next `count` output samples, each `step` after the one before. -/
def positions (count : Nat) (start step : Float) : FloatArray :=
  go count start (FloatArray.emptyWithCapacity count)
where
  go : Nat → Float → FloatArray → FloatArray
    | 0, _, out => out
    | left + 1, last, out => go left (last + step) (out.push (last + step))

/-- The input at `position`, where `input` starts `2 * points` frames before the batch. -/
def sampleAt (kernel : Kernel) (points : Nat) (input : FloatArray) (position : Float) : Binary32 :=
  let floor := Float.floor position
  let base := floatCount (floor + (2 * points).toFloat)
  match kernel with
  | .hold => Binary32.ofDouble (Signal.valueAt input base)
  | .line =>
    let x := (position - floor).toFloat32
    let y0 := (Signal.valueAt input base).toFloat32
    let y1 := (Signal.valueAt input (base + 1)).toFloat32
    ⟨(y0 + x * (y1 - y0)).toBits⟩
  | .sinc filters cubic =>
    let factor := filters.size
    let phase := floatCount (Float.floor ((position - floor) * factor.toFloat))
    let rest := position * factor.toFloat - Float.floor (position * factor.toFloat)
    let filtered (k : Nat) : Float :=
      -- `k` counts from the filter before `phase`, in the frame before `base`.
      let slot := factor + phase + k - 1
      Signal.dot input (base - 1 + slot / factor) (filters.getD (slot % factor) default)
    if cubic then
      let y0 := filtered 0
      let y1 := filtered 1
      let y2 := filtered 2
      let y3 := filtered 3
      let a1 := -y0 / 3 - y1 / 2 + y2 - y3 / 6
      let a2 := (y0 + y2) / 2 - y1
      let a3 := (y1 - y2) / 2 + (y3 - y0) / 6
      Binary32.ofDouble (y1 + a1 * rest + a2 * (rest * rest) + a3 * (rest * rest * rest))
    else
      let y0 := filtered 1
      let y1 := filtered 2
      Binary32.ofDouble (y0 + rest * (y1 - y0))

/-- Convert one batch. -/
def process (s : Interpolator) (batch : Batch) : Except Failure Yield × Interpolator :=
  if s.channels = 0 then (.error (.fault .divisionByZero), s)
  else
    let frames := if batch.final then min batch.frames s.chunk else s.chunk
    let samples := (batch.samples.take (frames * s.channels)).toArray
    let kept := 2 * s.method.points
    let inputs := s.history.mapIdx fun c past =>
      let new := Signal.channel samples s.channels c s.chunk
      Signal.tabulate (kept + s.chunk) fun i =>
        if i < kept then Signal.valueAt past i else Signal.valueAt new (i - kept)
    let places := positions s.outputNext s.position (1 / s.ratio)
    let last := if s.outputNext = 0 then s.position else Signal.valueAt places (s.outputNext - 1)
    let position := last - s.chunk.toFloat
    let written := Signal.interleave s.channels s.outputNext fun c j =>
      sampleAt s.kernel s.method.points (inputs.getD c default) (Signal.valueAt places j)
    (.ok { consumed := s.chunk, generated := s.outputNext, written }, { s with
      history := inputs.map fun input =>
        Signal.tabulate kept fun i => Signal.valueAt input (s.chunk + i)
      position
      outputNext := countOutput s.method s.chunk s.ratio position })

/-- The backend, for any state. -/
def backend : RateBackend Interpolator where
  name _ := "general"
  inputFramesNext s := s.chunk
  outputFramesMax := outputMax
  outputDelay := delay
  process := process
  reset := restart

/-- Build the backend for a method, a batch size and two rates. -/
def build (m : ResampleMethod) (chunk : Nat) (source target : UInt32) (channels : UInt16) :
    Except Failure Interpolator := do
  let ratio := target.toNat.toFloat / source.toNat.toFloat
  if ratio ≤ 0 then
    throw (.error (.backendInit "general" channels
      "Invalid resample_ratio provided: 0. resample_ratio must be > 0"))
  liftFault (checkMemory (chunk + 2 * m.points))
  return fresh m (m.kernel ratio) channels.toNat chunk ratio

end Interpolator

end PcmConversion
