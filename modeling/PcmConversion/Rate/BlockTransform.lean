import PcmConversion.Rate.Backend
import PcmConversion.Rate.Spectrum

/-!
# The block-transform backend

Changes the rate in blocks: `blockIn` input frames become `blockOut` output frames by moving the spectrum of
the block to another length.  Both are multiples of the rates without their common factor, so the ratio is
exact.  Blocks overlap by half, so each adds its second half to the next one.
-/

namespace PcmConversion

/-- The block lengths for two positive rates and batches of `chunk` frames: as many reduced rates as a
batch spans, counted in single precision. -/
def blockLengths (source target chunk : Nat) : Nat × Nat :=
  let g := Nat.gcd source target
  let F := BinaryFormat.single
  let blocks := (F.div (F.ofNat chunk) (F.ofNat (source / g))).clamp divCeil 0 0xffffffffffffffff
  (blocks.toNat * (source / g), blocks.toNat * (target / g))

/-- What the block-transform backend keeps. -/
structure BlockTransform where
  channels : Nat
  /-- Frames of one batch. -/
  chunk : Nat
  /-- Input frames of one block. -/
  blockIn : Nat
  /-- Output frames of one block. -/
  blockOut : Nat
  /-- Spectrum of the low-pass filter. -/
  filter : Spectrum
  /-- Interleaved input that does not fill a block yet. -/
  saved : List Binary32
  /-- Second half of the last block's output, by channel. -/
  overlap : Array FloatArray

namespace BlockTransform

/-- The spectrum of the low-pass filter for blocks of these lengths. -/
def filterSpectrum (blockIn blockOut : Nat) : Spectrum :=
  let w := Sinc.Window.blackmanHarris
  let cutoff :=
    if blockIn > blockOut then w.cutoff blockOut * blockOut.toFloat / blockIn.toFloat
    else w.cutoff blockIn
  let filter := (Sinc.table blockIn 1 cutoff w).getD 0 default
  let scale := (2 * blockIn).toFloat
  Spectrum.ofSignal (2 * blockIn)
    (Signal.tabulate blockIn fun i => Signal.valueAt filter i / scale)

/-- Forget all input. -/
def restart (s : BlockTransform) : BlockTransform :=
  { s with
    saved := []
    overlap := Array.replicate s.channels (Signal.tabulate s.blockOut fun _ => 0) }

/-- Whether a block, followed by as much silence, has a spectrum.  The first value of the spectrum is the
sum of all samples, added up in single precision, where neither a sample nor a sum on the way may leave the
range.  Samples in even and in odd places are the two parts of complex numbers and are added apart. -/
def hasSpectrum (block : FloatArray) : Bool :=
  let n := block.size
  let even := Spectrum.firstValue n (Signal.tabulate n fun i => Signal.valueAt block (2 * i))
  let odd := Spectrum.firstValue n (Signal.tabulate n fun i => Signal.valueAt block (2 * i + 1))
  (even + odd).isFinite

/-- The output of one block of one channel, twice as long as a block. -/
def transformBlock (s : BlockTransform) (block : FloatArray) : FloatArray :=
  let used := if s.blockIn < s.blockOut then s.blockIn + 1 else s.blockOut
  let x := Spectrum.ofSignal (2 * s.blockIn) block
  Spectrum.toSignal s.blockOut (Spectrum.multiply used (s.blockOut + 1) x s.filter)

/-- Convert the next `count` whole blocks of `pending`; the interleaved output and the overlap after it. -/
def runBlocks (s : BlockTransform) :
    (count : Nat) → (pending : List Binary32) → (overlap : Array FloatArray) →
    Except Fault (List Binary32 × Array FloatArray)
  | 0, _, overlap => .ok ([], overlap)
  | count + 1, pending, overlap => do
    let size := s.blockIn * s.channels
    let samples := (pending.take size).toArray
    let blocks := (Array.range s.channels).map fun c =>
      Signal.channel samples s.channels c s.blockIn
    if !blocks.all hasSpectrum then throw .undefinedSpectrum
    let results := blocks.map s.transformBlock
    let out := Signal.interleave s.channels s.blockOut fun c j =>
      Binary32.ofDouble (Signal.valueAt (results.getD c default) j
        + Signal.valueAt (overlap.getD c default) j)
    let next := results.map fun y =>
      Signal.tabulate s.blockOut fun j => Signal.valueAt y (s.blockOut + j)
    let (rest, overlap) ← runBlocks s count (pending.drop size) next
    return (out ++ rest, overlap)

/-- Convert one batch: append it to what is saved and convert the whole blocks that are there. -/
def process (s : BlockTransform) (batch : Batch) : Except Failure Yield × BlockTransform :=
  if s.channels = 0 then (.error (.fault .divisionByZero), s)
  else
    let size := s.chunk * s.channels
    let audio :=
      batch.samples.take (if batch.final then min batch.frames s.chunk * s.channels else size)
    let pending := s.saved ++ audio ++ List.replicate (size - audio.length) Binary32.zero
    let count := pending.length / s.channels / s.blockIn
    match s.runBlocks count pending s.overlap with
    | .error fault => (.error (.fault fault), s)
    | .ok (written, overlap) =>
      (.ok { consumed := s.chunk, generated := count * s.blockOut, written }, { s with
        saved := pending.drop (count * s.blockIn * s.channels)
        overlap })

/-- The backend, for any state. -/
def backend : RateBackend BlockTransform where
  name _ := "low-latency"
  inputFramesNext s := s.chunk
  outputFramesMax s := (s.blockIn - 1 + s.chunk) / s.blockIn * s.blockOut
  outputDelay s := s.blockOut / 2
  process := process
  reset := restart

/-- Input frames of a batch for each unit of quality. -/
def framesPerQuality : Nat := 8

/-- Build the backend for a quality and two rates. -/
def build (quality : Nat) (source target : UInt32) (channels : UInt16) :
    Except Failure BlockTransform := do
  if source = 0 ∨ target = 0 then
    throw (.error (.backendInit "low-latency" channels
      s!"Input and output sample rates must both be > 0. Provided input: {source}, provided output: {target}"))
  let chunk := framesPerQuality * quality
  let (blockIn, blockOut) := blockLengths source.toNat target.toNat chunk
  return restart {
    channels := channels.toNat
    chunk
    blockIn
    blockOut
    filter := filterSpectrum blockIn blockOut
    saved := []
    overlap := #[] }

end BlockTransform

end PcmConversion
