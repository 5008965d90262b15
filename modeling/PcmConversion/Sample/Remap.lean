import PcmConversion.Sample.Buffer
import PcmConversion.Sample.Value

/-!
# Changing the number of channels

Two remaps exist: a mono sample is repeated for both stereo channels, and a 5.1 frame is folded into a
stereo frame with fixed weights.  The fold adds one weighted sample after the other; integer samples are
accumulated in their own width, each partial sum passing through a float and cut back toward zero.
-/

namespace PcmConversion

/-- Whether `source` channels can be turned into `target` channels. -/
def remapSupported (source target : UInt16) : Bool :=
  source = target || (source = 1 && target = 2) || (source = 6 && target = 2)

namespace Downmix

/-- The float nearest to a decimal with four places, given in ten-thousandths. -/
def decimal (tenThousandths : Int) : Binary32 :=
  Binary32.ofNumber
    (BinaryFormat.single.nearest (tenThousandths < 0) tenThousandths.natAbs 10000 0)

/-- Weights of the six channels for the left and for the right output, in ten-thousandths. -/
def weights : List (List Int) :=
  [[10000, 0, 7070, 7070, -8165, -5774],
   [0, 10000, 7070, 7070, 5774, 8165]]

/-- The gain on every term, in ten-thousandths, which keeps a full-scale frame in range. -/
def gain : Int := 2626

/-- The weights and the gain as floats. -/
def coefficients : List (List Binary32) :=
  weights.map (·.map decimal)

/-- One term of an output sample. -/
def term (weight sample : Binary32) : Binary32 :=
  weight * sample * decimal gain

/-- Sample types that are folded in their own width. -/
def supports : SampleType → Bool
  | .s16 | .s32 | .f32 => true
  | _ => false

/-- One output sample: the terms of six floats, added to a silent start by `add`. -/
def foldRow {α : Type} (add : α → Binary32 → α) (silence : α) (row frame : List Binary32) : α :=
  (row.zipWith term frame).foldl add silence

/-- Add a term to an integer sample: the sum is taken in floating point, cut toward zero and held in the
range of the type. -/
def addInteger (t : SampleType) (sum : Int) (term : Binary32) : Int :=
  (Binary32.ofScaled sum 0 + term).number.clamp divFloor t.lowest t.highest

/-- The bytes of the stereo frame for one 5.1 frame, given by its six samples. -/
def foldFrame (t : SampleType) (frame : List (List UInt8)) : List UInt8 :=
  if t.isFloat then
    let xs := frame.map fun s => (⟨UInt32.ofNat (Word.ofBytes s)⟩ : Binary32)
    coefficients.flatMap fun row =>
      Word.toBytes 4 (foldRow (· + ·) Binary32.zero row xs).bits.toNat
  else
    let xs := frame.map fun s => Binary32.ofScaled (t.read s) 0
    coefficients.flatMap fun row => t.write (foldRow (addInteger t) 0 row xs)

end Downmix

namespace SampleBuffer

/-- Repeat every whole sample. -/
def monoToStereo (b : SampleBuffer) : SampleBuffer where
  data := (wholeGroups b.format.type.bytes b.data).flatMap fun s => s ++ s
  format := b.format

/-- Fold every whole 5.1 frame of a host-order buffer into a stereo frame. -/
def downmix (b : SampleBuffer) : Except Fault SampleBuffer :=
  let t := b.format.type
  if Downmix.supports t then
    .ok { data := (wholeGroups (6 * t.bytes) b.data).flatMap fun frame =>
            Downmix.foldFrame t (wholeGroups t.bytes frame)
          format := b.format }
  else .error (.downmixType b.format)

/-- Change the number of channels of a host-order buffer. -/
def remap (b : SampleBuffer) (source target : UInt16) : Except Fault SampleBuffer :=
  if source = 1 ∧ target = 2 then .ok b.monoToStereo
  else if source = 6 ∧ target = 2 then b.downmix
  else .error (.remapChannels source target)

end SampleBuffer

end PcmConversion
