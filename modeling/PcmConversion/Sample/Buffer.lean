import PcmConversion.Bytes.Grouping
import PcmConversion.Bytes.Word
import PcmConversion.Failure
import PcmConversion.Numeric.Binary32

/-!
# Sample buffers

A buffer couples raw interleaved bytes with the format that describes them.  What reinterprets the
bytes in place (toggling the sign, swapping the byte order) changes bytes and description together and
leaves a trailing incomplete sample alone.
-/

namespace PcmConversion

/-- Interleaved samples and their format. -/
structure SampleBuffer where
  data : List UInt8
  format : SampleFormat
deriving DecidableEq

/-- Flip the most significant bit of a sample of `t`: bit `bits - 1` of its value, which sits in the
byte `(bits - 1) / 8` counted from the least significant end. -/
def toggleTopBit (t : SampleType) (order : ByteOrder) (sample : List UInt8) : List UInt8 :=
  let fromLow := (t.bits - 1) / 8
  let index := if order.resolve = .big then t.bytes - 1 - fromLow else fromLow
  sample.modify index (· ^^^ 0x80)

namespace SampleBuffer

/-- Whole samples held. -/
def samples (b : SampleBuffer) : Nat :=
  b.data.length / b.format.type.bytes

/-- Floating-point samples in host order. -/
def ofFloats (xs : List Binary32) : SampleBuffer where
  data := xs.flatMap fun x => Word.toBytes 4 x.bits.toNat
  format := ⟨.f32, ByteOrder.host⟩

/-- The samples of a floating-point buffer; four bytes each, an incomplete one is dropped. -/
def toFloats (b : SampleBuffer) : Except Fault (List Binary32) :=
  if b.format.type.isFloat then
    .ok ((wholeGroups 4 b.data).map fun s => ⟨UInt32.ofNat (Word.ofBytes s)⟩)
  else .error (.readAsFloat b.format)

/-- Change between signed and unsigned by flipping the top bit of every sample. -/
def toggleSign (b : SampleBuffer) : Except Fault SampleBuffer :=
  match b.format.type.toggledSign with
  | none => .error (.signOfFloat b.format)
  | some toggled => .ok {
      data := mapGroups b.format.type.bytes (toggleTopBit b.format.type b.format.order) b.data
      format := b.format.withType toggled }

/-- Bring the samples into another byte order, where their type has one. -/
def swapTo (b : SampleBuffer) (order : ByteOrder) : SampleBuffer where
  data :=
    if b.format.needsSwapTo (b.format.withOrder order) then
      mapGroups b.format.type.bytes List.reverse b.data
    else b.data
  format := b.format.withOrder order

/-- Bring the samples into host order. -/
def toNative (b : SampleBuffer) : SampleBuffer :=
  b.swapTo ByteOrder.host

end SampleBuffer

end PcmConversion
