import PcmConversion.Sample.Buffer
import PcmConversion.Sample.Value

/-!
# Between integer and floating-point samples

Decoding divides a centred value by half the range, so floats lie in `[-1, 1)`.  Quantising multiplies
by the gain of the width, rounds to the nearest integer (ties to even) and holds the result in range;
8- and 16-bit types take the top bits of a 32-bit result, 24-bit types have a gain of their own.  Both
work on host-order bytes.
-/

namespace PcmConversion

/-- The float for a centred value: `value / 2^(bits-1)`, rounded to 24 significant bits. -/
def SampleType.decode (t : SampleType) (value : Int) : Binary32 :=
  Binary32.ofScaled value (-(t.bits - 1 : Nat))

/-- How floats are scaled to integers of one width. -/
structure Quantiser where
  /-- What the float is multiplied by. -/
  gain : Int
  lowest : Int
  highest : Int

namespace Quantiser

/-- The full 32-bit range: the gain is `2^31`, the nearest float to the greatest value. -/
def wide : Quantiser := ⟨0x80000000, -0x80000000, 0x7fffffff⟩

/-- The 24-bit range: the gain is the greatest value. -/
def medium : Quantiser := ⟨0x7fffff, -0x800000, 0x7fffff⟩

/-- Scale, round half to even, saturate; an undefined float gives zero. -/
def apply (q : Quantiser) (x : Binary32) : Int :=
  (x * Binary32.ofScaled q.gain 0).number.clamp divEven q.lowest q.highest

end Quantiser

/-- The centred value for a float. -/
def SampleType.quantise (t : SampleType) (x : Binary32) : Int :=
  if t.bits = 24 then Quantiser.medium.apply x
  else (Quantiser.wide.apply x).fdiv (1 <<< (32 - t.bits) : Nat)

/-- Floats for the integer samples of a host-order buffer. -/
def SampleBuffer.decode (b : SampleBuffer) : Except Fault (List Binary32) :=
  let t := b.format.type
  if t.isFloat then .error (.decodeFloat b.format)
  else .ok ((wholeGroups t.bytes b.data).map fun s => t.decode (t.read s))

/-- Integer samples of type `t`, in host order, for floats. -/
def SampleBuffer.quantise (xs : List Binary32) (t : SampleType) : Except Fault SampleBuffer :=
  if t.isFloat then .error .quantiseToFloat
  else .ok ⟨xs.flatMap fun x => t.write (t.quantise x), ⟨t, ByteOrder.host⟩⟩

end PcmConversion
