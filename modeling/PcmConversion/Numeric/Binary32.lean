import PcmConversion.Numeric.Number

/-!
# 32-bit floating-point samples

A `Binary32` is a bit pattern, so moving samples about keeps them bit for bit, undefined ones
included.  Arithmetic goes through the denoted `Number`s and rounds once per operation.
-/

namespace PcmConversion

/-- A 32-bit floating-point value, kept as its bit pattern. -/
structure Binary32 where
  bits : UInt32
deriving DecidableEq

namespace Binary32

/-- Silence. -/
def zero : Binary32 := ⟨0⟩

instance : Inhabited Binary32 := ⟨zero⟩

/-- The denoted number. -/
def number (x : Binary32) : Number :=
  BinaryFormat.single.ofPattern x.bits.toNat

/-- The bit pattern of a number already rounded to 24 significant bits. -/
def ofNumber (v : Number) : Binary32 :=
  ⟨UInt32.ofNat (BinaryFormat.single.pattern v)⟩

/-- The value nearest to `v * 2^e`. -/
def ofScaled (v : Int) (e : Int) : Binary32 :=
  ofNumber (BinaryFormat.single.ofScaled v e)

instance : Mul Binary32 :=
  ⟨fun x y => ofNumber (BinaryFormat.single.mul x.number y.number)⟩

instance : Add Binary32 :=
  ⟨fun x y => ofNumber (BinaryFormat.single.add x.number y.number)⟩

/-- Whether the value is a real number. -/
def isFinite (x : Binary32) : Bool :=
  match x.number with
  | .finite .. => true
  | _ => false

end Binary32

end PcmConversion
