import PcmConversion.Numeric.Number

/-!
# Pacing

How many output frames belong to so many input frames, and the other way round.  The same three
questions are answered twice: with the ratio of the rates as a 64-bit float (`Pacing.floating`, what a
running conversion uses) and in whole numbers (`Pacing.exact`, what the floats stand for).
-/

namespace PcmConversion

/-- The three frame counts that the adapter takes from the ratio of the rates. -/
structure Pacing where
  /-- Room to reserve for the output of so many input frames. -/
  reserve : Nat → Nat
  /-- Output frames that a stream of so many input frames has in total. -/
  target : Nat → Nat
  /-- Frames of silence that may be fed to push out so many output frames. -/
  silence : Nat → Nat

/-- The ratio of two rates as a 64-bit float; a zero source rate gives an infinite or undefined one. -/
def rateRatio (source target : Nat) : Number :=
  BinaryFormat.double.div (BinaryFormat.double.ofNat target) (BinaryFormat.double.ofNat source)

namespace Pacing

/-- A float as a 64-bit count. -/
def count (rule : Nat → Nat → Nat) (v : Number) : Nat :=
  (v.clamp rule 0 0xffffffffffffffff).toNat

/-- Pacing by 64-bit floats. -/
def floating (source target : Nat) : Pacing where
  reserve n := count divCeil (scaled n) + 1
  target n := count divHalfUp (scaled n)
  silence n :=
    2 * count divCeil (BinaryFormat.double.div (BinaryFormat.double.ofNat n) (rateRatio source target))
where
  /-- So many input frames, counted at the target rate. -/
  scaled (n : Nat) : Number :=
    BinaryFormat.double.mul (BinaryFormat.double.ofNat n) (rateRatio source target)

/-- Pacing by whole numbers, for positive rates. -/
def exact (source target : Nat) : Pacing where
  reserve n := divCeil (n * target) source + 1
  target n := divHalfUp (n * target) source
  silence n := 2 * divCeil (n * source) target

end Pacing

end PcmConversion
