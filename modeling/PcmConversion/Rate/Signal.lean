import PcmConversion.Numeric.Binary32

/-!
# Signals in double precision

The interpolating backends work on plain sequences of 64-bit floats, read as silent outside their range.
Samples are widened on the way in and rounded to 32 bits on the way out.
-/

namespace PcmConversion

/-- A sample in double precision. -/
def Binary32.toDouble (x : Binary32) : Float :=
  (Float32.ofBits x.bits).toFloat

/-- A value in double precision, rounded to a sample. -/
def Binary32.ofDouble (v : Float) : Binary32 :=
  ⟨v.toFloat32.toBits⟩

namespace Signal

/-- The signal `f 0, …, f (n - 1)`. -/
def tabulate (n : Nat) (f : Nat → Float) : FloatArray :=
  go n 0 (FloatArray.emptyWithCapacity n)
where
  go : Nat → Nat → FloatArray → FloatArray
    | 0, _, out => out
    | left + 1, i, out => go left (i + 1) (out.push (f i))

/-- The value at a position, zero beyond the end. -/
@[inline] def valueAt (a : FloatArray) (i : Nat) : Float :=
  if h : i < a.size then a.get i h else 0

/-- The sum of all values. -/
def sum (a : FloatArray) : Float :=
  go a.size 0 0
where
  go : Nat → Nat → Float → Float
    | 0, _, acc => acc
    | left + 1, i, acc => go left (i + 1) (acc + valueAt a i)

/-- The inner product of `b` with the part of `a` that starts at `offset`. -/
def dot (a : FloatArray) (offset : Nat) (b : FloatArray) : Float :=
  go b.size 0 0
where
  go : Nat → Nat → Float → Float
    | 0, _, acc => acc
    | left + 1, i, acc => go left (i + 1) (acc + valueAt a (offset + i) * valueAt b i)

/-- One channel of interleaved samples. -/
def channel (samples : Array Binary32) (channels c frames : Nat) : FloatArray :=
  tabulate frames fun i => (samples.getD (i * channels + c) Binary32.zero).toDouble

/-- Interleave `frames` frames of `channels` channels, given by channel and frame. -/
def interleave (channels frames : Nat) (f : Nat → Nat → Binary32) : List Binary32 :=
  (List.range frames).flatMap fun j => (List.range channels).map fun c => f c j

@[simp] theorem length_interleave (channels frames : Nat) (f : Nat → Nat → Binary32) :
    (interleave channels frames f).length = frames * channels := by
  simp [interleave, List.length_flatMap, List.map_const']

end Signal

end PcmConversion
