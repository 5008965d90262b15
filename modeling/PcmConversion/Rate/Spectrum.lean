import PcmConversion.Rate.Sinc

/-!
# Discrete Fourier transforms

Transforms of any length, split along the prime factors of the length: a transform of `n = p * m` points is
`p` transforms of `m` points, one for each remainder modulo `p`, joined with roots of unity.
-/

namespace PcmConversion

/-- A sequence of complex numbers. -/
structure Spectrum where
  re : FloatArray
  im : FloatArray

namespace Spectrum

/-- The `n`-th roots of unity, clockwise from one. -/
def roots (n : Nat) : Spectrum where
  re := Signal.tabulate n fun k => Float.cos (2 * Sinc.pi * k.toFloat / n.toFloat)
  im := Signal.tabulate n fun k => -Float.sin (2 * Sinc.pi * k.toFloat / n.toFloat)

/-- The least divisor of `n` among `d, d + 1, …, d + fuel - 1`, or `n`. -/
def leastDivisor (n : Nat) : (fuel d : Nat) → Nat
  | 0, _ => n
  | fuel + 1, d => if n % d = 0 then d else leastDivisor n fuel (d + 1)

/-- A factor by which a transform of `n` points is split: at least two, and prime where possible. -/
def splitFactor (n : Nat) : Nat :=
  max 2 (leastDivisor n n 2)

/-- Join the transforms of the `p` remainder classes, of `m` points each, with the roots of unity of
order `total`, a multiple of `p * m`. -/
def join (unity : Spectrum) (total p m : Nat) (parts : Array Spectrum) : Spectrum := Id.run do
  let n := p * m
  let mut re := FloatArray.emptyWithCapacity n
  let mut im := FloatArray.emptyWithCapacity n
  for k in [0:n] do
    let mut x : Float := 0
    let mut y : Float := 0
    for r in [0:p] do
      let part := parts.getD r ⟨default, default⟩
      let a := Signal.valueAt part.re (k % m)
      let b := Signal.valueAt part.im (k % m)
      let w := r * k * (total / n) % total
      let c := Signal.valueAt unity.re w
      let d := Signal.valueAt unity.im w
      x := x + (a * c - b * d)
      y := y + (a * d + b * c)
    re := re.push x
    im := im.push y
  return ⟨re, im⟩

/-- The transform of the `n` values of `x` that start at `offset` and lie `stride` apart. -/
def transformFrom (unity x : Spectrum) (total n stride offset : Nat) : Spectrum :=
  if _ : n ≤ 1 then
    ⟨Signal.tabulate n fun _ => Signal.valueAt x.re offset,
     Signal.tabulate n fun _ => Signal.valueAt x.im offset⟩
  else
    let p := splitFactor n
    let parts := (Array.range p).map fun r =>
      transformFrom unity x total (n / p) (stride * p) (offset + r * stride)
    join unity total p (n / p) parts
termination_by n
decreasing_by
  have : 2 ≤ splitFactor n := Nat.le_max_left ..
  exact Nat.div_lt_self (by omega) (by omega)

/-- The transform of the first `n` values of `x`. -/
def transform (n : Nat) (x : Spectrum) : Spectrum :=
  transformFrom (roots n) x n n 1 0

/-- The transform of `n` points of a real signal, silent beyond its end. -/
def ofSignal (n : Nat) (signal : FloatArray) : Spectrum :=
  transform n ⟨Signal.tabulate n (Signal.valueAt signal), Signal.tabulate n fun _ => 0⟩

/-- The real signal of `2 * half` points with the given lower half of a spectrum, not scaled.  The upper
half is the lower one in reverse, with the opposite imaginary parts. -/
def toSignal (half : Nat) (x : Spectrum) : FloatArray :=
  let n := 2 * half
  let whole : Spectrum := {
    re := Signal.tabulate n fun k => Signal.valueAt x.re (if k ≤ half then k else n - k)
    im := Signal.tabulate n fun k =>
      if k ≤ half then -Signal.valueAt x.im k else Signal.valueAt x.im (n - k) }
  (transform n whole).re

/-- The sum of the first `n` values, rounded to single precision after every step.  Values are added in the
order in which a transform meets them: those that lie a whole part of the length apart come first. -/
def firstValue (n : Nat) (x : FloatArray) : Binary32 :=
  if _ : n ≤ 1 then Binary32.ofDouble (if n = 0 then 0 else Signal.valueAt x 0)
  else
    let p := splitFactor n
    let m := n / p
    firstValue m (Signal.tabulate m fun i =>
      (List.range p).foldl
        (fun sum r => (Binary32.ofDouble (sum + Signal.valueAt x (i + r * m))).toDouble) 0)
termination_by n
decreasing_by
  have : 2 ≤ splitFactor n := Nat.le_max_left ..
  exact Nat.div_lt_self (by omega) (by omega)

/-- The product of two spectra in the first `m` places, zero up to `n`. -/
def multiply (m n : Nat) (x y : Spectrum) : Spectrum where
  re := Signal.tabulate n fun k =>
    if k < m then
      Signal.valueAt x.re k * Signal.valueAt y.re k - Signal.valueAt x.im k * Signal.valueAt y.im k
    else 0
  im := Signal.tabulate n fun k =>
    if k < m then
      Signal.valueAt x.re k * Signal.valueAt y.im k + Signal.valueAt x.im k * Signal.valueAt y.re k
    else 0

end Spectrum

end PcmConversion
