import PcmConversion.Rate.Signal

/-!
# Windowed sinc filters

The low-pass filters of the rate backends: a sinc curve under a squared window, scaled so that a constant
signal keeps its level.
-/

namespace PcmConversion.Sinc

/-- The ratio of a circle's circumference to its diameter. -/
def pi : Float := 3.14159265358979323846

/-- A window, used squared. -/
inductive Window where
  | hann
  | blackmanHarris
deriving DecidableEq

namespace Window

/-- The window at position `x` of `n`, before squaring. -/
def value (w : Window) (x n : Nat) : Float :=
  let turn := 2 * pi * x.toFloat / n.toFloat
  match w with
  | hann => 0.5 - 0.5 * Float.cos turn
  | blackmanHarris =>
    0.35875 - 0.48829 * Float.cos turn + 0.14128 * Float.cos (2 * turn)
      - 0.01168 * Float.cos (3 * turn)

/-- The cutoff frequency, relative to half the rate, that suits a filter of `n` points. -/
def cutoff (w : Window) (n : Nat) : Float :=
  let n := n.toFloat
  let (k1, k2, k3) : Float × Float × Float :=
    match w with
    | hann => (5.38751148378734, 29.69451915489501, 184.82117462266237)
    | blackmanHarris => (13.745202940783823, 121.73532586374934, 5964.163279612051)
  1 / (1 + k1 / n + k2 / (n * n) + k3 / (n * n * n))

end Window

/-- The sinc curve `sin (pi z) / (pi z)`. -/
def curve (z : Float) : Float :=
  if z == 0 then 1 else Float.sin (pi * z) / (pi * z)

/-- The filter sampled `factor` times as finely as its `points`, before scaling. -/
def fine (points factor : Nat) (cutoff : Float) (w : Window) : FloatArray :=
  let n := points * factor
  Signal.tabulate n fun x =>
    let level := w.value x n
    level * level * curve ((x.toFloat - (n / 2).toFloat) * cutoff / factor.toFloat)

/-- The filter for each of `factor` positions between two samples, of `points` values each. -/
def table (points factor : Nat) (cutoff : Float) (w : Window) : Array FloatArray :=
  let v := fine points factor cutoff w
  let total := Signal.sum v / factor.toFloat
  (Array.range factor).map fun phase =>
    Signal.tabulate points fun p => Signal.valueAt v (factor * p + (factor - 1 - phase)) / total

end PcmConversion.Sinc
