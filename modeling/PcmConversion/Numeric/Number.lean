import PcmConversion.Numeric.Quotient

/-!
# Binary floating-point numbers

A `BinaryFormat` says how many significant bits a floating-point format has and which exponents it
reaches; a `Number` is what one of its bit patterns denotes.  `BinaryFormat.nearest` rounds an exact
value to the format, to nearest with ties to even, and every operation below is exact arithmetic on
integers followed by that one rounding.  Nothing here depends on the floating-point unit, so the
rounding is visible to proofs.
-/

namespace PcmConversion

/-- A binary floating-point format: the numbers `m * 2^e` with `m < 2^digits` and
`bottom ≤ e ≤ top`, both signs, the infinities and one class of undefined results. -/
structure BinaryFormat where
  /-- Significant bits of a number. -/
  digits : Nat
  /-- Exponent of the smallest positive number. -/
  bottom : Int
  /-- Exponent of the last significant bit of the largest number. -/
  top : Int

/-- The 32-bit interchange format. -/
def BinaryFormat.single : BinaryFormat := ⟨24, -149, 104⟩

/-- The 64-bit interchange format. -/
def BinaryFormat.double : BinaryFormat := ⟨53, -1074, 971⟩

/-- The value denoted by a floating-point bit pattern. -/
inductive Number where
  /-- `mantissa * 2^exponent`, or its negation; zero has both signs. -/
  | finite (negative : Bool) (mantissa : Nat) (exponent : Int)
  | infinite (negative : Bool)
  | nan
deriving DecidableEq

/-- The fraction `n * 2^e / d` with the power of two moved into numerator or denominator. -/
def scaleFraction (n d : Nat) (e : Int) : Nat × Nat :=
  (n <<< e.toNat, d <<< (-e).toNat)

/-- The exponent `k` with `2^k ≤ n / d < 2^(k+1)`, for positive `n` and `d`. -/
def quotientLog2 (n d : Nat) : Int :=
  let k : Int := (n.log2 : Int) - (d.log2 : Int)
  let (a, b) := scaleFraction n d (-k)
  if b ≤ a then k else k - 1

namespace BinaryFormat

/-- The number of the format nearest to `n * 2^e / d` (negated if `negative`), ties to the even
mantissa; values at or beyond the end of the range become infinite. -/
def nearest (F : BinaryFormat) (negative : Bool) (n d : Nat) (e : Int) : Number :=
  if n = 0 then .finite negative 0 F.bottom
  else
    let ulp := max (quotientLog2 n d + e - (F.digits - 1)) F.bottom
    let (a, b) := scaleFraction n d (e - ulp)
    let m := divEven a b
    if F.digits + F.top ≤ ulp + m.log2 then .infinite negative else .finite negative m ulp

/-- The number nearest to the integer `v` scaled by `2^e`. -/
def ofScaled (F : BinaryFormat) (v : Int) (e : Int) : Number :=
  F.nearest (v < 0) v.natAbs 1 e

/-- The number nearest to a natural number. -/
def ofNat (F : BinaryFormat) (n : Nat) : Number :=
  F.nearest false n 1 0

/-- Floating-point product. -/
def mul (F : BinaryFormat) : Number → Number → Number
  | .nan, _ | _, .nan => .nan
  | .infinite s, .infinite t => .infinite (s != t)
  | .infinite s, .finite t m _ | .finite t m _, .infinite s =>
    if m = 0 then .nan else .infinite (s != t)
  | .finite s m e, .finite t n f => F.nearest (s != t) (m * n) 1 (e + f)

/-- A finite number as an integer multiple of `2^f`, for any `f` not above its exponent. -/
def multiple (negative : Bool) (m : Nat) (e f : Int) : Int :=
  let magnitude : Int := (m <<< (e - f).toNat : Nat)
  if negative then -magnitude else magnitude

/-- Floating-point sum. -/
def add (F : BinaryFormat) : Number → Number → Number
  | .nan, _ | _, .nan => .nan
  | .infinite s, .infinite t => if s = t then .infinite s else .nan
  | .infinite s, .finite .. | .finite .., .infinite s => .infinite s
  | .finite s m e, .finite t n f =>
    let low := min e f
    let sum := multiple s m e low + multiple t n f low
    if sum = 0 then .finite (s && t) 0 F.bottom else F.ofScaled sum low

/-- Floating-point quotient. -/
def div (F : BinaryFormat) : Number → Number → Number
  | .nan, _ | _, .nan => .nan
  | .infinite _, .infinite _ => .nan
  | .infinite s, .finite t _ _ => .infinite (s != t)
  | .finite s _ _, .infinite t => .finite (s != t) 0 F.bottom
  | .finite s m e, .finite t n f =>
    if n = 0 then (if m = 0 then .nan else .infinite (s != t))
    else F.nearest (s != t) m n (e - f)

/-- Exponent field of the infinities: one more than that of the largest finite numbers. -/
def infinityField (F : BinaryFormat) : Nat :=
  (F.top - F.bottom + 2).toNat

/-- Bit pattern of a rounded number: sign, exponent field, fraction.  The carry of a mantissa
`2^digits` into the exponent field is the right pattern too. -/
def pattern (F : BinaryFormat) (v : Number) : Nat :=
  let signed (negative : Bool) (magnitude : Nat) : Nat :=
    if negative then magnitude + (F.infinityField + 1) <<< (F.digits - 1) else magnitude
  match v with
  | .finite s m e => signed s (if m = 0 then 0 else (e - F.bottom).toNat <<< (F.digits - 1) + m)
  | .infinite s => signed s (F.infinityField <<< (F.digits - 1))
  | .nan => F.infinityField <<< (F.digits - 1) + 1 <<< (F.digits - 2)

/-- What a bit pattern denotes. -/
def ofPattern (F : BinaryFormat) (bits : Nat) : Number :=
  let fraction := bits % 1 <<< (F.digits - 1)
  let field := bits / 1 <<< (F.digits - 1) % (F.infinityField + 1)
  let negative := bits / 1 <<< (F.digits - 1) / (F.infinityField + 1) % 2 = 1
  if field = F.infinityField then
    if fraction = 0 then .infinite negative else .nan
  else if field = 0 then .finite negative fraction F.bottom
  else .finite negative (fraction + 1 <<< (F.digits - 1)) (F.bottom + field - 1)

end BinaryFormat

/-- An integer for a number: `rule` rounds the magnitude, the result is held between `low` and
`high`, and an undefined number gives zero. -/
def Number.clamp (rule : Nat → Nat → Nat) (low high : Int) : Number → Int
  | .nan => 0
  | .infinite negative => if negative then low else high
  | .finite negative m e =>
    let (a, b) := scaleFraction m 1 e
    let magnitude : Int := rule a b
    max low (min high (if negative then -magnitude else magnitude))

end PcmConversion
