import PcmConversion.Sample.Buffer
import PcmConversion.Sample.Value

/-!
# Truncation to fewer bits

Where only the width shrinks, samples are cut instead of going through floating point: the low bits are
dropped and the signedness stays.
-/

namespace PcmConversion

/-- A truncation from a four-byte layout to a narrower one. -/
inductive Narrowing where
  | bits32ToPacked24
  | bits32To16
  | bits32To24
  | bits24To16
deriving DecidableEq

namespace Narrowing

/-- Every truncation. -/
def all : List Narrowing :=
  [.bits32ToPacked24, .bits32To16, .bits32To24, .bits24To16]

/-- The truncation that takes `current` to the width and layout of `target`, if there is one. -/
def select : SampleType → SampleType → Option Narrowing
  | .u32, .u24Packed | .u32, .s24Packed | .s32, .u24Packed | .s32, .s24Packed =>
    some bits32ToPacked24
  | .u32, .u16 | .u32, .s16 | .s32, .u16 | .s32, .s16 => some bits32To16
  | .u32, .u24 | .u32, .s24 | .s32, .u24 | .s32, .s24 => some bits32To24
  | .u24, .u16 | .u24, .s16 | .s24, .u16 | .s24, .s16 => some bits24To16
  | _, _ => none

/-- The type produced, of the signedness of `current`. -/
def outputType (n : Narrowing) (current : SampleType) : SampleType :=
  match n, current.isSigned with
  | bits32ToPacked24, true => .s24Packed
  | bits32ToPacked24, false => .u24Packed
  | bits32To16, true | bits24To16, true => .s16
  | bits32To16, false | bits24To16, false => .u16
  | bits32To24, true => .s24
  | bits32To24, false => .u24

/-- Low bits that are dropped. -/
def shift : Narrowing → Nat
  | bits32To16 => 16
  | _ => 8

/-- One sample: the four-byte word, read with the signedness of `current`, without its low bits.  The
result is written in as many bytes as its type has. -/
def cut (n : Narrowing) (current : SampleType) (sample : List UInt8) : List UInt8 :=
  let word := Word.ofBytes sample
  let wide : Int := if current.isSigned then (word : Int).bmod 0x100000000 else word
  let count := (n.outputType current).bytes
  Word.toBytes count (wide.fdiv (1 <<< n.shift : Nat) % (1 <<< (8 * count) : Nat)).toNat

/-- Truncate every four-byte word of a host-order buffer. -/
def apply (n : Narrowing) (b : SampleBuffer) : SampleBuffer where
  data := (wholeGroups 4 b.data).flatMap (n.cut b.format.type)
  format := b.format.withType (n.outputType b.format.type)

/-- The printed form. -/
def describe : Narrowing → String
  | bits32ToPacked24 => "32bit -> 24_3bit"
  | bits32To16 => "32bit -> 16bit"
  | bits32To24 => "32bit -> 24bit"
  | bits24To16 => "24bit -> 16bit"

end Narrowing

end PcmConversion
