import PcmConversion.Sample.Encoding
import PcmConversion.Bytes.Word

/-!
# Sample values

Every integer type writes a whole number between `-2^(bits-1)` and `2^(bits-1) - 1`, the *centred value*
of a sample: signed types in two's complement, unsigned ones with an offset of half the range, 24-bit
types in the low 24 bits of their bytes.  The two directions are `SampleType.value` and
`SampleType.word`; what is not significant in a container is ignored by the first and filled with the
sign (or zeros) by the second.
-/

namespace PcmConversion.SampleType

/-- Half the number of values: what the value zero is written as in an unsigned type. -/
def half (t : SampleType) : Int :=
  (1 <<< (t.bits - 1) : Nat)

/-- Least value of the type. -/
def lowest (t : SampleType) : Int :=
  -t.half

/-- Greatest value of the type. -/
def highest (t : SampleType) : Int :=
  t.half - 1

/-- The centred value that a host-order word stands for. -/
def value (t : SampleType) (word : Nat) : Int :=
  if t.isSigned then (word : Int).bmod (1 <<< t.bits)
  else (word % 1 <<< t.bits : Nat) - t.half

/-- The host-order word that writes a centred value. -/
def word (t : SampleType) (value : Int) : Nat :=
  ((if t.isSigned then value else value + t.half) % (1 <<< (8 * t.bytes) : Nat)).toNat

/-- The centred value of one sample, given by its bytes in host order. -/
def read (t : SampleType) (sample : List UInt8) : Int :=
  t.value (Word.ofBytes sample)

/-- The bytes of one sample in host order. -/
def write (t : SampleType) (value : Int) : List UInt8 :=
  Word.toBytes t.bytes (t.word value)

@[simp] theorem length_write (t : SampleType) (v : Int) : (t.write v).length = t.bytes :=
  Word.length_toBytes ..

end PcmConversion.SampleType
