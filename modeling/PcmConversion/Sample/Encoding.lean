/-!
# Sample types and byte orders

The eleven ways a PCM sample is written: eight to thirty-two bits, signed or unsigned, 24 bits either
packed into three bytes or in a four-byte container, and 32-bit floating point.
-/

namespace PcmConversion

/-- How one sample is written. -/
inductive SampleType where
  | u8 | s8
  | u16 | s16
  /-- 24 bits in the low bytes of a four-byte container. -/
  | u24 | s24
  /-- 24 bits in three bytes. -/
  | u24Packed | s24Packed
  | u32 | s32
  | f32
deriving DecidableEq

namespace SampleType

/-- Every sample type. -/
def all : List SampleType :=
  [.u8, .s8, .u16, .s16, .u24, .s24, .u24Packed, .s24Packed, .u32, .s32, .f32]

/-- Bytes that one sample takes. -/
def bytes : SampleType → Nat
  | u8 | s8 => 1
  | u16 | s16 => 2
  | u24Packed | s24Packed => 3
  | u24 | s24 | u32 | s32 | f32 => 4

/-- Significant bits of a sample. -/
def bits : SampleType → Nat
  | u8 | s8 => 8
  | u16 | s16 => 16
  | u24 | s24 | u24Packed | s24Packed => 24
  | u32 | s32 | f32 => 32

def isFloat : SampleType → Bool
  | f32 => true
  | _ => false

def isSigned : SampleType → Bool
  | s8 | s16 | s24 | s24Packed | s32 | f32 => true
  | _ => false

/-- The type of the same layout and the other signedness; floating point has none. -/
def toggledSign : SampleType → Option SampleType
  | u8 => some s8
  | s8 => some u8
  | u16 => some s16
  | s16 => some u16
  | u24 => some s24
  | s24 => some u24
  | u24Packed => some s24Packed
  | s24Packed => some u24Packed
  | u32 => some s32
  | s32 => some u32
  | f32 => none

/-- Whether a byte order is part of the encoding: single bytes have none, and floating-point samples
are always in host order. -/
def hasByteOrder : SampleType → Bool
  | u8 | s8 | f32 => false
  | _ => true

/-- The name printed for the type. -/
def label : SampleType → String
  | u8 => "U8"
  | s8 => "S8"
  | u16 => "U16"
  | s16 => "S16"
  | u24 => "U24"
  | s24 => "S24"
  | u24Packed => "U24_3"
  | s24Packed => "S24_3"
  | u32 => "U32"
  | s32 => "S32"
  | f32 => "FLOAT"

theorem bytes_pos (t : SampleType) : 0 < t.bytes := by
  cases t <;> decide

end SampleType

/-- A byte order as written in a description; `native` stands for the order of the host. -/
inductive ByteOrder where
  | little | big | native
deriving DecidableEq

namespace ByteOrder

/-- The order of the host. -/
def host : ByteOrder := little

/-- The concrete order meant. -/
def resolve : ByteOrder → ByteOrder
  | native => host
  | order => order

/-- The other concrete order. -/
def opposite (order : ByteOrder) : ByteOrder :=
  match order.resolve with
  | big => little
  | _ => big

/-- The two letters printed for the order. -/
def label : ByteOrder → String
  | little => "LE"
  | big => "BE"
  | native => "NE"

@[simp] theorem resolve_resolve (order : ByteOrder) : order.resolve.resolve = order.resolve := by
  cases order <;> rfl

end ByteOrder

end PcmConversion
