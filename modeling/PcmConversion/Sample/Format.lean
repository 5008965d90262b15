import PcmConversion.Sample.Encoding

/-!
# Sample formats and stream parameters

A sample format is a sample type with a byte order; the parameters of a stream add its rate and the
number of interleaved channels.
-/

namespace PcmConversion

/-- A sample type and the byte order of its bytes. -/
structure SampleFormat where
  type : SampleType
  order : ByteOrder
deriving DecidableEq

namespace SampleFormat

/-- The format with its byte order made concrete. -/
def resolved (f : SampleFormat) : SampleFormat :=
  { f with order := f.order.resolve }

def withType (f : SampleFormat) (type : SampleType) : SampleFormat :=
  { f with type }

def withOrder (f : SampleFormat) (order : ByteOrder) : SampleFormat :=
  { f with order }

/-- Whether samples of the format are readable by the host as they are. -/
def isNative (f : SampleFormat) : Bool :=
  !f.type.hasByteOrder || f.order.resolve = ByteOrder.host

/-- Whether going to the byte order of `g` changes the bytes. -/
def needsSwapTo (f g : SampleFormat) : Bool :=
  f.type.hasByteOrder && f.order.resolve != g.order.resolve

/-- Whether samples of both formats take the same number of bytes. -/
def sameWidth (f g : SampleFormat) : Bool :=
  f.type.bytes = g.type.bytes

/-- The printed form: the type, and the byte order where the type has one. -/
def describe (f : SampleFormat) : String :=
  if f.type.hasByteOrder then s!"{f.type.label} ({f.order.label})" else f.type.label

end SampleFormat

/-- Rate, channels and sample format of an interleaved stream. -/
structure StreamParams where
  rate : UInt32
  channels : UInt16
  format : SampleFormat
deriving DecidableEq

namespace StreamParams

/-- Bytes of one frame: one sample for every channel. -/
def frameBytes (p : StreamParams) : Nat :=
  p.format.type.bytes * p.channels.toNat

/-- A stream has a rate and at least one channel. -/
def isValid (p : StreamParams) : Bool :=
  p.rate != 0 && p.channels != 0

/-- The printed form, such as `44100Hz 2ch S16 (LE)`. -/
def describe (p : StreamParams) : String :=
  s!"{p.rate}Hz {p.channels}ch {p.format.describe}"

end StreamParams

end PcmConversion
