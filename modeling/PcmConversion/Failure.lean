import PcmConversion.Sample.Format

/-!
# What can go wrong

A `ConversionError` is an answer: the caller asked for something that cannot be done, or a rate backend
failed.  A `Fault` is a broken promise inside the program (a stage fed with a type it does not handle,
an index out of bounds, a size that no memory holds); nothing is returned after one.
-/

namespace PcmConversion

/-- A conversion that cannot be set up, or a chunk that cannot be converted. -/
inductive ConversionError where
  /-- The channel counts differ and are neither mono to stereo nor 5.1 to stereo. -/
  | unsupportedChannels (source target : UInt16)
  /-- The rates differ but the settings forbid resampling. -/
  | resamplingDisabled (source target : UInt32)
  /-- A rate backend could not be built. -/
  | backendInit (backend : String) (channels : UInt16) (reason : String)
  /-- A rate backend failed on a batch. -/
  | backend (backend reason : String)
  /-- A stream without rate or channels. -/
  | invalidParams (params : StreamParams)
deriving DecidableEq

namespace ConversionError

/-- The text shown for an error. -/
def message : ConversionError → String
  | unsupportedChannels source target =>
    s!"can't change number of channels ({source} to {target})"
  | resamplingDisabled source target =>
    s!"resampling disabled, can't convert {source}Hz to {target}Hz"
  | backendInit name channels reason =>
    s!"can't initialize {name} resampler for {channels} channels: {reason}"
  | backend name reason => s!"{name} resampler error: {reason}"
  | invalidParams params => s!"invalid sound parameters: {params.describe}"

end ConversionError

/-- A broken promise inside the program. -/
inductive Fault where
  /-- Floating-point samples have no other signedness. -/
  | signOfFloat (format : SampleFormat)
  /-- Integer samples were read as floating point. -/
  | readAsFloat (format : SampleFormat)
  /-- Floating-point samples were decoded as integers. -/
  | decodeFloat (format : SampleFormat)
  /-- Samples were to be quantised to floating point. -/
  | quantiseToFloat
  /-- The downmix does not handle the sample type. -/
  | downmixType (format : SampleFormat)
  /-- The mixer does not handle the pair of channel counts. -/
  | remapChannels (source target : UInt16)
  /-- A position outside a buffer. -/
  | outOfBounds
  /-- A size that no memory can hold. -/
  | outOfMemory
  /-- A count beyond 64 bits. -/
  | overflow
  /-- A division by zero. -/
  | divisionByZero
  /-- A block whose spectrum is not a number. -/
  | undefinedSpectrum
deriving DecidableEq

namespace Fault

/-- The text of the faults that this library words itself. -/
def message? : Fault → Option String
  | signOfFloat format => some s!"can't change sign of {format.describe} samples"
  | readAsFloat format => some s!"to_floats on {format.describe} buffer"
  | decodeFloat format => some s!"can't convert from {format.describe} to float"
  | quantiseToFloat => some "can't convert from float to F32"
  | downmixType format => some s!"can't downmix {format.describe} samples"
  | remapChannels source target => some s!"can't remix {source} channels to {target}"
  | outOfBounds | outOfMemory | overflow | divisionByZero | undefinedSpectrum => none

/-- Whether the fault is one of this library's own refusals. -/
def isRefusal (fault : Fault) : Bool :=
  fault.message?.isSome

end Fault

/-- Why an operation gave no result. -/
inductive Failure where
  | error (error : ConversionError)
  | fault (fault : Fault)
deriving DecidableEq

/-- A computation that can only end in a result or a fault, seen as one that may also fail. -/
def liftFault {α : Type} : Except Fault α → Except Failure α
  | .ok a => .ok a
  | .error f => .error (.fault f)

/-- Counts must stay below `2^64`. -/
def checkCount (n : Nat) : Except Fault Unit :=
  if n < 0x10000000000000000 then .ok () else .error .overflow

/-- Memory for `n` samples of four bytes must stay below `2^63` bytes. -/
def checkMemory (n : Nat) : Except Fault Unit :=
  if 4 * n < 0x8000000000000000 then .ok () else .error .outOfMemory

end PcmConversion
