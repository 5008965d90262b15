/-!
# Settings of a conversion

Whether rates may change at all, which backend changes them, and how finely it works.
-/

namespace PcmConversion

/-- Interpolation used by the general rate backend. -/
inductive ResampleMethod where
  | sincBestQuality | sincMediumQuality | sincFastest
  | zeroOrderHold
  | linear
deriving DecidableEq

namespace ResampleMethod

/-- Every method. -/
def all : List ResampleMethod :=
  [.sincBestQuality, .sincMediumQuality, .sincFastest, .zeroOrderHold, .linear]

/-- The canonical name. -/
def name : ResampleMethod → String
  | sincBestQuality => "SincBestQuality"
  | sincMediumQuality => "SincMediumQuality"
  | sincFastest => "SincFastest"
  | zeroOrderHold => "ZeroOrderHold"
  | linear => "Linear"

/-- The letters of a text with ASCII capitals made small; other characters stay. -/
def foldCase (s : String) : List Char :=
  s.toList.map Char.toLower

/-- The method of that name, whatever the case of its ASCII letters. -/
def ofName? (s : String) : Option ResampleMethod :=
  all.find? fun m => foldCase m.name = foldCase s

end ResampleMethod

/-- The family of rate backends. -/
inductive BackendChoice where
  /-- Interpolation by the chosen method. -/
  | general
  /-- Fixed-ratio block transform, tuned by its quality. -/
  | lowLatency
deriving DecidableEq

/-- The settings of a conversion. -/
structure Settings where
  /-- Allow the rate to change. -/
  enableResample : Bool := true
  method : ResampleMethod := .linear
  backend : BackendChoice := .general
  /-- Quality of the low-latency backend. -/
  lowLatencyQuality : UInt32 := 48
  /-- Batch size of the general backend, in frames. -/
  chunkFrames : UInt64 := 1024
deriving DecidableEq

namespace Settings

/-- The quality held between 16 and 96. -/
def effectiveQuality (s : Settings) : Nat :=
  max 16 (min 96 s.lowLatencyQuality.toNat)

/-- The batch size, at least one frame. -/
def effectiveChunkFrames (s : Settings) : Nat :=
  max 1 s.chunkFrames.toNat

end Settings

end PcmConversion
