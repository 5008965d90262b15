import PcmConversion.Rate.Backend
import PcmConversion.Bytes.Grouping

/-!
# Backends without a filter

Three backends whose output is known in advance, for trying the resampler out: one repeats frames, one
delays a mono stream, one follows a script of replies, good or bad.
-/

namespace PcmConversion.Rehearsal

/-- Repeats every frame `times` times, in batches of `batch` frames. -/
def repeating (channels batch times : Nat) : RateBackend Unit where
  name _ := "repeat"
  inputFramesNext _ := batch
  outputFramesMax _ := batch * times
  outputDelay _ := 0
  process s input :=
    let used := if input.final then batch else input.frames
    let frames := wholeGroups channels (input.samples.take (used * channels))
    (.ok {
      consumed := input.frames
      generated := used * times
      written := frames.flatMap fun frame => (List.replicate times frame).flatten }, s)
  reset s := s

/-- Passes a mono stream on unchanged, `delay` frames late.  The state is the queue. -/
def late (batch delay : Nat) : RateBackend (List Binary32) where
  name _ := "late"
  inputFramesNext _ := batch
  outputFramesMax _ := batch
  outputDelay _ := delay
  process queue input :=
    let queue := queue ++ input.samples.take batch
    (.ok { consumed := input.frames, generated := batch, written := queue.take batch },
      queue.drop batch)
  reset _ := List.replicate delay Binary32.zero

/-- The queue of the delaying backend before a stream, where memory can hold it. -/
def lateQueue (delay : Nat) : Except Fault (List Binary32) := do
  checkMemory delay
  return List.replicate delay Binary32.zero

/-- A reply of the scripted backend. -/
inductive Reply where
  | fail (reason : String)
  | counts (consumed generated : Nat)
deriving DecidableEq

/-- A script: what is asked for and what is replied, each read round and round.  Neither list is empty. -/
structure Script where
  needs : List Nat
  replies : List Reply
  outputMax : Nat
  delay : Nat

/-- Follows a script.  The state is the number of calls; the sample in frame `j` and channel `c` of call
`k` is `100 k + j + c / 4`.  Frames beyond the greatest number promised do not fit the output buffer. -/
def scripted (channels : Nat) (script : Script) : RateBackend Nat where
  name _ := "script"
  inputFramesNext k := script.needs.getD (k % script.needs.length) 0
  outputFramesMax _ := script.outputMax
  outputDelay _ := script.delay
  process k _ :=
    match script.replies[k % script.replies.length]? with
    | none => (.error (.fault .divisionByZero), k)
    | some (.fail reason) => (.error (.error (.backend "script" reason)), k + 1)
    | some (.counts consumed generated) =>
      let frame (j : Nat) : List Binary32 :=
        (List.range channels).map fun c => Binary32.ofScaled (4 * (100 * k + j) + c : Nat) (-2)
      if script.outputMax < generated then (.error (.fault .outOfBounds), k + 1)
      else (.ok { consumed, generated, written := (List.range generated).flatMap frame }, k + 1)
  reset _ := 0

end PcmConversion.Rehearsal
