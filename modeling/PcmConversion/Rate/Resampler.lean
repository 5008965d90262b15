import PcmConversion.Rate.Backend
import PcmConversion.Rate.Pacing

/-!
# Resampling chunks of any size

A backend takes whole batches, a caller sends chunks of any length.  The resampler keeps what does not
fill a batch as *carryover*, drops the leading output that covers the delay of the backend's filter, and
at the end of a stream feeds silence until the stream is as long as its input says it should be.

* `Resampler.process` appends a chunk to the carryover and runs the batches that are there.
* `Resampler.drain` ends the stream: it returns what is still owed and starts afresh.
* `Resampler.reset` forgets the stream.

Both loops end because of what they count themselves, whatever the backend answers: `absorb` by the frames
still waiting, `pushOut` by the silence it may still feed.
-/

namespace PcmConversion

/-- The output buffer of a backend: `size` samples, silent until written. -/
structure Scratch where
  size : Nat
  written : List Binary32

namespace Scratch

/-- Write from the start of the buffer; what lies beyond keeps its contents. -/
def store (s : Scratch) (xs : List Binary32) : Scratch :=
  { s with written := xs ++ s.written.drop xs.length }

/-- The samples in a range of the buffer. -/
def read (s : Scratch) (start count : Nat) : Except Fault (List Binary32) :=
  if start + count ≤ s.size then
    let found := (s.written.drop start).take count
    .ok (found ++ List.replicate (count - found.length) Binary32.zero)
  else .error .outOfBounds

end Scratch

/-- What stays the same while a stream is resampled. -/
structure Resampler (σ : Type) where
  backend : RateBackend σ
  /-- Interleaved channels. -/
  channels : Nat
  pacing : Pacing
  channels_pos : 0 < channels

/-- What changes while a stream is resampled. -/
structure Resampler.State (σ : Type) where
  backend : σ
  /-- Interleaved input that the backend has not used yet. -/
  carryover : List Binary32
  /-- Output of the latest batch. -/
  scratch : Scratch
  /-- Leading output frames still to be dropped for the delay of the filter. -/
  delayLeft : Nat
  /-- Input frames used since the stream started. -/
  framesIn : Nat
  /-- Output frames returned since the stream started. -/
  framesOut : Nat

namespace Resampler

variable {σ : Type}

/-- The result of a call and the state it leaves. -/
abbrev Outcome (σ : Type) (α : Type) :=
  Except Failure α × State σ

/-- A resampler for interleaved audio; without channels it counts samples as frames. -/
def «over» (backend : RateBackend σ) (channels : Nat) (pacing : Pacing) : Resampler σ where
  backend
  channels := max channels 1
  pacing
  channels_pos := by omega

/-- A resampler before its first stream, over a backend state as it was built. -/
def start (R : Resampler σ) (backend : σ) : Except Fault (State σ) := do
  let size := R.backend.outputFramesMax backend * R.channels
  checkMemory size
  return {
    backend
    carryover := []
    scratch := ⟨size, []⟩
    delayLeft := R.backend.outputDelay backend
    framesIn := 0
    framesOut := 0 }

/-- Whole frames that wait for the next call. -/
def carryoverFrames (R : Resampler σ) (s : State σ) : Nat :=
  s.carryover.length / R.channels

/-- Start the next stream. -/
def restart (R : Resampler σ) (s : State σ) : State σ :=
  let backend := R.backend.reset s.backend
  { s with
    backend
    carryover := []
    delayLeft := R.backend.outputDelay backend
    framesIn := 0
    framesOut := 0 }

/-- The part of the latest batch's output to hand on: without the frames that fall into the delay, and
without those beyond `limit` frames in total. -/
def emit (R : Resampler σ) (s : State σ) (generated : Nat) (limit : Option Nat) :
    Except Fault (List Binary32 × State σ) := do
  let skip := min generated s.delayLeft
  let room := limit.map (· - s.framesOut)
  let keep := (room.map (min (generated - skip))).getD (generated - skip)
  let out ← s.scratch.read (skip * R.channels) (keep * R.channels)
  return (out, { s with delayLeft := s.delayLeft - skip, framesOut := s.framesOut + keep })

/-- Run one batch: the counts reported, the output to hand on, and the state after it. -/
def runBatch (R : Resampler σ) (s : State σ) (batch : Batch) (limit : Option Nat) :
    Outcome σ (Nat × List Binary32) :=
  let (result, backend) := R.backend.process s.backend batch
  match result with
  | .error failure => (.error failure, { s with backend })
  | .ok yield =>
    let s := { s with backend, scratch := s.scratch.store yield.written }
    match R.emit s yield.generated limit with
    | .error fault => (.error (.fault fault), s)
    | .ok (out, s) => (.ok (yield.consumed, out), s)

/-- Run whole batches of `pending`, which holds `available` whole frames, until the backend wants more
than is left, wants nothing, or makes no progress.  A backend that claims more than is left breaks its
promise. -/
def absorb (R : Resampler σ) (s : State σ) (pending : List Binary32) (available : Nat) :
    Outcome σ (List Binary32) :=
  let needed := R.backend.inputFramesNext s.backend
  if _ : needed = 0 ∨ available < needed then (.ok [], { s with carryover := pending })
  else
    match R.runBatch s ⟨pending.take (needed * R.channels), needed, false⟩ none with
    | (.error failure, s) => (.error failure, { s with carryover := [] })
    | (.ok (consumed, out), s) =>
      if _ : consumed = 0 then (.ok out, { s with carryover := pending })
      else if available < consumed then (.error (.fault .outOfBounds), s)
      else
        let s := { s with framesIn := s.framesIn + consumed }
        let (rest, s) := R.absorb s (pending.drop (consumed * R.channels)) (available - consumed)
        (rest.map (out ++ ·), s)
termination_by available

/-- Resample a chunk: all output that the carryover and the chunk allow.  When the backend fails the
carryover is discarded. -/
def process (R : Resampler σ) (s : State σ) (input : List Binary32) : Outcome σ (List Binary32) :=
  let pending := s.carryover ++ input
  let available := pending.length / R.channels
  match checkMemory (R.pacing.reserve available * R.channels) with
  | .error fault => (.error (.fault fault), { s with carryover := pending })
  | .ok () => R.absorb s pending available

/-- Feed the last `real` frames, held in `batch`, and then silence until `wanted` frames have been
returned in total or more than `allowance` frames of silence were fed. -/
def pushOut (R : Resampler σ) (wanted allowance : Nat) (s : State σ) (batch : List Binary32)
    (real padded : Nat) : Outcome σ (List Binary32) :=
  if _ : wanted ≤ s.framesOut ∨ allowance < padded then (.ok [], s)
  else
    let needed := max (max (R.backend.inputFramesNext s.backend) real) 1
    match checkMemory (needed * R.channels) with
    | .error fault => (.error (.fault fault), s)
    | .ok () =>
      let silence := List.replicate ((needed - real) * R.channels) Binary32.zero
      match R.runBatch s ⟨batch ++ silence, real, true⟩ (some wanted) with
      | (.error failure, s) => (.error failure, s)
      | (.ok (_, out), s) =>
        let (rest, s) := R.pushOut wanted allowance s [] 0 (padded + (needed - real))
        (rest.map (out ++ ·), s)
termination_by allowance + 1 - padded + real

/-- End the stream: what the carryover and the backend's filter still owe, up to the length that the
input of the stream calls for.  The next call starts a new stream, whether this one succeeded or not. -/
def drain (R : Resampler σ) (s : State σ) : Outcome σ (List Binary32) :=
  let carry := R.carryoverFrames s
  if carry = 0 ∧ s.framesIn = 0 then (.ok [], R.restart s)
  else
    let wanted := R.pacing.target (s.framesIn + carry)
    let missing := wanted - s.framesOut
    let owed := missing + s.delayLeft + R.backend.outputFramesMax s.backend
    let allowance := R.pacing.silence owed
    let batch := s.carryover.take (carry * R.channels)
    let s := { s with carryover := [] }
    match checkCount (max owed allowance), checkMemory (missing * R.channels) with
    | .error fault, _ | _, .error fault => (.error (.fault fault), s)
    | .ok (), .ok () =>
      let (result, s) := R.pushOut wanted allowance s batch carry 0
      (result, R.restart s)

/-- Drop what is pending and start a new stream. -/
def reset (R : Resampler σ) (s : State σ) : State σ :=
  R.restart s

end Resampler

end PcmConversion
