import PcmConversion.Proofs.Rate.Carryover

/-!
# How many calls a request makes

Both loops of a resampler end over every backend, whatever it wants, uses and makes, because each
iteration uses up something that the resampler counts itself.  A chunk makes at most one call for each
whole frame that is pending: a call that is not the last one used a frame (`length_processCalls_le`).
The end of a stream makes at most one call for the frames that are left, and one for each frame of
silence that may be fed and one more, for every later batch holds silence (`length_drainCalls_le`).
-/

namespace PcmConversion.Resampler

variable {σ : Type} {R : Resampler σ} {s : State σ} {pending : List Binary32} {available : Nat}
  {calls : List (BackendCall σ)} {o : Outcome σ (List Binary32)}

theorem pos_of_not_idle (hready : ¬R.Idle s available) : 0 < available := by
  unfold Idle at hready
  omega

/-- The loop makes no more calls than there are frames. -/
theorem Absorbs.length_le_available (h : R.Absorbs s pending available calls o) :
    calls.length ≤ available := by
  induction h with
  | idle => exact Nat.zero_le _
  | failed hready => exact pos_of_not_idle hready
  | stuck hready => exact pos_of_not_idle hready
  | overrun hready => exact pos_of_not_idle hready
  | step _ _ hpos hle _ ih =>
      -- The first batch used a frame at least, so one call fewer is left for the others.
      rw [List.length_cons]
      omega

theorem length_processCalls_le (s : State σ) (input : List Binary32) :
    (R.processCalls s input).length ≤ (s.carryover.length + input.length) / R.channels := by
  cases hroom : R.checkRoom s input with
  | error fault =>
      rw [processCalls_unaffordable hroom]
      exact Nat.zero_le _
  | ok =>
      have hcalls := (absorbs_process hroom).length_le_available
      rwa [List.length_append] at hcalls

/-- While silence is fed, it grows by a frame with each call; only the batch of the frames that are
left may do without. -/
theorem PushesOut.length_le_silence {wanted allowance real padded : Nat} {batch : List Binary32}
    (h : R.PushesOut wanted allowance s batch real padded calls o) :
    calls.length ≤ allowance + 1 - padded + min real 1 := by
  induction h with
  | done => exact Nat.zero_le _
  | unaffordable => exact Nat.zero_le _
  | failed hopen =>
      unfold Drained at hopen
      rw [List.length_singleton]
      omega
  | @step s _ _ _ real padded _ _ _ hopen _ _ _ ih =>
      have hfilled : real ≤ R.finalFrames s real ∧ 1 ≤ R.finalFrames s real := by
        unfold finalFrames
        omega
      unfold Drained at hopen
      rw [List.length_cons]
      omega

theorem length_drainCalls_le (s : State σ) :
    (R.drainCalls s).length ≤ R.pacing.silence (R.owed s) + 1 + min (R.carryoverFrames s) 1 := by
  have h := R.drains_drain s
  generalize R.drainCalls s = calls at h ⊢
  generalize R.drain s = o at h
  cases h with
  | nothing => exact Nat.zero_le _
  | unaffordable => exact Nat.zero_le _
  | pushed _ _ hpushes => exact hpushes.length_le_silence

/-- **Every request comes to an end.**  Over any backend and in any state, a chunk makes at most one
call more than there are whole frames in the carryover and the chunk, and the end of a stream at most
two calls more than it may feed frames of silence. -/
theorem calls_le (R : Resampler σ) (s : State σ) :
    (∀ input, (R.processCalls s input).length ≤
      (s.carryover.length + input.length) / R.channels + 1) ∧
    (R.drainCalls s).length ≤ R.pacing.silence (R.owed s) + 2 := by
  constructor
  · intro input
    exact (length_processCalls_le s input).trans (Nat.le_succ _)
  · have hcalls := length_drainCalls_le (R := R) s
    omega

/-- A mono resampler whose backend takes frames one by one and never makes any. -/
def barren : Resampler Nat :=
  .over (Rehearsal.scripted 1 ⟨[1], [.counts 1 0], 4, 0⟩) 1 (.exact 1 1)

-- Both bounds are reached: a call for each of three frames, and a frame of the carryover followed by
-- eleven frames of silence where ten may be fed.
example : (barren.processCalls ⟨0, [⟨1⟩], ⟨4, []⟩, 0, 0, 0⟩ [⟨2⟩, ⟨3⟩]).length = 3 := by
  decide +kernel

example :
    let s : State Nat := ⟨0, [⟨1⟩], ⟨4, []⟩, 0, 0, 0⟩
    barren.pacing.silence (barren.owed s) = 10 ∧ (barren.drainCalls s).length = 12 := by
  decide +kernel

end PcmConversion.Resampler
