import PcmConversion.Proofs.Rate.Absorption
import PcmConversion.Rate.Rehearsal

/-!
# What a chunk leaves behind

The carryover after a chunk that succeeds is what its batches did not use, whatever the backend reports
and however its demand changes.  It is less than the next batch, unless the backend wants nothing or its
last call used nothing (`Absorbs.leaves`).
-/

namespace PcmConversion

variable {σ : Type}

namespace RateBackend

/-- The frames that a call reports as used; of a failed call none. -/
def used (B : RateBackend σ) (call : BackendCall σ) : Nat :=
  match B.answer call with
  | .ok yield => yield.consumed
  | .error _ => 0

/-- The frames that calls report as used. -/
def usedFrames (B : RateBackend σ) (calls : List (BackendCall σ)) : Nat :=
  (calls.map B.used).sum

@[simp] theorem usedFrames_nil (B : RateBackend σ) : B.usedFrames [] = 0 := rfl

@[simp] theorem usedFrames_cons (B : RateBackend σ) (call : BackendCall σ)
    (calls : List (BackendCall σ)) :
    B.usedFrames (call :: calls) = B.used call + B.usedFrames calls := rfl

/-- The last of the calls succeeds and uses nothing. -/
def Stuck (B : RateBackend σ) (calls : List (BackendCall σ)) : Prop :=
  ∃ call yield, calls.getLast? = some call ∧ B.answer call = .ok yield ∧ yield.consumed = 0

theorem Stuck.cons {B : RateBackend σ} {calls : List (BackendCall σ)} (h : B.Stuck calls)
    (call : BackendCall σ) : B.Stuck (call :: calls) := by
  obtain ⟨last, yield, hlast, hanswer, hzero⟩ := h
  refine ⟨last, yield, ?_, hanswer, hzero⟩
  rw [List.getLast?_cons, hlast]
  rfl

end RateBackend

namespace Resampler

variable {R : Resampler σ} {s s' : State σ} {pending : List Binary32} {available : Nat}
  {calls : List (BackendCall σ)} {o : Outcome σ (List Binary32)}

theorem used_of_runBatch {batch : Batch} {limit : Option Nat} {consumed : Nat}
    {out : List Binary32} (hrun : R.runBatch s batch limit = (.ok (consumed, out), s')) :
    R.backend.used ⟨s.backend, batch⟩ = consumed := by
  obtain ⟨yield, hanswer, rfl⟩ := runBatch_eq_ok hrun
  rw [RateBackend.used, hanswer]

theorem exists_ok_of_prepend {out all : List Binary32} (h : (prepend out o).1 = .ok all) :
    ∃ later, o.1 = .ok later := by
  obtain ⟨result, s⟩ := o
  cases result with
  | error failure => cases h
  | ok later => exact ⟨later, rfl⟩

variable (R) in
/-- What calls made for `pending` leave of it in a state: all that they did not use.  It is less than
the next batch, unless the backend wants none or stopped using any. -/
structure Leaves (pending : List Binary32) (calls : List (BackendCall σ)) (s : State σ) : Prop where
  used_le : R.backend.usedFrames calls ≤ pending.length / R.channels
  carryover : s.carryover = pending.drop (R.backend.usedFrames calls * R.channels)
  settled : R.Settled s ∨ R.backend.Stuck calls

theorem Absorbs.leaves {out : List Binary32} (h : R.Absorbs s pending available calls o)
    (hframes : pending.length / R.channels = available) (hok : o.1 = .ok out) :
    R.Leaves pending calls o.2 := by
  induction h generalizing out with
  | idle hidle =>
      subst hframes
      exact ⟨Nat.zero_le _, by simp, .inl hidle⟩
  | failed => cases hok
  | stuck _ hrun =>
      obtain ⟨yield, hanswer, hzero⟩ := runBatch_eq_ok hrun
      refine ⟨?_, ?_, .inr ⟨_, yield, rfl, hanswer, hzero⟩⟩
      · simp [used_of_runBatch hrun]
      · simp [used_of_runBatch hrun]
  | overrun => cases hok
  | @step _ _ _ _ _ consumed _ rest _ hrun _ hle _ ih =>
      obtain ⟨later, hlater⟩ := exists_ok_of_prepend hok
      obtain ⟨hused, hcarryover, hsettled⟩ := ih (by rw [R.frames_drop, hframes]) hlater
      rw [R.frames_drop, hframes] at hused
      refine ⟨?_, ?_, hsettled.imp id (.cons · _)⟩
      · rw [RateBackend.usedFrames_cons, used_of_runBatch hrun, hframes]
        omega
      · show rest.2.carryover = _
        rw [RateBackend.usedFrames_cons, used_of_runBatch hrun, hcarryover, List.drop_drop,
          Nat.add_mul]

theorem leaves_of_process {input out : List Binary32} (h : R.process s input = (.ok out, s')) :
    R.Leaves (s.carryover ++ input) (R.processCalls s input) s' := by
  cases hroom : R.checkRoom s input with
  | error fault =>
      rw [process_unaffordable hroom] at h
      cases h
  | ok =>
      have hok : (R.process s input).1 = .ok out := by rw [h]
      have hleaves := (absorbs_process hroom).leaves rfl hok
      rwa [h] at hleaves

/-- **The carryover.**  A chunk that succeeds leaves behind what its batches did not use, from an
exact number of frames on.  This is less than the batch that the backend wants next, or it wants
none, or the last batch of the chunk used no frame. -/
theorem carryover_of_process {input out : List Binary32}
    (h : R.process s input = (.ok out, s')) :
    (R.carryoverFrames s' < R.backend.inputFramesNext s'.backend ∨
      R.backend.inputFramesNext s'.backend = 0 ∨
      ∃ call yield, (R.processCalls s input).getLast? = some call ∧
        R.backend.answer call = .ok yield ∧ yield.consumed = 0) ∧
    R.backend.usedFrames (R.processCalls s input) * R.channels ≤ (s.carryover ++ input).length ∧
    s'.carryover =
      (s.carryover ++ input).drop (R.backend.usedFrames (R.processCalls s input) * R.channels) := by
  obtain ⟨hused, hcarryover, hsettled⟩ := leaves_of_process h
  refine ⟨?_, ?_, hcarryover⟩
  · rcases hsettled with (hnone | hless) | hstuck
    · exact .inr (.inl hnone)
    · exact .inl hless
    · exact .inr (.inr hstuck)
  · exact (Nat.mul_le_mul_right _ hused).trans (Nat.div_mul_le_self _ _)

/-- A stereo resampler whose backend wants two frames and one in turn, and uses one, then none. -/
def dawdling : Resampler Nat :=
  .over (Rehearsal.scripted 2 ⟨[2, 1], [.counts 1 1, .counts 0 1], 1, 0⟩) 2 (.exact 1 1)

/-- Of one pending frame and two and a half new ones the first is used.  What is left would do for the
next batch, but the last call has used nothing. -/
theorem carryover_of_process_dawdling :
    let s : State Nat := ⟨0, [⟨1⟩, ⟨2⟩], ⟨2, []⟩, 0, 0, 0⟩
    let input : List Binary32 := [⟨3⟩, ⟨4⟩, ⟨5⟩, ⟨6⟩, ⟨7⟩]
    ∃ s', dawdling.process s input =
        (.ok [⟨0⟩, ⟨0x3e800000⟩, ⟨0x42c80000⟩, ⟨0x42c88000⟩], s') ∧
      dawdling.backend.Stuck (dawdling.processCalls s input) ∧
      s'.carryover = [⟨3⟩, ⟨4⟩, ⟨5⟩, ⟨6⟩, ⟨7⟩] := by
  intro s input
  have hprocess : dawdling.process s input =
      (.ok [⟨0⟩, ⟨0x3e800000⟩, ⟨0x42c80000⟩, ⟨0x42c88000⟩], (dawdling.process s input).2) :=
    Prod.ext (by decide +kernel) rfl
  obtain ⟨hsettled, -, hcarryover⟩ := carryover_of_process hprocess
  have hused : dawdling.backend.usedFrames (dawdling.processCalls s input) = 1 := by
    decide +kernel
  have hfull : dawdling.backend.inputFramesNext (dawdling.process s input).2.backend = 2 := by
    decide +kernel
  have hleft : dawdling.carryoverFrames (dawdling.process s input).2 = 2 := by decide +kernel
  rw [hused] at hcarryover
  rw [hfull, hleft] at hsettled
  refine ⟨_, hprocess, ?_, hcarryover⟩
  rcases hsettled with hless | hnone | hstuck
  · exact absurd hless (by decide)
  · exact absurd hnone (by decide)
  · exact hstuck

end Resampler

end PcmConversion
