import PcmConversion.Proofs.Rate.Calls
import Mathlib.Tactic.Linarith

/-!
# What one batch hands on

A call of a backend leaves samples in the output buffer and reports a number of frames; these are
the frames that it *generated*.  Of them a resampler hands on what lies beyond the delay still to be
dropped and below the limit.  `runBatch_ok` says so for a call that keeps within the buffer, and
`exists_read_of_runBatch` that a batch succeeds in no other way.
-/

namespace PcmConversion

namespace Scratch

/-- The first `n` samples of the buffer. -/
def front (s : Scratch) (n : Nat) : List Binary32 :=
  s.written.take n ++ List.replicate (n - s.written.length) Binary32.zero

@[simp] theorem length_front (s : Scratch) (n : Nat) : (s.front n).length = n := by
  simp only [front, List.length_append, List.length_take, List.length_replicate]
  omega

@[simp] theorem size_store (s : Scratch) (xs : List Binary32) : (s.store xs).size = s.size := rfl

/-- What is written covers the front of the buffer. -/
theorem front_store (s : Scratch) {xs : List Binary32} {n : Nat} (hn : n ≤ xs.length) :
    (s.store xs).front n = xs.take n := by
  have hcovered : n - (xs ++ s.written.drop xs.length).length = 0 := by
    rw [List.length_append]
    omega
  rw [front, store, List.take_append_of_le_length hn, hcovered, List.replicate_zero,
    List.append_nil]

/-- A range of the buffer, seen in any front part that holds it. -/
theorem read_eq_ok {s : Scratch} {start count n : Nat} (hn : start + count ≤ n)
    (hsize : start + count ≤ s.size) :
    s.read start count = .ok (((s.front n).drop start).take count) := by
  unfold read
  rw [if_pos hsize]
  refine congrArg Except.ok ?_
  apply List.ext_getElem
  · simp only [List.length_append, List.length_take, List.length_drop, List.length_replicate,
      length_front]
    omega
  · intro i hleft hright
    simp only [List.length_append, List.length_take, List.length_drop,
      List.length_replicate] at hleft
    -- Up to what was written both sides are the written samples, beyond it both are silent.
    by_cases hwritten : start + i < s.written.length
    · rw [List.getElem_append_left (by simp only [List.length_take, List.length_drop]; omega)]
      simp only [front, List.getElem_take, List.getElem_drop]
      rw [List.getElem_append_left (by simp only [List.length_take]; omega), List.getElem_take]
    · rw [List.getElem_append_right (by simp only [List.length_take, List.length_drop]; omega)]
      simp only [front, List.getElem_take, List.getElem_drop, List.getElem_replicate]
      rw [List.getElem_append_right (by simp only [List.length_take]; omega),
        List.getElem_replicate]

theorem length_read {s : Scratch} {start count : Nat} {xs : List Binary32}
    (h : s.read start count = .ok xs) : xs.length = count := by
  unfold read at h
  split at h
  · obtain rfl := Except.ok.inj h
    simp only [List.length_append, List.length_take, List.length_drop, List.length_replicate]
    omega
  · cases h

end Scratch

namespace Resampler

variable {σ : Type} {R : Resampler σ}

/-- The state that a successful batch leaves. -/
def State.emitted (s : State σ) (b : σ) (yield : Yield) (limit : Option Nat) : State σ :=
  { s with
    backend := b
    scratch := s.scratch.store yield.written
    delayLeft := s.delayLeft - yield.generated
    framesOut := s.framesOut + framesKept limit s.framesOut (yield.generated - s.delayLeft) }

variable (R) in
/-- The samples that a successful batch hands on. -/
def handedOn (s : State σ) (yield : Yield) (limit : Option Nat) : List Binary32 :=
  (((s.scratch.store yield.written).front (yield.generated * R.channels)).drop
    (s.delayLeft * R.channels)).take
      (framesKept limit s.framesOut (yield.generated - s.delayLeft) * R.channels)

theorem framesKept_le (limit : Option Nat) (framesOut n : Nat) :
    framesKept limit framesOut n ≤ n := by
  cases limit <;> simp [framesKept]

/-- Frames that a batch may generate without leaving the buffer are handed on. -/
theorem runBatch_ok {s : State σ} {b : σ} {batch : Batch} {yield : Yield} (limit : Option Nat)
    (hprocess : R.backend.process s.backend batch = (.ok yield, b))
    (hfits : yield.generated * R.channels ≤ s.scratch.size) :
    R.runBatch s batch limit =
      (.ok (yield.consumed, R.handedOn s yield limit), s.emitted b yield limit) := by
  have hkept := framesKept_le limit s.framesOut (yield.generated - s.delayLeft)
  have hinside : min yield.generated s.delayLeft * R.channels +
      framesKept limit s.framesOut (yield.generated - s.delayLeft) * R.channels ≤
        yield.generated * R.channels := by
    rw [← Nat.add_mul]
    exact Nat.mul_le_mul_right _ (by omega)
  have hread : (s.scratch.store yield.written).read
      (min yield.generated s.delayLeft * R.channels)
      (framesKept limit s.framesOut (yield.generated - s.delayLeft) * R.channels) =
        .ok (R.handedOn s yield limit) := by
    rw [Scratch.read_eq_ok (s := s.scratch.store yield.written) hinside (hinside.trans hfits),
      handedOn]
    by_cases hdelay : s.delayLeft ≤ yield.generated
    · rw [Nat.min_eq_right hdelay]
    · -- The whole batch lies inside the delay.
      have hnone : yield.generated - s.delayLeft = 0 := by omega
      have hzero : framesKept limit s.framesOut 0 = 0 := by
        have := framesKept_le limit s.framesOut 0
        omega
      rw [hnone, hzero, Nat.zero_mul, List.take_zero, List.take_zero]
  unfold runBatch
  rw [hprocess]
  simp only [emit_eq]
  rw [hread]
  rfl

/-- A batch succeeds only if its call does and what is handed on lies in the buffer. -/
theorem exists_read_of_runBatch {s s' : State σ} {batch : Batch} {limit : Option Nat}
    {consumed : Nat} {out : List Binary32}
    (h : R.runBatch s batch limit = (.ok (consumed, out), s')) :
    ∃ yield b, R.backend.process s.backend batch = (.ok yield, b) ∧ yield.consumed = consumed ∧
      (s.scratch.store yield.written).read (min yield.generated s.delayLeft * R.channels)
        (framesKept limit s.framesOut (yield.generated - s.delayLeft) * R.channels) = .ok out ∧
      s' = s.emitted b yield limit := by
  unfold runBatch at h
  rcases hprocess : R.backend.process s.backend batch with ⟨result, b⟩
  simp only [hprocess] at h
  cases result with
  | error failure => simp at h
  | ok yield =>
      simp only [emit_eq] at h
      cases hread : (s.scratch.store yield.written).read
          (min yield.generated s.delayLeft * R.channels)
          (framesKept limit s.framesOut (yield.generated - s.delayLeft) * R.channels) with
      | error fault => simp [hread, Except.map] at h
      | ok xs =>
          simp only [hread, Except.map, Prod.mk.injEq, Except.ok.injEq] at h
          obtain ⟨⟨hconsumed, rfl⟩, rfl⟩ := h
          exact ⟨yield, b, rfl, hconsumed, hread, rfl⟩

theorem runBatch_eq_ok {s s' : State σ} {batch : Batch} {limit : Option Nat} {consumed : Nat}
    {out : List Binary32} (h : R.runBatch s batch limit = (.ok (consumed, out), s')) :
    ∃ yield, R.backend.answer ⟨s.backend, batch⟩ = .ok yield ∧ yield.consumed = consumed := by
  obtain ⟨yield, b, hprocess, hconsumed, -⟩ := exists_read_of_runBatch h
  exact ⟨yield, congrArg Prod.fst hprocess, hconsumed⟩

/-- Whole frames are handed on. -/
theorem dvd_length_runBatch {s s' : State σ} {batch : Batch} {limit : Option Nat} {consumed : Nat}
    {out : List Binary32} (h : R.runBatch s batch limit = (.ok (consumed, out), s')) :
    R.channels ∣ out.length := by
  obtain ⟨yield, b, -, -, hread, -⟩ := exists_read_of_runBatch h
  rw [Scratch.length_read hread]
  exact Nat.dvd_mul_left _ _

/-- The carryover plays no part in a batch. -/
theorem runBatch_carryover {s s' : State σ} {batch : Batch} {limit : Option Nat}
    {result : Except Failure (Nat × List Binary32)} (h : R.runBatch s batch limit = (result, s'))
    (carryover : List Binary32) :
    R.runBatch { s with carryover } batch limit = (result, { s' with carryover }) := by
  rw [Prod.ext_iff] at h
  obtain ⟨rfl, rfl⟩ := h
  unfold runBatch
  rcases R.backend.process s.backend batch with ⟨result, b⟩
  cases result with
  | error failure => rfl
  | ok yield =>
      simp only [emit_eq]
      cases (s.scratch.store yield.written).read _ _ <;> rfl

end Resampler

end PcmConversion
