import PcmConversion.Proofs.Rate.Emission

/-!
# The output of a run

The frames that a run of calls generates, one after the other, and the part of them that is handed
on: what lies beyond the delay and below the limit.  `Emits` says this of a whole run; it holds of a
single batch (`Emits.of_runBatch`) and of two runs in a row if it holds of each (`Emits.trans`),
because the delay and the limit are counted down along the run.

Generated frames are those that stand in the output buffer, which a backend may leave as it was.  Where
every call writes what it reports, they are the frames written (`RateBackend.output_eq_reported`).
-/

namespace PcmConversion

variable {σ : Type}

namespace RateBackend

variable (B : RateBackend σ)

/-- Frames that the calls generate in total. -/
def generated : List (BackendCall σ) → Nat
  | [] => 0
  | call :: calls =>
    match B.answer call with
    | .ok yield => yield.generated + generated calls
    | .error _ => generated calls

/-- The output buffer after the calls. -/
def buffer : Scratch → List (BackendCall σ) → Scratch
  | scratch, [] => scratch
  | scratch, call :: calls =>
    match B.answer call with
    | .ok yield => buffer (scratch.store yield.written) calls
    | .error _ => buffer scratch calls

/-- The frames that the calls generate: after each call those that it reported, read from the start
of the output buffer. -/
def output (channels : Nat) : Scratch → List (BackendCall σ) → List Binary32
  | _, [] => []
  | scratch, call :: calls =>
    match B.answer call with
    | .ok yield =>
      (scratch.store yield.written).front (yield.generated * channels) ++
        output channels (scratch.store yield.written) calls
    | .error _ => output channels scratch calls

/-- The call writes all frames that it reports. -/
def WritesReported (channels : Nat) (call : BackendCall σ) : Prop :=
  ∀ yield, B.answer call = .ok yield → yield.generated * channels ≤ yield.written.length

/-- The frames that a call reports, as it wrote them. -/
def reported (channels : Nat) (call : BackendCall σ) : List Binary32 :=
  match B.answer call with
  | .ok yield => yield.written.take (yield.generated * channels)
  | .error _ => []

variable {B}

@[simp] theorem generated_nil : B.generated [] = 0 := rfl

@[simp] theorem buffer_nil (scratch : Scratch) : B.buffer scratch [] = scratch := rfl

@[simp] theorem output_nil (channels : Nat) (scratch : Scratch) :
    B.output channels scratch [] = [] := rfl

theorem generated_append (first later : List (BackendCall σ)) :
    B.generated (first ++ later) = B.generated first + B.generated later := by
  induction first with
  | nil => simp
  | cons call calls ih =>
      simp only [List.cons_append, generated, ih]
      split <;> omega

theorem buffer_append (scratch : Scratch) (first later : List (BackendCall σ)) :
    B.buffer scratch (first ++ later) = B.buffer (B.buffer scratch first) later := by
  induction first generalizing scratch with
  | nil => rfl
  | cons call calls ih =>
      simp only [List.cons_append, buffer, ih]
      split <;> rfl

theorem output_append (channels : Nat) (scratch : Scratch) (first later : List (BackendCall σ)) :
    B.output channels scratch (first ++ later) =
      B.output channels scratch first ++ B.output channels (B.buffer scratch first) later := by
  induction first generalizing scratch with
  | nil => rfl
  | cons call calls ih =>
      simp only [List.cons_append, output, buffer, ih]
      split <;> simp

@[simp] theorem size_buffer (scratch : Scratch) (calls : List (BackendCall σ)) :
    (B.buffer scratch calls).size = scratch.size := by
  induction calls generalizing scratch with
  | nil => rfl
  | cons call calls ih =>
      simp only [buffer]
      split <;> simp [ih]

@[simp] theorem length_output (channels : Nat) (scratch : Scratch) (calls : List (BackendCall σ)) :
    (B.output channels scratch calls).length = B.generated calls * channels := by
  induction calls generalizing scratch with
  | nil => simp
  | cons call calls ih =>
      simp only [output, generated]
      split <;> simp [ih, Nat.add_mul]

/-- Where every call writes the frames that it reports, these are what the calls generate: nothing that an
earlier call left in the output buffer is handed on again. -/
theorem output_eq_reported {channels : Nat} (scratch : Scratch) {calls : List (BackendCall σ)}
    (hwritten : ∀ call ∈ calls, B.WritesReported channels call) :
    B.output channels scratch calls = calls.flatMap (B.reported channels) := by
  induction calls generalizing scratch with
  | nil => rfl
  | cons call calls ih =>
      have hlater := fun scratch => ih scratch fun call hcall =>
        hwritten call (List.mem_cons_of_mem _ hcall)
      rw [output, List.flatMap_cons, reported]
      cases hanswer : B.answer call with
      | error failure => exact hlater scratch
      | ok yield =>
          have hfront := scratch.front_store (hwritten call List.mem_cons_self yield hanswer)
          exact congr (congrArg _ hfront) (hlater _)

end RateBackend

/-- Parts of two lists in a row are a part of both: the first drops `d` units and keeps `k`, the
second drops what is left of `d`.  Either the first keeps all that it has or the second keeps
nothing. -/
theorem take_drop_append_take_drop {α : Type} {xs ys : List α} {units c d k l : Nat}
    (hlength : xs.length = units * c) (hkept : k = units - d ∨ k ≤ units - d ∧ l = 0) :
    (xs.drop (d * c)).take (k * c) ++ (ys.drop ((d - units) * c)).take (l * c) =
      ((xs ++ ys).drop (d * c)).take ((k + l) * c) := by
  have hfirst : (xs.drop (d * c)).length = (units - d) * c := by
    rw [List.length_drop, hlength, Nat.sub_mul]
  rw [List.drop_append, hlength, ← Nat.sub_mul, List.take_append, hfirst, ← Nat.sub_mul]
  rcases hkept with rfl | ⟨hle, rfl⟩
  · have hall : (xs.drop (d * c)).length ≤ (units - d + l) * c := by
      rw [hfirst]
      exact Nat.mul_le_mul_right _ (Nat.le_add_right _ _)
    rw [Nat.add_sub_cancel_left, List.take_of_length_le hfirst.le, List.take_of_length_le hall]
  · rw [Nat.add_zero, Nat.sub_eq_zero_of_le hle]

namespace Resampler

variable {R : Resampler σ} {limit : Option Nat} {s s' s'' : State σ} {out out' : List Binary32}
  {calls calls' : List (BackendCall σ)}

theorem framesKept_add (limit : Option Nat) (f m n : Nat) :
    framesKept limit f m + framesKept limit (f + framesKept limit f m) n =
      framesKept limit f (m + n) := by
  cases limit with
  | none => rfl
  | some l =>
      simp only [framesKept, Option.map_some, Option.getD_some]
      omega

/-- Either all of the first frames are kept or none of the next. -/
theorem framesKept_full_or_none (limit : Option Nat) (f m n : Nat) :
    framesKept limit f m = m ∨
      framesKept limit f m ≤ m ∧ framesKept limit (f + framesKept limit f m) n = 0 := by
  cases limit with
  | none => exact .inl rfl
  | some l =>
      simp only [framesKept, Option.map_some, Option.getD_some]
      omega

@[simp] theorem framesKept_zero (limit : Option Nat) (f : Nat) : framesKept limit f 0 = 0 :=
  Nat.le_zero.1 (framesKept_le limit f 0)

variable (R) in
/-- The calls of a run leave the counts of `s'` and hand on `out`. -/
structure Emits (limit : Option Nat) (s : State σ) (calls : List (BackendCall σ))
    (out : List Binary32) (s' : State σ) : Prop where
  scratch : s'.scratch = R.backend.buffer s.scratch calls
  delayLeft : s'.delayLeft = s.delayLeft - R.backend.generated calls
  framesOut : s'.framesOut =
    s.framesOut + framesKept limit s.framesOut (R.backend.generated calls - s.delayLeft)
  out : out = ((R.backend.output R.channels s.scratch calls).drop (s.delayLeft * R.channels)).take
    (framesKept limit s.framesOut (R.backend.generated calls - s.delayLeft) * R.channels)

theorem Emits.refl (limit : Option Nat) (s : State σ) : R.Emits limit s [] [] s where
  scratch := rfl
  delayLeft := rfl
  framesOut := by simp
  out := by simp

theorem Emits.of_runBatch {batch : Batch} {yield : Yield}
    (hanswer : R.backend.answer ⟨s.backend, batch⟩ = .ok yield) (b : σ) :
    R.Emits limit s [⟨s.backend, batch⟩] (R.handedOn s yield limit) (s.emitted b yield limit) where
  scratch := by simp [State.emitted, RateBackend.buffer, hanswer]
  delayLeft := by simp [State.emitted, RateBackend.generated, hanswer]
  framesOut := by simp [State.emitted, RateBackend.generated, hanswer]
  out := by simp [handedOn, RateBackend.output, RateBackend.generated, hanswer]

theorem Emits.trans (h : R.Emits limit s calls out s') (h' : R.Emits limit s' calls' out' s'') :
    R.Emits limit s (calls ++ calls') (out ++ out') s'' := by
  -- The second run still drops what the first has left of the delay.
  have hcount : R.backend.generated (calls ++ calls') - s.delayLeft =
      (R.backend.generated calls - s.delayLeft) +
        (R.backend.generated calls' - (s.delayLeft - R.backend.generated calls)) := by
    rw [RateBackend.generated_append]
    omega
  have hkept := framesKept_add limit s.framesOut (R.backend.generated calls - s.delayLeft)
    (R.backend.generated calls' - (s.delayLeft - R.backend.generated calls))
  constructor
  · rw [h'.scratch, h.scratch, RateBackend.buffer_append]
  · rw [h'.delayLeft, h.delayLeft, RateBackend.generated_append, Nat.sub_sub]
  · rw [h'.framesOut, h.delayLeft, h.framesOut, Nat.add_assoc, hkept, hcount]
  · rw [h'.out, h.out, h.delayLeft, h.framesOut, h.scratch, hcount, ← hkept,
      RateBackend.output_append]
    refine take_drop_append_take_drop (RateBackend.length_output ..) ?_
    exact framesKept_full_or_none ..

theorem Emits.size_scratch (h : R.Emits limit s calls out s') :
    s'.scratch.size = s.scratch.size := by
  rw [h.scratch, RateBackend.size_buffer]

theorem Emits.length_out (h : R.Emits limit s calls out s') :
    s'.framesOut * R.channels = s.framesOut * R.channels + out.length := by
  have hkept := framesKept_le limit s.framesOut (R.backend.generated calls - s.delayLeft)
  have hlength : out.length =
      framesKept limit s.framesOut (R.backend.generated calls - s.delayLeft) * R.channels := by
    rw [h.out, List.length_take, List.length_drop, RateBackend.length_output, ← Nat.sub_mul]
    exact Nat.min_eq_left (Nat.mul_le_mul_right _ hkept)
  rw [h.framesOut, hlength, Nat.add_mul]

theorem Emits.out_eq_drop (h : R.Emits none s calls out s') :
    out = (R.backend.output R.channels s.scratch calls).drop (s.delayLeft * R.channels) := by
  have hall : ((R.backend.output R.channels s.scratch calls).drop
      (s.delayLeft * R.channels)).length =
        (R.backend.generated calls - s.delayLeft) * R.channels := by
    rw [List.length_drop, RateBackend.length_output, Nat.sub_mul]
  rw [h.out]
  exact List.take_of_length_le hall.le

/-- A run without a limit and one up to `wanted` frames: together they hand on what lies beyond the
delay, up to `wanted` frames or what the first has handed on already. -/
theorem Emits.trans_wanted {wanted : Nat} (h : R.Emits none s calls out s')
    (h' : R.Emits (some wanted) s' calls' out' s'') (hfresh : s.framesOut = 0) :
    out ++ out' =
      ((R.backend.output R.channels s.scratch (calls ++ calls')).drop
        (s.delayLeft * R.channels)).take (max wanted s'.framesOut * R.channels) := by
  have hcount : R.backend.generated (calls ++ calls') =
      R.backend.generated calls + R.backend.generated calls' := RateBackend.generated_append ..
  have hframesOut : s'.framesOut = R.backend.generated calls - s.delayLeft := by
    simp [h.framesOut, hfresh, framesKept]
  have hout : out = ((R.backend.output R.channels s.scratch calls).drop
      (s.delayLeft * R.channels)).take (s'.framesOut * R.channels) := by
    rw [h.out, hframesOut]
    rfl
  -- Both sides are cut to what there is; below that the two limits agree.
  have hkept : min (s'.framesOut + framesKept (some wanted) s'.framesOut
        (R.backend.generated calls' - (s.delayLeft - R.backend.generated calls)))
      (R.backend.generated (calls ++ calls') - s.delayLeft) =
      min (max wanted s'.framesOut) (R.backend.generated (calls ++ calls') - s.delayLeft) := by
    simp only [framesKept, Option.map_some, Option.getD_some]
    omega
  rw [hout, h'.out, h.delayLeft, h.scratch,
    take_drop_append_take_drop (RateBackend.length_output ..) (.inl hframesOut),
    ← RateBackend.output_append, List.take_eq_take_iff, List.length_drop,
    RateBackend.length_output, ← Nat.sub_mul, Nat.mul_min_mul_right, hkept, Nat.mul_min_mul_right]

end Resampler

end PcmConversion
