import PcmConversion.Proofs.Rate.Emission

/-!
# The absorbing loop

What a resampler's loop over full batches does when the backend uses at least one frame of each
batch and none that it was not given (`RateBackend.Advances`):

* a run over `p ++ q` is the run over `p`, up to the point where `p` holds no further batch, and
  then a run over what `p` left followed by `q` (`Absorbs.split`);
* what is left is the end of what was pending (`Absorbs.carryover_suffix`), and too short for
  another batch (`Absorbs.settled`);
* a run whose calls succeed and keep within the output buffer succeeds (`Absorbs.exists_ok`).
-/

namespace PcmConversion

variable {σ : Type}

/-- If the call succeeds, it used at least one frame and at most the frames that were wanted. -/
def RateBackend.Advances (B : RateBackend σ) (call : BackendCall σ) : Prop :=
  ∀ yield, B.answer call = .ok yield →
    1 ≤ yield.consumed ∧ yield.consumed ≤ B.inputFramesNext call.state

/-- The call succeeds and generates at most so many frames. -/
def RateBackend.Delivers (B : RateBackend σ) (frames : Nat) (call : BackendCall σ) : Prop :=
  ∃ yield, B.answer call = .ok yield ∧ yield.generated ≤ frames

/-- The call succeeds, uses at least one frame and at most the frames that were wanted, and
generates at most so many frames. -/
def RateBackend.Progresses (B : RateBackend σ) (frames : Nat) (call : BackendCall σ) : Prop :=
  ∃ yield, B.answer call = .ok yield ∧ 1 ≤ yield.consumed ∧
    yield.consumed ≤ B.inputFramesNext call.state ∧ yield.generated ≤ frames

theorem RateBackend.Progresses.advances {B : RateBackend σ} {frames : Nat} {call : BackendCall σ}
    (h : B.Progresses frames call) : B.Advances call := by
  obtain ⟨yield, hanswer, hpos, hle, -⟩ := h
  intro yield' hanswer'
  obtain rfl : yield = yield' := Except.ok.inj (hanswer.symm.trans hanswer')
  exact ⟨hpos, hle⟩

theorem RateBackend.Progresses.delivers {B : RateBackend σ} {frames : Nat} {call : BackendCall σ}
    (h : B.Progresses frames call) : B.Delivers frames call := by
  obtain ⟨yield, hanswer, -, -, hgenerated⟩ := h
  exact ⟨yield, hanswer, hgenerated⟩

/-- A batch with as many whole frames as were wanted, and not the last of a stream. -/
structure RateBackend.Full (B : RateBackend σ) (channels : Nat) (call : BackendCall σ) : Prop where
  final : call.batch.final = false
  frames : call.batch.frames = B.inputFramesNext call.state
  samples : call.batch.samples.length = B.inputFramesNext call.state * channels
  pos : 1 ≤ B.inputFramesNext call.state

namespace Resampler

variable {R : Resampler σ} {s s' : State σ} {pending : List Binary32} {available : Nat}
  {calls : List (BackendCall σ)} {o : Outcome σ (List Binary32)}

variable (R) in
/-- Nothing is left that the backend could be given. -/
def Settled (s : State σ) : Prop :=
  R.Idle s (R.carryoverFrames s)

theorem le_of_not_idle (hready : ¬R.Idle s available) :
    R.backend.inputFramesNext s.backend ≤ available := by
  unfold Idle at hready
  omega

/-- The counts of a successful full batch that advances. -/
theorem consumed_of_advances {out : List Binary32} {consumed : Nat} (hready : ¬R.Idle s available)
    (hadvances : R.backend.Advances ⟨s.backend, R.nextBatch s pending⟩)
    (hrun : R.runBatch s (R.nextBatch s pending) none = (.ok (consumed, out), s')) :
    consumed ≠ 0 ∧ consumed ≤ R.backend.inputFramesNext s.backend ∧ consumed ≤ available := by
  obtain ⟨yield, hanswer, rfl⟩ := runBatch_eq_ok hrun
  obtain ⟨hpos, hle⟩ := hadvances yield hanswer
  have hwanted := le_of_not_idle hready
  simp only at hle
  omega

/-- The loop keeps its own list of what is pending and does not look at the carryover. -/
theorem Absorbs.withCarryover (h : R.Absorbs s pending available calls o)
    (hadvances : ∀ call ∈ calls, R.backend.Advances call) (carryover : List Binary32) :
    R.Absorbs { s with carryover } pending available calls o := by
  induction h with
  | idle hidle => exact .idle hidle
  | @failed s s' _ _ _ hready hrun =>
      exact (Absorbs.failed (s := { s with carryover }) hready
        (runBatch_carryover hrun carryover) :)
  | @stuck s s' _ _ _ hready hrun =>
      exact (Absorbs.stuck (s := { s with carryover }) hready
        (runBatch_carryover hrun carryover) :)
  | overrun hready hrun hover =>
      obtain ⟨-, -, hle⟩ := consumed_of_advances hready (hadvances _ (by simp)) hrun
      omega
  | @step s s' _ _ _ _ _ _ hready hrun hpos hle _ ih =>
      have hrest := ih fun call hcall => hadvances call (List.mem_cons_of_mem _ hcall)
      exact (Absorbs.step (s := { s with carryover }) hready
        (runBatch_carryover hrun carryover) hpos hle hrest :)

variable (R) in
/-- Whole frames left when some are dropped. -/
theorem frames_drop (pending : List Binary32) (k : Nat) :
    (pending.drop (k * R.channels)).length / R.channels = pending.length / R.channels - k := by
  rw [List.length_drop, Nat.mul_comm, Nat.sub_mul_div]

/-- What a run over `p ++ q` is made of: it fails within `p`, or it is the run over `p` and then a
run over what `p` left followed by `q`. -/
theorem Absorbs.split {p q : List Binary32}
    (h : R.Absorbs s (p ++ q) ((p ++ q).length / R.channels) calls o)
    (hadvances : ∀ call ∈ calls, R.backend.Advances call) :
    (∃ failure s', R.Absorbs s p (p.length / R.channels) calls (.error failure, s') ∧
      o = (.error failure, s')) ∨
    ∃ out s' first later o', calls = first ++ later ∧ o = prepend out o' ∧
      R.Absorbs s p (p.length / R.channels) first (.ok out, s') ∧
      R.Absorbs s' (s'.carryover ++ q) ((s'.carryover ++ q).length / R.channels) later o' := by
  -- On the whole frames of `p`: every batch that fits into `p` uses some of them.
  induction hframes : p.length / R.channels using Nat.strongRecOn generalizing s p calls o with
  | ind frames ih =>
      have hwhole : frames ≤ (p ++ q).length / R.channels := by
        rw [← hframes, List.length_append]
        exact Nat.div_le_div_right (Nat.le_add_right _ _)
      by_cases hidle : R.Idle s frames
      · -- `p` holds no further batch: the whole run is the later one.
        refine .inr ⟨[], { s with carryover := p }, [], calls, o, rfl, (prepend_nil o).symm,
          .idle hidle, ?_⟩
        exact h.withCarryover hadvances p
      have hready := hidle
      have hneeded := le_of_not_idle hready
      have hinside : R.backend.inputFramesNext s.backend * R.channels ≤ p.length :=
        (Nat.mul_le_mul_right _ (hneeded.trans hframes.ge)).trans (Nat.div_mul_le_self _ _)
      -- The next batch lies inside `p`, so it is the same with and without `q`.
      have hbatch : R.nextBatch s (p ++ q) = R.nextBatch s p := by
        simp only [nextBatch, List.take_append_of_le_length hinside]
      cases h with
      | idle hwholeIdle =>
          unfold Idle at hidle hwholeIdle
          omega
      | failed _ hrun =>
          rw [hbatch] at hrun
          rw [hbatch]
          exact .inl ⟨_, _, .failed hready hrun, rfl⟩
      | stuck hwholeReady hrun =>
          exact absurd rfl (consumed_of_advances hwholeReady (hadvances _ (by simp)) hrun).1
      | overrun hwholeReady hrun hover =>
          obtain ⟨-, -, hle⟩ := consumed_of_advances hwholeReady (hadvances _ (by simp)) hrun
          omega
      | @step _ s' _ out _ consumed calls rest hwholeReady hrun hpos hle hrest =>
          obtain ⟨-, hconsumed, -⟩ :=
            consumed_of_advances hwholeReady (hadvances _ (by simp)) hrun
          rw [hbatch] at hrun
          rw [hbatch]
          have hdropped : consumed * R.channels ≤ p.length :=
            (Nat.mul_le_mul_right _ hconsumed).trans hinside
          have hleft : (p.drop (consumed * R.channels)).length / R.channels =
              frames - consumed := by
            rw [R.frames_drop, hframes]
          rw [← R.frames_drop, List.drop_append_of_le_length hdropped] at hrest
          have hpart : consumed ≤ frames := hconsumed.trans hneeded
          have hlater : ∀ call ∈ calls, R.backend.Advances call :=
            fun call hcall => hadvances call (List.mem_cons_of_mem _ hcall)
          rcases ih (frames - consumed) (by omega) hrest hlater hleft with
            ⟨failure, s'', hfirst, rfl⟩ | ⟨out', s'', first, later, o', rfl, rfl, hfirst, hsecond⟩
          · exact .inl ⟨failure, s'', .step hready hrun hpos hpart hfirst, rfl⟩
          · refine .inr ⟨out ++ out', s'', ⟨s.backend, R.nextBatch s p⟩ :: first, later, o', rfl,
              (prepend_append ..).symm, ?_, hsecond⟩
            exact .step hready hrun hpos hpart hfirst

/-- What a run leaves of the pending samples is their end. -/
theorem Absorbs.carryover_suffix (h : R.Absorbs s pending available calls o)
    (hadvances : ∀ call ∈ calls, R.backend.Advances call) : o.2.carryover <:+ pending := by
  induction h with
  | idle => exact List.suffix_rfl
  | failed => exact List.nil_suffix
  | stuck => exact List.suffix_rfl
  | overrun hready hrun hover =>
      obtain ⟨-, -, hle⟩ := consumed_of_advances hready (hadvances _ (by simp)) hrun
      omega
  | step _ _ _ _ _ ih =>
      exact (ih fun call hcall => hadvances call (List.mem_cons_of_mem _ hcall)).trans
        (List.drop_suffix _ _)

/-- A run stops only when nothing is left that the backend could be given. -/
theorem Absorbs.settled
    (h : R.Absorbs s pending available calls o) (hframes : pending.length / R.channels = available)
    (hadvances : ∀ call ∈ calls, R.backend.Advances call) : R.Settled o.2 := by
  induction h with
  | idle hidle =>
      subst hframes
      exact hidle
  | failed =>
      -- An error drops the carryover.
      simp only [Settled, Idle, carryoverFrames, List.length_nil, Nat.zero_div]
      omega
  | stuck hready hrun =>
      exact absurd rfl (consumed_of_advances hready (hadvances _ (by simp)) hrun).1
  | overrun hready hrun hover =>
      obtain ⟨-, -, hle⟩ := consumed_of_advances hready (hadvances _ (by simp)) hrun
      omega
  | step _ _ _ _ _ ih =>
      exact ih (by rw [R.frames_drop, hframes])
        fun call hcall => hadvances call (List.mem_cons_of_mem _ hcall)

theorem size_scratch_runBatch {batch : Batch} {limit : Option Nat}
    {result : Except Failure (Nat × List Binary32)} (h : R.runBatch s batch limit = (result, s')) :
    s'.scratch.size = s.scratch.size := by
  rw [Prod.ext_iff] at h
  obtain ⟨-, rfl⟩ := h
  unfold runBatch
  rcases R.backend.process s.backend batch with ⟨result, b⟩
  cases result with
  | error failure => rfl
  | ok yield =>
      simp only [emit_eq]
      cases (s.scratch.store yield.written).read _ _ <;> rfl

theorem Absorbs.size_scratch
    (h : R.Absorbs s pending available calls o) : o.2.scratch.size = s.scratch.size := by
  induction h with
  | idle => rfl
  | failed _ hrun => exact (size_scratch_runBatch hrun :)
  | stuck _ hrun => exact (size_scratch_runBatch hrun :)
  | overrun _ hrun => exact (size_scratch_runBatch hrun :)
  | step _ hrun _ _ _ ih => exact ih.trans (size_scratch_runBatch hrun :)

theorem PushesOut.size_scratch {wanted allowance real padded : Nat} {batch : List Binary32}
    (h : R.PushesOut wanted allowance s batch real padded calls o) :
    o.2.scratch.size = s.scratch.size := by
  induction h with
  | done => rfl
  | unaffordable => rfl
  | failed _ _ hrun => exact (size_scratch_runBatch hrun :)
  | step _ _ hrun _ ih => exact ih.trans (size_scratch_runBatch hrun :)

theorem runBatch_of_delivers {batch : Batch} {frames : Nat} (limit : Option Nat)
    (hsize : s.scratch.size = frames * R.channels)
    (hdelivers : R.backend.Delivers frames ⟨s.backend, batch⟩) :
    ∃ yield, R.backend.answer ⟨s.backend, batch⟩ = .ok yield ∧
      R.runBatch s batch limit = (.ok (yield.consumed, R.handedOn s yield limit),
        s.emitted (R.backend.process s.backend batch).2 yield limit) := by
  obtain ⟨yield, hanswer, hgenerated⟩ := hdelivers
  refine ⟨yield, hanswer, runBatch_ok limit (Prod.ext hanswer rfl) ?_⟩
  rw [hsize]
  exact Nat.mul_le_mul_right _ hgenerated

/-- A batch whose call delivers does not fail. -/
theorem runBatch_ne_error {batch : Batch} {frames : Nat} {limit : Option Nat} {failure : Failure}
    (hsize : s.scratch.size = frames * R.channels)
    (hdelivers : R.backend.Delivers frames ⟨s.backend, batch⟩) :
    R.runBatch s batch limit ≠ (.error failure, s') := by
  obtain ⟨yield, -, hok⟩ := runBatch_of_delivers limit hsize hdelivers
  rw [hok]
  exact fun h => nomatch congrArg Prod.fst h

theorem Absorbs.exists_ok {frames : Nat} (h : R.Absorbs s pending available calls o)
    (hsize : s.scratch.size = frames * R.channels)
    (hadvances : ∀ call ∈ calls, R.backend.Advances call)
    (hdelivers : ∀ call ∈ calls, R.backend.Delivers frames call) :
    ∃ out s', o = (.ok out, s') := by
  induction h with
  | idle => exact ⟨_, _, rfl⟩
  | failed _ hrun =>
      exact absurd hrun (runBatch_ne_error hsize (hdelivers _ (List.mem_singleton_self _)))
  | stuck => exact ⟨_, _, rfl⟩
  | overrun hready hrun hover =>
      obtain ⟨-, -, hle⟩ := consumed_of_advances hready (hadvances _ (by simp)) hrun
      omega
  | step _ hrun _ _ _ ih =>
      obtain ⟨out, s', rfl⟩ := ih ((size_scratch_runBatch hrun :).trans hsize)
        (fun call hcall => hadvances call (List.mem_cons_of_mem _ hcall))
        (fun call hcall => hdelivers call (List.mem_cons_of_mem _ hcall))
      exact ⟨_, _, rfl⟩

/-- Whole frames come out of the loop. -/
theorem Absorbs.dvd_length (h : R.Absorbs s pending available calls o) :
    ∀ out, o.1 = .ok out → R.channels ∣ out.length := by
  induction h with
  | idle =>
      intro out hout
      obtain rfl := Except.ok.inj hout
      exact Nat.dvd_zero _
  | failed => exact fun out hout => nomatch hout
  | stuck _ hrun =>
      intro out hout
      obtain rfl := Except.ok.inj hout
      exact dvd_length_runBatch hrun
  | overrun => exact fun out hout => nomatch hout
  | @step _ _ _ out _ _ _ rest _ hrun _ _ _ ih =>
      intro all hall
      obtain ⟨result, s''⟩ := rest
      cases result with
      | error failure => cases hall
      | ok later =>
          obtain rfl := Except.ok.inj hall
          rw [List.length_append]
          exact Nat.dvd_add (dvd_length_runBatch hrun) (ih later rfl)

theorem full_nextBatch (hready : ¬R.Idle s available)
    (hframes : pending.length / R.channels = available) :
    R.backend.Full R.channels ⟨s.backend, R.nextBatch s pending⟩ := by
  have hwanted := le_of_not_idle hready
  refine ⟨rfl, rfl, ?_, ?_⟩
  · have hinside : available * R.channels ≤ pending.length :=
      hframes ▸ Nat.div_mul_le_self _ _
    exact List.length_take_of_le ((Nat.mul_le_mul_right _ hwanted).trans hinside)
  · show 1 ≤ R.backend.inputFramesNext s.backend
    unfold Idle at hready
    omega

/-- The loop hands over full batches only. -/
theorem Absorbs.full (h : R.Absorbs s pending available calls o)
    (hframes : pending.length / R.channels = available) :
    ∀ call ∈ calls, R.backend.Full R.channels call := by
  induction h with
  | idle => exact fun call hcall => absurd hcall List.not_mem_nil
  | failed hready => exact List.forall_mem_singleton.2 (full_nextBatch hready hframes)
  | stuck hready => exact List.forall_mem_singleton.2 (full_nextBatch hready hframes)
  | overrun hready => exact List.forall_mem_singleton.2 (full_nextBatch hready hframes)
  | step hready _ _ _ _ ih =>
      exact List.forall_mem_cons.2
        ⟨full_nextBatch hready hframes, ih (by rw [R.frames_drop, hframes])⟩

theorem process_dvd_length {input out : List Binary32}
    (h : R.process s input = (.ok out, s')) : R.channels ∣ out.length := by
  cases hroom : R.checkRoom s input with
  | error fault =>
      rw [process_unaffordable hroom] at h
      cases h
  | ok => exact (absorbs_process hroom).dvd_length out (congrArg Prod.fst h)

theorem process_full (s : State σ) (input : List Binary32) :
    ∀ call ∈ R.processCalls s input, R.backend.Full R.channels call := by
  cases hroom : R.checkRoom s input with
  | error fault =>
      rw [processCalls_unaffordable hroom]
      exact fun call hcall => absurd hcall List.not_mem_nil
  | ok => exact (absorbs_process hroom).full rfl

theorem feed_full (s : State σ) (inputs : List (List Binary32)) :
    ∀ call ∈ R.feedCalls s inputs, R.backend.Full R.channels call := by
  induction inputs generalizing s with
  | nil => exact fun call hcall => absurd hcall List.not_mem_nil
  | cons input inputs ih =>
      rcases hprocess : R.process s input with ⟨failure | out, s'⟩
      · rw [feedCalls_cons_error _ hprocess]
        exact R.process_full s input
      · rw [feedCalls_cons_ok _ hprocess]
        exact List.forall_mem_append.2 ⟨R.process_full s input, ih s'⟩

end Resampler

end PcmConversion
