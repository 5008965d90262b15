import PcmConversion.Proofs.Rate.Carryover
import PcmConversion.Proofs.Rate.Conservation
import PcmConversion.Proofs.Rate.Failures
import PcmConversion.Proofs.Rate.Renewal

/-!
# Staying within bounds

A resampler over a backend that keeps its bounds (`RateBackend.KeepsBounds`) and may fail on any call
never looks outside its buffers, whatever it is asked for and in which order
(`serve_in_bounds`): the batches of a chunk lie one after the other within what is pending
(`Absorbs.inRange`), the batches at the end of a stream are the frames that are left and silence, and
what is handed on lies in the output buffer.  The only faults left are sizes that are too large.
-/

namespace PcmConversion

variable {σ : Type}

namespace RateBackend

/-- A backend built in the state `b` keeps its bounds: it always promises at most as many frames as
then, a call ends in frames or in an error, makes no more frames than promised, and uses no more of
a full batch than it wanted. -/
structure KeepsBounds (B : RateBackend σ) (channels : Nat) (b : σ) : Prop where
  constant : ∀ b', B.Reaches b b' → B.outputFramesMax b' = B.outputFramesMax b
  fails : ∀ call failure, B.Reaches b call.state → B.answer call = .error failure →
    ∃ e, failure = .error e
  generated : ∀ call yield, B.Reaches b call.state → B.answer call = .ok yield →
    yield.generated ≤ B.outputFramesMax call.state
  consumed : ∀ call yield, B.Reaches b call.state → B.Full channels call →
    B.answer call = .ok yield → yield.consumed ≤ B.inputFramesNext call.state

/-- The call ends in an error, or makes at most so many frames. -/
def Moderate (B : RateBackend σ) (frames : Nat) (call : BackendCall σ) : Prop :=
  (∃ e, B.answer call = .error (.error e)) ∨ B.Delivers frames call

variable {B : RateBackend σ} {channels : Nat} {b : σ} {call : BackendCall σ}

theorem KeepsBounds.moderate (h : B.KeepsBounds channels b) (hb : B.Reaches b call.state) :
    B.Moderate (B.outputFramesMax b) call := by
  rw [Moderate, Delivers]
  cases hanswer : B.answer call with
  | error failure =>
      obtain ⟨e, rfl⟩ := h.fails call failure hb hanswer
      exact .inl ⟨e, rfl⟩
  | ok yield =>
      exact .inr ⟨yield, rfl, (h.generated call yield hb hanswer).trans_eq (h.constant _ hb)⟩

theorem KeepsBounds.used_le (h : B.KeepsBounds channels b) (hb : B.Reaches b call.state)
    (hfull : B.Full channels call) : B.used call ≤ B.inputFramesNext call.state := by
  rw [used]
  cases hanswer : B.answer call with
  | error failure => exact Nat.zero_le _
  | ok yield => exact h.consumed call yield hb hfull hanswer

end RateBackend

namespace Resampler

variable {R : Resampler σ} {s s' s₀ : State σ} {pending : List Binary32} {available frames : Nat}
  {calls : List (BackendCall σ)} {o : Outcome σ (List Binary32)} {b : σ}

/-! ## Chunks -/

variable (R) in
/-- The batch of a call is a full one and the range of `pending` that starts after `used` frames; it
ends within the whole frames and within the samples that are there. -/
structure RangeAt (pending : List Binary32) (used : Nat) (call : BackendCall σ) : Prop where
  frames : used + R.backend.inputFramesNext call.state ≤ pending.length / R.channels
  samples : (used + R.backend.inputFramesNext call.state) * R.channels ≤ pending.length
  batch : call.batch = ⟨(pending.drop (used * R.channels)).take
    (R.backend.inputFramesNext call.state * R.channels), R.backend.inputFramesNext call.state, false⟩

variable (R) in
/-- Each batch is the range after the frames that the calls before it used, and all of them together
use no more frames than there are. -/
structure InRange (pending : List Binary32) (calls : List (BackendCall σ)) : Prop where
  batches : ∀ earlier call later, calls = earlier ++ call :: later →
    R.RangeAt pending (R.backend.usedFrames earlier) call
  used_le : R.backend.usedFrames calls ≤ pending.length / R.channels

theorem rangeAt_nextBatch (hready : ¬R.Idle s (pending.length / R.channels)) :
    R.RangeAt pending 0 ⟨s.backend, R.nextBatch s pending⟩ := by
  have hwanted := le_of_not_idle hready
  refine ⟨by simpa using hwanted, ?_, by simp [nextBatch]⟩
  rw [Nat.zero_add]
  exact (Nat.mul_le_mul_right _ hwanted).trans (Nat.div_mul_le_self _ _)

theorem RangeAt.shift {used n : Nat} {call : BackendCall σ} (hn : n ≤ pending.length / R.channels)
    (h : R.RangeAt (pending.drop (n * R.channels)) used call) :
    R.RangeAt pending (n + used) call := by
  have hframes := h.frames
  rw [R.frames_drop] at hframes
  have hall : n + used + R.backend.inputFramesNext call.state ≤ pending.length / R.channels := by
    omega
  refine ⟨hall, (Nat.mul_le_mul_right _ hall).trans (Nat.div_mul_le_self _ _), ?_⟩
  rw [h.batch, List.drop_drop, Nat.add_mul]

theorem InRange.nil (pending : List Binary32) : R.InRange pending [] where
  batches _ _ _ h := by simp at h
  used_le := Nat.zero_le _

/-- After the first batch the others lie in what it left. -/
theorem InRange.cons {first : BackendCall σ} (hfirst : R.RangeAt pending 0 first)
    (hused : R.backend.used first ≤ pending.length / R.channels)
    (h : R.InRange (pending.drop (R.backend.used first * R.channels)) calls) :
    R.InRange pending (first :: calls) := by
  refine ⟨fun earlier call later hsplit => ?_, ?_⟩
  · cases earlier with
    | nil =>
        obtain ⟨rfl, -⟩ := List.cons.inj hsplit
        exact hfirst
    | cons call' earlier =>
        obtain ⟨rfl, hrest⟩ := List.cons.inj hsplit
        exact (h.batches earlier call later hrest).shift hused
  · have hrest := h.used_le
    rw [R.frames_drop] at hrest
    rw [RateBackend.usedFrames_cons]
    omega

/-- The loop hands over ranges of what is pending, one after the other. -/
theorem Absorbs.inRange (h : R.Absorbs s pending available calls o)
    (hframes : pending.length / R.channels = available)
    (hused : ∀ call ∈ calls, R.backend.used call ≤ R.backend.inputFramesNext call.state) :
    R.InRange pending calls := by
  have hsingle : ∀ {s : State σ} {pending : List Binary32},
      ¬R.Idle s (pending.length / R.channels) →
      R.backend.used ⟨s.backend, R.nextBatch s pending⟩ ≤ R.backend.inputFramesNext s.backend →
      R.InRange pending [⟨s.backend, R.nextBatch s pending⟩] := fun hready hle =>
    .cons (rangeAt_nextBatch hready) (hle.trans (le_of_not_idle hready)) (.nil _)
  induction h with
  | idle => exact .nil _
  | failed hready => exact hsingle (hframes ▸ hready) (hused _ (List.mem_singleton_self _))
  | stuck hready => exact hsingle (hframes ▸ hready) (hused _ (List.mem_singleton_self _))
  | overrun hready => exact hsingle (hframes ▸ hready) (hused _ (List.mem_singleton_self _))
  | step hready hrun _ hle _ ih =>
      have hlater := ih (by rw [R.frames_drop, hframes])
        fun call hcall => hused call (List.mem_cons_of_mem _ hcall)
      refine .cons (rangeAt_nextBatch (hframes ▸ hready)) ?_ ?_
      · rwa [used_of_runBatch hrun, hframes]
      · rwa [used_of_runBatch hrun]

/-- A batch with a moderate call ends in an error, if it fails. -/
theorem runBatch_error_of_moderate {batch : Batch} {limit : Option Nat} {failure : Failure}
    (hsize : s.scratch.size = frames * R.channels)
    (hcall : R.backend.Moderate frames ⟨s.backend, batch⟩)
    (hrun : R.runBatch s batch limit = (.error failure, s')) : ∃ e, failure = .error e := by
  rcases hcall with ⟨e, hanswer⟩ | hdelivers
  · exact ⟨e, Except.error.inj (eq_error_of_answer hrun hanswer)⟩
  · exact absurd hrun (runBatch_ne_error hsize hdelivers)

theorem Absorbs.error_of_moderate {failure : Failure} (h : R.Absorbs s pending available calls o)
    (hsize : s.scratch.size = frames * R.channels)
    (hcalls : ∀ call ∈ calls, R.backend.Moderate frames call)
    (hused : ∀ call ∈ calls, R.backend.used call ≤ R.backend.inputFramesNext call.state)
    (herror : o.1 = .error failure) : ∃ e, failure = .error e := by
  induction h with
  | idle => cases herror
  | failed _ hrun =>
      obtain rfl := Except.error.inj herror
      exact runBatch_error_of_moderate hsize (hcalls _ (List.mem_singleton_self _)) hrun
  | stuck => cases herror
  | overrun hready hrun hover =>
      -- No more is used than was wanted, and that much was there.
      have hle := hused _ (List.mem_singleton_self _)
      rw [used_of_runBatch hrun] at hle
      exact absurd (hle.trans (le_of_not_idle hready)) (not_le.2 hover)
  | step _ hrun _ _ _ ih =>
      exact ih ((size_scratch_runBatch hrun :).trans hsize)
        (fun call hcall => hcalls call (List.mem_cons_of_mem _ hcall))
        (fun call hcall => hused call (List.mem_cons_of_mem _ hcall)) (prepend_eq_error herror)

/-! ## The end of a stream -/

variable (R) in
/-- The batch of a call at the end of a stream: frames that are left, then silence up to what the
backend wants. -/
def Filled (call : BackendCall σ) : Prop :=
  call.batch.final = true ∧ call.batch.samples.length =
    max (max (R.backend.inputFramesNext call.state) call.batch.frames) 1 * R.channels

theorem PushesOut.filled {wanted allowance real padded : Nat} {batch : List Binary32}
    (h : R.PushesOut wanted allowance s batch real padded calls o)
    (hbatch : batch.length = real * R.channels) : ∀ call ∈ calls, R.Filled call := by
  induction h with
  | done => exact fun call hcall => absurd hcall List.not_mem_nil
  | unaffordable => exact fun call hcall => absurd hcall List.not_mem_nil
  | failed => exact List.forall_mem_singleton.2 ⟨rfl, length_finalBatch _ hbatch⟩
  | step _ _ _ _ ih =>
      exact List.forall_mem_cons.2 ⟨⟨rfl, length_finalBatch _ hbatch⟩, ih (by simp)⟩

variable (R) in
/-- A padded batch that does not fit into memory, in some state that is reached from `b`. -/
def ExceedsPadding (b : σ) (real : Nat) : Prop :=
  ∃ b', R.backend.Reaches b b' ∧
    checkMemory (max (max (R.backend.inputFramesNext b') real) 1 * R.channels) ≠ .ok ()

theorem PushesOut.error_of_moderate {wanted allowance real padded carry : Nat}
    {batch : List Binary32} {failure : Failure}
    (h : R.PushesOut wanted allowance s batch real padded calls o) (hreal : real ≤ carry)
    (hb : R.backend.Reaches b s.backend) (hsize : s.scratch.size = frames * R.channels)
    (hcalls : ∀ call ∈ calls, R.backend.Moderate frames call) (herror : o.1 = .error failure) :
    (∃ e, failure = .error e) ∨
      ∃ fault : Fault, failure = .fault fault ∧ fault.IsExhaustion ∧ R.ExceedsPadding b carry := by
  induction h with
  | done => cases herror
  | @unaffordable s _ real _ _ _ hmemory =>
      obtain rfl := Except.error.inj herror
      refine .inr ⟨_, rfl, .inl (checkMemory_eq_error hmemory), s.backend, hb, ?_⟩
      have hlarger : R.finalFrames s real ≤
          max (max (R.backend.inputFramesNext s.backend) carry) 1 := by
        unfold finalFrames
        omega
      refine mt (checkMemory_of_le (Nat.mul_le_mul_right _ hlarger)) ?_
      rw [hmemory]
      exact nofun
  | failed _ _ hrun =>
      obtain rfl := Except.error.inj herror
      exact .inl (runBatch_error_of_moderate hsize (hcalls _ (List.mem_singleton_self _)) hrun)
  | step _ _ hrun _ ih =>
      refine ih (Nat.zero_le _) ?_ ((size_scratch_runBatch hrun :).trans hsize)
        (fun call hcall => hcalls call (List.mem_cons_of_mem _ hcall)) (prepend_eq_error herror)
      rw [← process_of_runBatch hrun]
      exact hb.process _

/-! ## Requests -/

variable (R) in
/-- What the buffers of a request are looked at for lies inside them. -/
def StaysInRange (s : State σ) : Request → Prop
  | .chunk input => R.InRange (s.carryover ++ input) (R.processCalls s input)
  | .drain => ∀ call ∈ R.drainCalls s, R.Filled call
  | .reset => True

variable (R) in
/-- A size that a request computes is too large: that of the room for the output, of the counts
that draining starts from, or of a batch that is filled with silence. -/
def Exceeds (b : σ) (s : State σ) : Request → Prop
  | .chunk input => R.checkRoom s input ≠ .ok ()
  | .drain => R.checkDrain s ≠ .ok () ∨ R.ExceedsPadding b (R.carryoverFrames s)
  | .reset => False

/-- The calls that come from a backend that keeps its bounds. -/
theorem moderate_of_linked (hkeeps : R.backend.KeepsBounds R.channels b)
    (hb : R.backend.Reaches b s.backend) {b' : σ} (hlinked : R.backend.Linked s.backend calls b') :
    ∀ call ∈ calls, R.backend.Moderate (R.backend.outputFramesMax b) call :=
  fun call hcall => hkeeps.moderate (hlinked.reaches_state hb call hcall)

theorem used_le_processCalls (hkeeps : R.backend.KeepsBounds R.channels b)
    (hb : R.backend.Reaches b s.backend) (input : List Binary32) :
    ∀ call ∈ R.processCalls s input, R.backend.used call ≤ R.backend.inputFramesNext call.state :=
  fun call hcall => hkeeps.used_le ((R.process_linked s input).reaches_state hb call hcall)
    (R.process_full s input call hcall)

theorem inRange_process (hkeeps : R.backend.KeepsBounds R.channels b)
    (hb : R.backend.Reaches b s.backend) (input : List Binary32) :
    R.InRange (s.carryover ++ input) (R.processCalls s input) := by
  have hused := used_le_processCalls hkeeps hb input
  cases hroom : R.checkRoom s input with
  | error fault =>
      rw [processCalls_unaffordable hroom]
      exact .nil _
  | ok => exact (absorbs_process hroom).inRange rfl hused

theorem process_fault (hkeeps : R.backend.KeepsBounds R.channels b)
    (hb : R.backend.Reaches b s.backend)
    (hsize : s.scratch.size = R.backend.outputFramesMax b * R.channels) {input : List Binary32}
    {fault : Fault} (h : (R.process s input).1 = .error (.fault fault)) :
    fault.IsExhaustion ∧ R.checkRoom s input ≠ .ok () := by
  cases hroom : R.checkRoom s input with
  | error fault' =>
      rw [process_unaffordable hroom] at h
      obtain rfl := Failure.fault.inj (Except.error.inj h)
      exact ⟨.inl (checkMemory_eq_error hroom), nofun⟩
  | ok =>
      obtain ⟨e, he⟩ := (absorbs_process hroom).error_of_moderate hsize
        (moderate_of_linked hkeeps hb (R.process_linked s input))
        (used_le_processCalls hkeeps hb input) h
      cases he

theorem filled_drain (s : State σ) : ∀ call ∈ R.drainCalls s, R.Filled call := by
  have h := R.drains_drain s
  generalize R.drainCalls s = calls at h ⊢
  generalize R.drain s = o at h
  cases h with
  | nothing => exact fun call hcall => absurd hcall List.not_mem_nil
  | unaffordable => exact fun call hcall => absurd hcall List.not_mem_nil
  | pushed _ _ hpushes => exact hpushes.filled (length_carried s)

theorem drain_fault (hkeeps : R.backend.KeepsBounds R.channels b)
    (hb : R.backend.Reaches b s.backend)
    (hsize : s.scratch.size = R.backend.outputFramesMax b * R.channels) {fault : Fault}
    (h : (R.drain s).1 = .error (.fault fault)) :
    fault.IsExhaustion ∧ (R.checkDrain s ≠ .ok () ∨ R.ExceedsPadding b (R.carryoverFrames s)) := by
  have hdrains := R.drains_drain s
  generalize R.drainCalls s = calls at hdrains
  generalize R.drain s = o at hdrains h
  cases hdrains with
  | nothing => cases h
  | unaffordable _ hroom =>
      obtain rfl := Failure.fault.inj (Except.error.inj h)
      exact ⟨checkDrain_eq_error hroom, .inl (by rw [hroom]; exact nofun)⟩
  | pushed _ _ hpushes =>
      have hcalls := moderate_of_linked hkeeps hb hpushes.linked
      rcases hpushes.error_of_moderate le_rfl hb hsize hcalls h with
        ⟨e, he⟩ | ⟨fault', hfault, hexhausted, hexceeds⟩
      · cases he
      · obtain rfl := Failure.fault.inj hfault
        exact ⟨hexhausted, .inr hexceeds⟩

/-- **Nothing is read outside the buffers.**  A resampler was built over a backend that keeps its
bounds, and was asked for anything, with any errors in between.  Then the batches of the next request
are ranges of what is pending, or frames and silence, and the only faults it can end in are sizes that
are too large: never a position outside a buffer, be it among the pending samples or in the output of
the backend. -/
theorem serve_in_bounds (hstart : R.start b = .ok s₀)
    (hkeeps : R.backend.KeepsBounds R.channels b) (history : List Request) (request : Request) :
    R.StaysInRange (stateAfter R.serve s₀ history) request ∧
      ∀ fault, (R.serve (stateAfter R.serve s₀ history) request).1 = .error (.fault fault) →
        fault.IsExhaustion ∧ R.Exceeds b (stateAfter R.serve s₀ history) request := by
  obtain ⟨hb, hsize⟩ : R.Served b s₀ (stateAfter R.serve s₀ history) :=
    stateAfter_invariant (fun _ request h => h.serve request) (served_start hstart) history
  have hscratch := hsize.trans (start_fields hstart).2.2.1
  cases request with
  | chunk input => exact ⟨inRange_process hkeeps hb input, fun _ => process_fault hkeeps hb hscratch⟩
  | drain => exact ⟨filled_drain _, fun _ => drain_fault hkeeps hb hscratch⟩
  | reset => exact ⟨trivial, fun _ h => nomatch h⟩

/-- A stereo resampler whose backend wants two frames and three in turn, uses none, some or all of
them, and fails with its second and fourth call. -/
def erratic : Resampler Nat :=
  .over (Rehearsal.scripted 2
    ⟨[2, 3], [.counts 1 3, .fail "lost", .counts 0 2, .fail "again", .counts 2 1, .counts 3 3], 3, 1⟩)
    2 (.floating 44100 48000)

theorem erratic_answer (call : BackendCall Nat) :
    (∃ e, erratic.backend.answer call = .error (.error e)) ∨
      ∃ yield, erratic.backend.answer call = .ok yield ∧ yield.generated ≤ 3 ∧
        yield.consumed ≤ erratic.backend.inputFramesNext call.state := by
  obtain ⟨k, batch⟩ := call
  have hneeds : k % 2 = k % 6 % 2 := by omega
  have hreply : k % 6 = 0 ∨ k % 6 = 1 ∨ k % 6 = 2 ∨ k % 6 = 3 ∨ k % 6 = 4 ∨ k % 6 = 5 := by omega
  rcases hreply with hk | hk | hk | hk | hk | hk
  all_goals
    rw [hk] at hneeds
    simp [RateBackend.answer, erratic, Resampler.over, Rehearsal.scripted, hk, hneeds]

theorem erratic_keepsBounds : erratic.backend.KeepsBounds 2 0 where
  constant _ _ := rfl
  fails call failure _ hanswer := by
    rcases erratic_answer call with ⟨e, he⟩ | ⟨yield, hyield, -⟩
    · exact ⟨e, Except.error.inj (hanswer.symm.trans he)⟩
    · exact nomatch hanswer.symm.trans hyield
  generated call yield _ hanswer := by
    rcases erratic_answer call with ⟨e, he⟩ | ⟨yield', hyield, hgenerated, -⟩
    · exact nomatch hanswer.symm.trans he
    · obtain rfl := Except.ok.inj (hanswer.symm.trans hyield)
      exact hgenerated
  consumed call yield _ _ hanswer := by
    rcases erratic_answer call with ⟨e, he⟩ | ⟨yield', hyield, -, hconsumed⟩
    · exact nomatch hanswer.symm.trans he
    · obtain rfl := Except.ok.inj (hanswer.symm.trans hyield)
      exact hconsumed

/-- After a chunk that fails, one that gets stuck and a reset, a chunk and the end of its stream. -/
theorem serve_in_bounds_erratic :
    let s₀ : State Nat := ⟨0, [], ⟨6, []⟩, 1, 0, 0⟩
    let history := [Request.chunk (List.replicate 9 ⟨0x3f800000⟩),
      .chunk (List.replicate 7 ⟨0x3f800000⟩), .reset, .chunk (List.replicate 5 ⟨0x3f000000⟩)]
    erratic.start 0 = .ok s₀ ∧ erratic.backend.KeepsBounds 2 0 ∧
      erratic.StaysInRange (stateAfter erratic.serve s₀ history) .drain ∧
      ∀ fault, (erratic.serve (stateAfter erratic.serve s₀ history) .drain).1 =
        .error (.fault fault) → fault.IsExhaustion := by
  intro s₀ history
  have hstart : erratic.start 0 = .ok s₀ := rfl
  obtain ⟨hrange, hfaults⟩ := serve_in_bounds hstart erratic_keepsBounds history .drain
  exact ⟨hstart, erratic_keepsBounds, hrange, fun fault hfault => (hfaults fault hfault).1⟩

end Resampler

end PcmConversion
