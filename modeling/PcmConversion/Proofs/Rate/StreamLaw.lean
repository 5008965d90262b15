import PcmConversion.Proofs.Rate.Output
import PcmConversion.Proofs.Rate.Reachable
import PcmConversion.Rate.Rehearsal

/-!
# The stream law

What a resampler does with a whole stream, over a backend that uses each full batch completely
(`RateBackend.Complies`): the batches are the input, in order, and what they generate is the output
but for the delay in front and the frames beyond the length of the stream (`stream_law`).

`Fed` is the part of this that holds between any two calls, `Ended` the part of `drain`.
-/

namespace PcmConversion

variable {σ : Type}

/-- The call succeeds and generates at most so many frames; a full batch is used completely, and is
not empty. -/
def RateBackend.Complies (B : RateBackend σ) (frames : Nat) (call : BackendCall σ) : Prop :=
  ∃ yield, B.answer call = .ok yield ∧ yield.generated ≤ frames ∧
    (call.batch.final = false →
      yield.consumed = B.inputFramesNext call.state ∧ 1 ≤ yield.consumed)

theorem RateBackend.Complies.delivers {B : RateBackend σ} {frames : Nat} {call : BackendCall σ}
    (h : B.Complies frames call) : B.Delivers frames call := by
  obtain ⟨yield, hanswer, hgenerated, -⟩ := h
  exact ⟨yield, hanswer, hgenerated⟩

theorem RateBackend.Complies.advances {B : RateBackend σ} {frames : Nat} {call : BackendCall σ}
    (h : B.Complies frames call) (hfull : call.batch.final = false) : B.Advances call := by
  obtain ⟨yield, hanswer, -, hused⟩ := h
  intro yield' hanswer'
  obtain rfl : yield = yield' := Except.ok.inj (hanswer.symm.trans hanswer')
  exact ⟨(hused hfull).2, (hused hfull).1.le⟩

/-- Out of memory, or out of 64 bits for a count. -/
def Fault.IsExhaustion (fault : Fault) : Prop :=
  fault = .outOfMemory ∨ fault = .overflow

/-- The samples of the batches that a backend was handed, one after the other. -/
def handedOver (calls : List (BackendCall σ)) : List Binary32 :=
  calls.flatMap fun call => call.batch.samples

@[simp] theorem handedOver_nil : handedOver ([] : List (BackendCall σ)) = [] := rfl

@[simp] theorem handedOver_cons (call : BackendCall σ) (calls : List (BackendCall σ)) :
    handedOver (call :: calls) = call.batch.samples ++ handedOver calls := rfl

@[simp] theorem handedOver_append (first later : List (BackendCall σ)) :
    handedOver (first ++ later) = handedOver first ++ handedOver later := by
  simp [handedOver]

namespace Resampler

variable {R : Resampler σ} {s s' s'' : State σ} {frames : Nat}

theorem Emits.of_runBatch_ok {batch : Batch} {limit : Option Nat} {consumed : Nat}
    {out : List Binary32} (hsize : s.scratch.size = frames * R.channels)
    (hdelivers : R.backend.Delivers frames ⟨s.backend, batch⟩)
    (hrun : R.runBatch s batch limit = (.ok (consumed, out), s')) :
    R.Emits limit s [⟨s.backend, batch⟩] out s' ∧ s'.framesIn = s.framesIn := by
  obtain ⟨yield, hanswer, hok⟩ := runBatch_of_delivers limit hsize hdelivers
  rw [hrun] at hok
  simp only [Prod.mk.injEq, Except.ok.injEq] at hok
  obtain ⟨⟨-, rfl⟩, rfl⟩ := hok
  exact ⟨.of_runBatch hanswer _, rfl⟩

/-- What comes in plays no part in what is handed on. -/
theorem Emits.withInput {limit : Option Nat} {calls : List (BackendCall σ)} {out : List Binary32}
    (h : R.Emits limit s calls out s') (carryover carryover' : List Binary32)
    (framesIn framesIn' : Nat) :
    R.Emits limit { s with carryover, framesIn } calls out
      { s' with carryover := carryover', framesIn := framesIn' } :=
  ⟨h.scratch, h.delayLeft, h.framesOut, h.out⟩

/-! ## Chunks -/

variable (R) in
/-- What chunks with the samples `input` lead to: the calls hand over what was pending and the
input, up to the carryover, and their output is handed on without the delay. -/
structure Fed (s : State σ) (input : List Binary32) (calls : List (BackendCall σ))
    (out : List Binary32) (s' : State σ) : Prop where
  emits : R.Emits none s calls out s'
  samples : handedOver calls ++ s'.carryover = s.carryover ++ input
  frames : s'.framesIn * R.channels + s'.carryover.length =
    s.framesIn * R.channels + (s.carryover ++ input).length
  settled : R.Settled s → R.Settled s'

theorem Fed.refl (s : State σ) : R.Fed s [] [] [] s where
  emits := .refl none s
  samples := by simp
  frames := by simp
  settled := id

theorem Fed.trans {x y out out' : List Binary32} {calls calls' : List (BackendCall σ)}
    (h : R.Fed s x calls out s') (h' : R.Fed s' y calls' out' s'') :
    R.Fed s (x ++ y) (calls ++ calls') (out ++ out') s'' where
  emits := h.emits.trans h'.emits
  samples := by
    rw [handedOver_append, List.append_assoc, h'.samples, ← List.append_assoc, h.samples,
      List.append_assoc]
  frames := by
    have hfirst := h.frames
    have hlater := h'.frames
    simp only [List.length_append] at hfirst hlater ⊢
    omega
  settled := h'.settled ∘ h.settled

/-- The loop over full batches hands over what is pending, up to what it leaves. -/
theorem Absorbs.fed {pending : List Binary32} {available : Nat} {calls : List (BackendCall σ)}
    {o : Outcome σ (List Binary32)} (h : R.Absorbs s pending available calls o)
    (hframes : pending.length / R.channels = available)
    (hsize : s.scratch.size = frames * R.channels)
    (hcalls : ∀ call ∈ calls, R.backend.Complies frames call) :
    ∃ out s', o = (.ok out, s') ∧ R.Emits none s calls out s' ∧
      handedOver calls ++ s'.carryover = pending ∧
      s'.framesIn * R.channels + s'.carryover.length =
        s.framesIn * R.channels + pending.length := by
  induction h with
  | idle =>
      exact ⟨_, _, rfl, Emits.withInput (.refl none _) .., rfl, rfl⟩
  | failed _ hrun =>
      exact absurd hrun
        (runBatch_ne_error hsize (hcalls _ (List.mem_singleton_self _)).delivers)
  | stuck hready hrun =>
      exact absurd rfl (consumed_of_advances hready ((hcalls _ (by simp)).advances rfl) hrun).1
  | overrun hready hrun hover =>
      obtain ⟨-, -, hle⟩ :=
        consumed_of_advances hready ((hcalls _ (by simp)).advances rfl) hrun
      omega
  | @step s s' pending out available consumed calls rest hready hrun hpos hle _ ih =>
      have hcall := hcalls _ List.mem_cons_self
      obtain ⟨hemits, hframesIn⟩ := Emits.of_runBatch_ok hsize hcall.delivers hrun
      -- What is used is what was handed over, so nothing of it is handed over again.
      have hconsumed : consumed = R.backend.inputFramesNext s.backend := by
        obtain ⟨yield, hanswer, rfl⟩ := runBatch_eq_ok hrun
        obtain ⟨yield', hanswer', -, hused⟩ := hcall
        obtain rfl : yield = yield' := Except.ok.inj (hanswer.symm.trans hanswer')
        exact (hused rfl).1
      have hdropped : consumed * R.channels ≤ pending.length :=
        (Nat.mul_le_mul_right _ hle).trans (hframes ▸ Nat.div_mul_le_self _ _)
      obtain ⟨out', s'', rfl, hrest, hsamples, hcount⟩ := ih (by rw [R.frames_drop, hframes])
        ((size_scratch_runBatch hrun :).trans hsize)
        fun call hmem => hcalls call (List.mem_cons_of_mem _ hmem)
      refine ⟨out ++ out', s'', rfl, hemits.trans (hrest.withInput ..), ?_, ?_⟩
      · rw [handedOver_cons, List.append_assoc, hsamples, nextBatch, ← hconsumed,
          List.take_append_drop]
      · simp only [hframesIn, List.length_drop, Nat.add_mul] at hcount
        omega

theorem process_fed {input : List Binary32} (hsize : s.scratch.size = frames * R.channels)
    (hcalls : ∀ call ∈ R.processCalls s input, R.backend.Complies frames call)
    (hmemory : (R.process s input).1 ≠ .error (.fault .outOfMemory)) :
    ∃ out s', R.process s input = (.ok out, s') ∧
      R.Fed s input (R.processCalls s input) out s' := by
  have habsorbs := absorbs_process (checkRoom_of_inMemory hmemory)
  obtain ⟨out, s', heq, hemits, hsamples, hframes⟩ := habsorbs.fed rfl hsize hcalls
  refine ⟨out, s', heq, hemits, hsamples, hframes, fun _ => ?_⟩
  rw [heq] at habsorbs
  exact habsorbs.settled rfl fun call hcall =>
    (hcalls call hcall).advances (R.process_full s input call hcall).final

theorem feed_fed {inputs : List (List Binary32)} (hsize : s.scratch.size = frames * R.channels)
    (hcalls : ∀ call ∈ R.feedCalls s inputs, R.backend.Complies frames call)
    (hmemory : (feed R.process s inputs).1 ≠ .error (.fault .outOfMemory)) :
    ∃ out s', feed R.process s inputs = (.ok out, s') ∧
      R.Fed s inputs.flatten (R.feedCalls s inputs) out s' := by
  induction inputs generalizing s with
  | nil => exact ⟨[], s, rfl, .refl s⟩
  | cons input inputs ih =>
      rw [feed_cons] at hmemory ⊢
      obtain ⟨hfirst, hlater⟩ := followedBy_ne_error hmemory
      -- The calls of the first chunk are among those of the stream, whether it fails or not.
      have hsub : ∀ call ∈ R.processCalls s input, call ∈ R.feedCalls s (input :: inputs) := by
        rcases hprocess : R.process s input with ⟨failure | out, s'⟩
        · rw [feedCalls_cons_error _ hprocess]
          exact fun _ => id
        · rw [feedCalls_cons_ok _ hprocess]
          exact fun _ => List.mem_append_left _
      obtain ⟨out, s', hprocess, hfed⟩ :=
        process_fed hsize (fun call hcall => hcalls call (hsub call hcall)) hfirst
      rw [feedCalls_cons_ok _ hprocess] at hcalls ⊢
      obtain ⟨out', s'', hfeed, hfed'⟩ := ih (hfed.emits.size_scratch.trans hsize)
        (fun call hcall => hcalls call (List.mem_append_right _ hcall)) (hlater out s' hprocess)
      rw [hprocess, followedBy_ok, hfeed]
      exact ⟨out ++ out', s'', rfl, hfed.trans hfed'⟩

/-! ## The end of a stream -/

/-- The loop that pushes a stream out hands over what was left and then silence.  It fails only for
lack of memory. -/
theorem PushesOut.pushed {wanted allowance : Nat} {batch : List Binary32} {real padded : Nat}
    {calls : List (BackendCall σ)} {o : Outcome σ (List Binary32)}
    (h : R.PushesOut wanted allowance s batch real padded calls o)
    (hsize : s.scratch.size = frames * R.channels)
    (hcalls : ∀ call ∈ calls, R.backend.Delivers frames call)
    (hmemory : o.1 ≠ .error (.fault .outOfMemory)) :
    ∃ out s' padded', o = (.ok out, s') ∧ R.Emits (some wanted) s calls out s' ∧
      Drained wanted allowance s' padded' ∧
      (calls = [] ∧ padded' = padded ∨ ∃ silence, padded' = padded + silence ∧
        handedOver calls = batch ++ List.replicate (silence * R.channels) Binary32.zero) := by
  induction h with
  | done hdone => exact ⟨_, _, _, rfl, .refl _ _, hdone, .inl ⟨rfl, rfl⟩⟩
  | unaffordable _ hroom =>
      rw [checkMemory_eq_error hroom] at hmemory
      exact absurd rfl hmemory
  | failed _ _ hrun =>
      exact absurd hrun (runBatch_ne_error hsize (hcalls _ (List.mem_singleton_self _)))
  | @step s s' batch out real padded consumed calls rest _ _ hrun _ ih =>
      obtain ⟨hemits, -⟩ := Emits.of_runBatch_ok hsize (hcalls _ List.mem_cons_self) hrun
      have hrest : rest.1 ≠ .error (.fault .outOfMemory) := by
        intro hfault
        refine hmemory ?_
        rw [prepend, hfault]
        rfl
      obtain ⟨out', s'', padded', rfl, hemits', hdrained, hsamples⟩ :=
        ih ((size_scratch_runBatch hrun :).trans hsize)
          (fun call hcall => hcalls call (List.mem_cons_of_mem _ hcall)) hrest
      refine ⟨out ++ out', s'', padded', rfl, hemits.trans hemits', hdrained, .inr ?_⟩
      -- Either this batch was the last one or only silence followed it.
      rcases hsamples with ⟨rfl, rfl⟩ | ⟨silence, rfl, hsilence⟩
      · exact ⟨R.finalFrames s real - real, rfl, by simp [finalBatch]⟩
      · refine ⟨R.finalFrames s real - real + silence, by omega, ?_⟩
        rw [handedOver_cons, hsilence, finalBatch, List.nil_append, List.append_assoc,
          List.replicate_append_replicate, Nat.add_mul]

theorem checkDrain_eq_error {fault : Fault} (h : R.checkDrain s = .error fault) :
    fault.IsExhaustion := by
  unfold checkDrain checkCount at h
  split_ifs at h with hcount
  · exact .inl (checkMemory_eq_error h)
  · exact .inr (Except.error.inj h).symm

variable (R) in
/-- How draining ends a stream: the calls hand over the whole frames of the carryover and then
silence, or nothing at all; what they generate is handed on up to what is wanted; and they stop when
that much was returned or enough silence was fed. -/
structure Ended (s : State σ) (tail : List Binary32) (s' : State σ) (padded : Nat) : Prop where
  returns : R.drain s = (.ok tail, R.restart s')
  emits : R.Emits (some (R.wanted s)) s (R.drainCalls s) tail s'
  samples : R.drainCalls s = [] ∧ padded = 0 ∨ handedOver (R.drainCalls s) =
    R.carried s ++ List.replicate (padded * R.channels) Binary32.zero
  stops : (R.carryoverFrames s = 0 ∧ s.framesIn = 0 ∧ R.drainCalls s = []) ∨
    Drained (R.wanted s) (R.pacing.silence (R.owed s)) s' padded

theorem exists_ended (hsize : s.scratch.size = frames * R.channels)
    (hcalls : ∀ call ∈ R.drainCalls s, R.backend.Delivers frames call)
    (hfits : ∀ fault : Fault, fault.IsExhaustion → (R.drain s).1 ≠ .error (.fault fault)) :
    ∃ tail s' padded, R.Ended s tail s' padded := by
  have h := R.drains_drain s
  generalize hnamed : R.drainCalls s = calls at h hcalls
  generalize ho : R.drain s = o at h hfits
  cases h with
  | nothing hnothing =>
      refine ⟨[], s, 0, ho, ?_, .inl ⟨hnamed, rfl⟩, .inl ⟨hnothing.1, hnothing.2, hnamed⟩⟩
      rw [hnamed]
      exact .refl _ _
  | unaffordable _ hroom => exact absurd rfl (hfits _ (checkDrain_eq_error hroom))
  | @pushed _ o _ _ hpushes =>
      obtain ⟨tail, s', padded, rfl, hemits, hdrained, hsamples⟩ :=
        hpushes.pushed hsize hcalls (hfits _ (.inl rfl))
      refine ⟨tail, s', padded, ho, ?_, ?_, .inr hdrained⟩
      · rw [hnamed]
        exact hemits.withInput ..
      · rw [hnamed]
        simpa using hsamples

/-! ## Whole streams -/

theorem Fed.framesIn_eq {input out : List Binary32} {calls : List (BackendCall σ)}
    (h : R.Fed s input calls out s') :
    s'.framesIn * R.channels = s.framesIn * R.channels + (handedOver calls).length := by
  have hframes := h.frames
  have hsamples := congrArg List.length h.samples
  rw [List.length_append] at hsamples
  omega

theorem Fed.frames_total {input out : List Binary32} {calls : List (BackendCall σ)}
    (h : R.Fed s input calls out s') (hframesIn : s.framesIn = 0) (hcarryover : s.carryover = []) :
    s'.framesIn + R.carryoverFrames s' = input.length / R.channels := by
  have hframes := h.frames
  rw [hframesIn, hcarryover, Nat.zero_mul, Nat.zero_add, List.nil_append] at hframes
  rw [← hframes, Nat.add_comm (_ * _), Nat.add_mul_div_right _ _ R.channels_pos, carryoverFrames,
    Nat.add_comm]

/-- A stream whose calls comply is fed and drained, unless memory or counts run out. -/
theorem exists_stream {inputs : List (List Binary32)} (hsize : s.scratch.size = frames * R.channels)
    (hcalls : ∀ call ∈ R.feedCalls s inputs ++ R.drainCalls (feed R.process s inputs).2,
      R.backend.Complies frames call)
    (hfits : ∀ fault : Fault, fault.IsExhaustion →
      (feedThen R.process R.drain s inputs).1 ≠ .error (.fault fault)) :
    ∃ outs mid tail s' padded, feed R.process s inputs = (.ok outs, mid) ∧
      R.Fed s inputs.flatten (R.feedCalls s inputs) outs mid ∧ R.Ended mid tail s' padded := by
  have hparts := fun fault h => followedBy_ne_error (hfits fault h)
  obtain ⟨outs, mid, hfeed, hfed⟩ := feed_fed hsize
    (fun call hcall => hcalls call (List.mem_append_left _ hcall)) (hparts _ (.inl rfl)).1
  rw [hfeed] at hcalls
  obtain ⟨tail, s', padded, hended⟩ := exists_ended (hfed.emits.size_scratch.trans hsize)
    (fun call hcall => (hcalls call (List.mem_append_right _ hcall)).delivers)
    fun fault h => (hparts fault h).2 outs mid hfeed
  exact ⟨outs, mid, tail, s', padded, hfeed, hfed, hended⟩

/-- **The stream law.**  A new resampler is fed the `inputs`, of any lengths, and drained.  If every
call of its backend succeeds, fits the output buffer and uses each full batch completely, and
neither memory nor counts run out, then

* the full batches and the carryover are the inputs, in order, and draining hands over the whole
  frames of the carryover followed by silence, or nothing;
* what is returned is what the backend generated without the delay, and draining ends it at the
  length wanted for the whole frames of the input, unless as much had been returned before;
* what the backend generated is what it reported and wrote, call by call, if each call writes all frames
  that it reports. -/
theorem stream_law {b : σ} (hstart : R.start b = .ok s) (inputs : List (List Binary32))
    (hcalls : ∀ call ∈ R.feedCalls s inputs ++ R.drainCalls (feed R.process s inputs).2,
      R.backend.Complies (R.backend.outputFramesMax b) call)
    (hfits : ∀ fault : Fault, fault.IsExhaustion →
      (feedThen R.process R.drain s inputs).1 ≠ .error (.fault fault)) :
    ∃ outs mid tail s', feed R.process s inputs = (.ok outs, mid) ∧
      R.drain mid = (.ok tail, s') ∧
      handedOver (R.feedCalls s inputs) ++ mid.carryover = inputs.flatten ∧
      (R.drainCalls mid = [] ∨ ∃ n, handedOver (R.drainCalls mid) =
        R.carried mid ++ List.replicate n Binary32.zero) ∧
      outs = (R.backend.output R.channels s.scratch (R.feedCalls s inputs)).drop
        (R.backend.outputDelay b * R.channels) ∧
      outs ++ tail =
        ((R.backend.output R.channels s.scratch (R.feedCalls s inputs ++ R.drainCalls mid)).drop
          (R.backend.outputDelay b * R.channels)).take
            (max (R.wanted mid) (outs.length / R.channels) * R.channels) ∧
      R.wanted mid = R.pacing.target (inputs.flatten.length / R.channels) ∧
      ((∀ call ∈ R.feedCalls s inputs ++ R.drainCalls mid,
          R.backend.WritesReported R.channels call) →
        R.backend.output R.channels s.scratch (R.feedCalls s inputs ++ R.drainCalls mid) =
          (R.feedCalls s inputs ++ R.drainCalls mid).flatMap (R.backend.reported R.channels)) := by
  obtain ⟨-, hcarryover, hsize, hdelay, hframesIn, hframesOut⟩ := start_fields hstart
  obtain ⟨outs, mid, tail, s', padded, hfeed, hfed, hended⟩ := exists_stream hsize hcalls hfits
  have hreturned : outs.length / R.channels = mid.framesOut := by
    have hlength := hfed.emits.length_out
    rw [hframesOut, Nat.zero_mul, Nat.zero_add] at hlength
    rw [← hlength, Nat.mul_div_cancel _ R.channels_pos]
  refine ⟨outs, mid, tail, _, hfeed, hended.returns, ?_, ?_, ?_, ?_, ?_,
    RateBackend.output_eq_reported _⟩
  · rw [hfed.samples, hcarryover, List.nil_append]
  · rcases hended.samples with ⟨hnone, -⟩ | hsome
    · exact .inl hnone
    · exact .inr ⟨_, hsome⟩
  · rw [← hdelay]
    exact hfed.emits.out_eq_drop
  · rw [hreturned, ← hdelay]
    exact hfed.emits.trans_wanted hended.emits hframesOut
  · rw [wanted, hfed.frames_total hframesIn hcarryover]

/-- A stereo resampler from two frames to three, whose backend makes four frames and two in turn. -/
def limping : Resampler Nat :=
  .over (Rehearsal.scripted 2 ⟨[2], [.counts 2 4, .counts 2 2], 4, 3⟩) 2 (.floating 32000 48000)

theorem limping_complies (call : BackendCall Nat) : limping.backend.Complies 4 call := by
  obtain ⟨k, batch⟩ := call
  rcases Nat.mod_two_eq_zero_or_one k with hk | hk
  all_goals
    simp [RateBackend.Complies, RateBackend.answer, limping, Resampler.over, Rehearsal.scripted, hk,
      Nat.mod_one]

/-- A scripted backend writes every frame that it reports. -/
theorem scripted_writesReported (channels : Nat) (script : Rehearsal.Script)
    (call : BackendCall Nat) :
    (Rehearsal.scripted channels script).WritesReported channels call := by
  intro yield hanswer
  simp only [RateBackend.answer, Rehearsal.scripted] at hanswer
  split at hanswer
  · cases hanswer
  · cases hanswer
  · split at hanswer
    · cases hanswer
    · obtain rfl := Except.ok.inj hanswer
      simp [List.map_const']

/-- Five and a half frames in pieces that cut frames. -/
theorem stream_law_limping :
    let s : State Nat := ⟨0, [], ⟨8, []⟩, 3, 0, 0⟩
    let inputs := [List.replicate 5 ⟨0x3f800000⟩, [], List.replicate 6 ⟨0x3f000000⟩]
    ∃ outs mid tail s', feed limping.process s inputs = (.ok outs, mid) ∧
      limping.drain mid = (.ok tail, s') ∧
      handedOver (limping.feedCalls s inputs) ++ mid.carryover = inputs.flatten ∧
      outs ++ tail =
        ((limping.backend.output 2 s.scratch
          (limping.feedCalls s inputs ++ limping.drainCalls mid)).drop 6).take
            (max (limping.wanted mid) (outs.length / 2) * 2) ∧
      limping.wanted mid = (Pacing.floating 32000 48000).target 5 ∧
      limping.backend.output 2 s.scratch (limping.feedCalls s inputs ++ limping.drainCalls mid) =
        (limping.feedCalls s inputs ++ limping.drainCalls mid).flatMap
          (limping.backend.reported 2) := by
  intro s inputs
  have hstart : limping.start 0 = .ok s := rfl
  have hframes : inputs.flatten.length / limping.channels = 5 := by decide
  have hrun : (feedThen limping.process limping.drain s inputs).1.toOption.isSome = true := by
    decide +kernel
  obtain ⟨outs, mid, tail, s', hfeed, hdrain, hinput, -, -, houtput, hwanted, hreported⟩ :=
    stream_law hstart inputs (fun call _ => limping_complies call)
      fun fault _ hfault => by
        rw [hfault] at hrun
        cases hrun
  rw [hframes] at hwanted
  exact ⟨outs, mid, tail, s', hfeed, hdrain, hinput, houtput, hwanted,
    hreported fun call _ => scripted_writesReported 2 _ call⟩

end Resampler

end PcmConversion
