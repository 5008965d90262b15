import PcmConversion.Proofs.Rate.Failures
import PcmConversion.Proofs.Rate.Renewal
import PcmConversion.Rate.Standard

/-!
# What the standard backends promise

Both standard backends are regular (`StandardBackend.regular`): they fail only with faults of their
own, write the frames that they report, and no call changes what a reset leads to.  So they never
refuse anything, and a reset brings back the state that they were built in
(`StandardBackend.renews`).
-/

namespace PcmConversion

/-! ## Regular backends -/

section Regular

variable {σ : Type} {B : RateBackend σ} {channels : σ → Nat}

/-- Every call fails with a fault that is no refusal and leaves the state alone, or it succeeds,
writes the frames that it reports, and leaves a state that is reset to the same one. -/
def RateBackend.Regular (B : RateBackend σ) (channels : σ → Nat) : Prop :=
  ∀ b batch,
    (∃ fault : Fault, fault.isRefusal = false ∧
      B.process b batch = (.error (.fault fault), b)) ∨
    ∃ yield b', B.process b batch = (.ok yield, b') ∧
      yield.generated * channels b ≤ yield.written.length ∧ B.reset b' = B.reset b

namespace RateBackend.Regular

theorem neverRefuses (h : B.Regular channels) : B.NeverRefuses := by
  intro b batch fault hfault
  rcases h b batch with ⟨fault', hown, heq⟩ | ⟨_, _, heq, -⟩
  · rw [heq] at hfault
    rwa [← Failure.fault.inj (Except.error.inj hfault)]
  · rw [heq] at hfault
    cases hfault

theorem reset_process (h : B.Regular channels) (b : σ) (batch : Batch) :
    B.reset (B.process b batch).2 = B.reset b := by
  rcases h b batch with ⟨_, -, heq⟩ | ⟨_, _, heq, -, hreset⟩
  · rw [heq]
  · rw [heq]
    exact hreset

theorem writes (h : B.Regular channels) (call : BackendCall σ) :
    B.Writes (channels call.state) call := by
  intro yield hanswer
  unfold RateBackend.answer at hanswer
  rcases h call.state call.batch with ⟨_, -, heq⟩ | ⟨_, _, heq, hwritten, -⟩
  · rw [heq] at hanswer
    cases hanswer
  · rw [heq] at hanswer
    rwa [← Except.ok.inj hanswer]

/-- A state that a reset does not change is renewed wherever calls lead. -/
theorem renews (h : B.Regular channels) (hchannels : ∀ b, channels (B.reset b) = channels b) {b : σ}
    (hb : B.reset b = b) : B.Renews (channels b) b := by
  have hkept : ∀ b', B.Reaches b b' → B.reset b' = b := by
    intro b' hreaches
    induction hreaches with
    | refl => exact hb
    | process batch _ ih => exact (h.reset_process _ batch).trans ih
    | reset _ ih => exact (congrArg B.reset ih).trans hb
  refine ⟨hkept, fun call hreaches => ?_⟩
  rw [← hkept _ hreaches, hchannels]
  exact h.writes call

end RateBackend.Regular

end Regular

/-! ## The two families -/

namespace BlockTransform

variable {s : BlockTransform} {pending : List Binary32} {overlap : Array FloatArray} {fault : Fault}
  {count : Nat}

/-- Blocks fail for want of a spectrum. -/
theorem runBlocks_eq_error (h : s.runBlocks count pending overlap = .error fault) :
    fault = .undefinedSpectrum := by
  induction count generalizing pending overlap with
  | zero => cases h
  | succ count ih =>
      unfold runBlocks at h
      simp only [bind, Except.bind, pure, Except.pure, throw, throwThe, MonadExceptOf.throw] at h
      split_ifs at h with hspectrum
      · exact (Except.error.inj h).symm
      · split at h
        next fault' hrest => exact ih (hrest.trans h)
        next => cases h

/-- Each block gives its frames. -/
theorem length_runBlocks {result : List Binary32 × Array FloatArray}
    (h : s.runBlocks count pending overlap = .ok result) :
    result.1.length = count * s.blockOut * s.channels := by
  induction count generalizing pending overlap result with
  | zero =>
      rw [← Except.ok.inj h]
      simp
  | succ count ih =>
      unfold runBlocks at h
      simp only [bind, Except.bind, pure, Except.pure, throw, throwThe, MonadExceptOf.throw] at h
      split_ifs at h with hspectrum
      split at h
      next => cases h
      next rest hrest =>
          rw [← Except.ok.inj h, List.length_append, Signal.length_interleave, ih hrest,
            Nat.succ_mul, Nat.add_mul, Nat.add_comm]

/-- The samples of a batch and what is saved, of which whole blocks are converted. -/
def pendingSamples (s : BlockTransform) : Nat :=
  s.saved.length + s.chunk * s.channels

/-- Whole blocks that are there with the next batch. -/
def blocks (s : BlockTransform) : Nat :=
  s.pendingSamples / s.channels / s.blockIn

/-- A batch gives the blocks that are there and saves the rest, or it fails with a fault. -/
theorem process_cases (s : BlockTransform) (batch : Batch) :
    (∃ fault : Fault, fault.isRefusal = false ∧
      s.process batch = (.error (.fault fault), s)) ∨
    0 < s.channels ∧ ∃ written saved overlap,
      s.process batch = (.ok ⟨s.chunk, s.blocks * s.blockOut, written⟩,
        { s with saved, overlap }) ∧
      written.length = s.blocks * s.blockOut * s.channels ∧
      saved.length = s.pendingSamples - s.blocks * s.blockIn * s.channels := by
  unfold process
  by_cases hchannels : s.channels = 0
  · rw [if_pos hchannels]
    exact .inl ⟨.divisionByZero, rfl, rfl⟩
  rw [if_neg hchannels]
  simp only
  generalize haudio : batch.samples.take _ = audio
  generalize hpending : s.saved ++ audio ++ _ = pending
  -- Whatever audio the batch holds is followed by silence up to the length of a batch.
  have hlength : pending.length = s.pendingSamples := by
    have hle : audio.length ≤ s.chunk * s.channels := by
      rw [← haudio]
      refine (List.length_take_le ..).trans ?_
      split
      · exact Nat.mul_le_mul_right _ (Nat.min_le_right ..)
      · exact le_rfl
    rw [← hpending, List.length_append, List.length_append, List.length_replicate, pendingSamples]
    omega
  rw [show pending.length / s.channels / s.blockIn = s.blocks by rw [hlength]; rfl]
  cases hblocks : s.runBlocks s.blocks pending s.overlap with
  | error fault => exact .inl ⟨fault, runBlocks_eq_error hblocks ▸ rfl, rfl⟩
  | ok result =>
      refine .inr ⟨Nat.pos_of_ne_zero hchannels, _, _, _, rfl, length_runBlocks hblocks, ?_⟩
      rw [List.length_drop, hlength]

theorem regular : backend.Regular BlockTransform.channels := by
  intro s batch
  rcases s.process_cases batch with hfault | ⟨-, _, _, _, heq, hwritten, -⟩
  · exact .inl hfault
  · exact .inr ⟨_, _, heq, hwritten.ge, rfl⟩

end BlockTransform

theorem Interpolator.regular : Interpolator.backend.Regular Interpolator.channels := by
  intro s batch
  show (∃ fault : Fault, _ ∧ s.process batch = _) ∨
    ∃ yield b', s.process batch = (.ok yield, b') ∧ _
  unfold process
  by_cases hchannels : s.channels = 0
  · rw [if_pos hchannels]
    exact .inl ⟨.divisionByZero, rfl, rfl⟩
  · rw [if_neg hchannels]
    exact .inr ⟨_, _, rfl, (Signal.length_interleave ..).ge, rfl⟩

namespace StandardBackend

/-- Channels of the frames that a backend takes and makes. -/
def channels : StandardBackend → Nat
  | general s => s.channels
  | lowLatency s => s.channels

theorem process_general (s : Interpolator) (batch : Batch) :
    backend.process (general s) batch = (Interpolator.backend.process s batch).map id general := rfl

theorem process_lowLatency (s : BlockTransform) (batch : Batch) :
    backend.process (lowLatency s) batch =
      (BlockTransform.backend.process s batch).map id lowLatency := rfl

theorem regular : backend.Regular StandardBackend.channels := by
  rintro (s | s) batch
  · rw [process_general]
    rcases Interpolator.regular s batch with ⟨fault, hown, heq⟩ | ⟨_, s', heq, hwritten, hreset⟩
    · exact .inl ⟨fault, hown, by rw [heq]; rfl⟩
    · exact .inr ⟨_, general s', by rw [heq]; rfl, hwritten, congrArg general hreset⟩
  · rw [process_lowLatency]
    rcases BlockTransform.regular s batch with ⟨fault, hown, heq⟩ | ⟨_, s', heq, hwritten, hreset⟩
    · exact .inl ⟨fault, hown, by rw [heq]; rfl⟩
    · exact .inr ⟨_, lowLatency s', by rw [heq]; rfl, hwritten, congrArg lowLatency hreset⟩

variable {settings : Settings} {source target : UInt32} {channels : UInt16} {b : StandardBackend}

theorem build_eq_ok (h : build settings source target channels = .ok b) :
    backend.reset b = b ∧ b.channels = channels.toNat := by
  unfold build at h
  split at h
  · simp only [Interpolator.build, bind, Except.bind, pure, Except.pure, throw, throwThe,
      MonadExceptOf.throw, Functor.map, Except.map] at h
    split_ifs at h
    cases hmemory : checkMemory (settings.effectiveChunkFrames + 2 * settings.method.points) with
    | error fault => simp [hmemory, liftFault] at h
    | ok =>
        simp only [hmemory, liftFault, Except.ok.injEq] at h
        rw [← h]
        exact ⟨rfl, rfl⟩
  · simp only [BlockTransform.build, bind, Except.bind, pure, Except.pure, throw, throwThe,
      MonadExceptOf.throw, Functor.map, Except.map] at h
    split_ifs at h
    rw [← Except.ok.inj h]
    exact ⟨rfl, rfl⟩

/-- As it is built, a standard backend is renewed by a reset. -/
theorem renews (h : build settings source target channels = .ok b) :
    backend.Renews channels.toNat b := by
  obtain ⟨hreset, hchannels⟩ := build_eq_ok h
  rw [← hchannels]
  exact regular.renews (fun b => by cases b <;> rfl) hreset

end StandardBackend

end PcmConversion
