import PcmConversion.Proofs.Rate.Absorption
import PcmConversion.Proofs.Rate.StreamLaw

/-!
# Where failures come from

A resampler fails because a call of its backend failed, or because it meets one of its own limits: a
range beyond the output buffer, a size that no memory holds, a count beyond 64 bits
(`explains_process`, `explains_drain`).  The other way round, a call that fails is the last one of
its run, which fails with it (`error_of_processCalls`, `error_of_drainCalls`).
-/

namespace PcmConversion

variable {σ : Type}

/-- A position, a size or a count beyond what there is. -/
def Fault.IsLimit (fault : Fault) : Prop :=
  fault = .outOfBounds ∨ fault.IsExhaustion

theorem Fault.IsLimit.not_refusal {fault : Fault} (h : fault.IsLimit) :
    fault.isRefusal = false := by
  rcases h with rfl | rfl | rfl <;> rfl

/-- A failure is a limit that was met, or the answer to one of the calls. -/
def RateBackend.Explains (B : RateBackend σ) (calls : List (BackendCall σ)) (failure : Failure) :
    Prop :=
  (∃ fault : Fault, failure = .fault fault ∧ fault.IsLimit) ∨
    ∃ call ∈ calls, B.answer call = .error failure

/-- The faults of the backend are its own: none of them is a refusal of this library. -/
def RateBackend.NeverRefuses (B : RateBackend σ) : Prop :=
  ∀ b batch fault, (B.process b batch).1 = .error (.fault fault) → fault.isRefusal = false

theorem RateBackend.Explains.not_refusal {B : RateBackend σ} {calls : List (BackendCall σ)}
    {fault : Fault} (h : B.Explains calls (.fault fault)) (hB : B.NeverRefuses) :
    fault.isRefusal = false := by
  rcases h with ⟨fault', hfault, hlimit⟩ | ⟨call, -, hanswer⟩
  · obtain rfl := Failure.fault.inj hfault
    exact hlimit.not_refusal
  · exact hB _ _ _ hanswer

theorem RateBackend.Explains.cons {B : RateBackend σ} {calls : List (BackendCall σ)}
    {failure : Failure} (h : B.Explains calls failure) (call : BackendCall σ) :
    B.Explains (call :: calls) failure := by
  rcases h with hlimit | ⟨other, hmem, hanswer⟩
  · exact .inl hlimit
  · exact .inr ⟨other, List.mem_cons_of_mem _ hmem, hanswer⟩

namespace Resampler

variable {R : Resampler σ} {s s' : State σ} {batch : Batch} {limit : Option Nat}
  {calls : List (BackendCall σ)} {o : Outcome σ (List Binary32)} {failure : Failure}

/-- A batch fails with its call, or because its output does not lie in the buffer. -/
theorem runBatch_eq_error (h : R.runBatch s batch limit = (.error failure, s')) :
    R.backend.answer ⟨s.backend, batch⟩ = .error failure ∨ failure = .fault .outOfBounds := by
  unfold runBatch at h
  rcases hprocess : R.backend.process s.backend batch with ⟨result, b⟩
  simp only [hprocess] at h
  cases result with
  | error failure' =>
      left
      simp only [Prod.mk.injEq, Except.error.injEq] at h
      rw [RateBackend.answer, hprocess, h.1]
  | ok yield =>
      right
      simp only [emit_eq, Scratch.read] at h
      split_ifs at h with hinside
      · simp [Except.map] at h
      · simp only [Except.map, Prod.mk.injEq, Except.error.injEq] at h
        exact h.1.symm

/-- A batch whose call fails does so too. -/
theorem eq_error_of_answer {result : Except Failure (Nat × List Binary32)}
    (h : R.runBatch s batch limit = (result, s'))
    (hanswer : R.backend.answer ⟨s.backend, batch⟩ = .error failure) : result = .error failure := by
  unfold runBatch at h
  rcases hprocess : R.backend.process s.backend batch with ⟨answer, b⟩
  rw [RateBackend.answer, hprocess] at hanswer
  simp only at hanswer
  subst hanswer
  rw [hprocess] at h
  exact (congrArg Prod.fst h).symm

theorem explains_runBatch (h : R.runBatch s batch limit = (.error failure, s')) :
    R.backend.Explains [⟨s.backend, batch⟩] failure := by
  rcases runBatch_eq_error h with hanswer | rfl
  · exact .inr ⟨_, List.mem_singleton_self _, hanswer⟩
  · exact .inl ⟨_, rfl, .inl rfl⟩

theorem prepend_eq_error {out : List Binary32} (h : (prepend out o).1 = .error failure) :
    o.1 = .error failure := by
  obtain ⟨result, s⟩ := o
  cases result with
  | error failure' => exact h
  | ok rest => cases h

/-! ## The loops -/

theorem Absorbs.explains {pending : List Binary32} {available : Nat}
    (h : R.Absorbs s pending available calls o) (herror : o.1 = .error failure) :
    R.backend.Explains calls failure := by
  induction h with
  | idle => cases herror
  | failed _ hrun =>
      obtain rfl := Except.error.inj herror
      exact explains_runBatch hrun
  | stuck => cases herror
  | overrun =>
      obtain rfl := Except.error.inj herror
      exact .inl ⟨_, rfl, .inl rfl⟩
  | step _ _ _ _ _ ih => exact (ih (prepend_eq_error herror)).cons _

theorem PushesOut.explains {wanted allowance real padded : Nat} {batch : List Binary32}
    (h : R.PushesOut wanted allowance s batch real padded calls o) (herror : o.1 = .error failure) :
    R.backend.Explains calls failure := by
  induction h with
  | done => cases herror
  | unaffordable _ hmemory =>
      obtain rfl := Except.error.inj herror
      exact .inl ⟨_, rfl, .inr (.inl (checkMemory_eq_error hmemory))⟩
  | failed _ _ hrun =>
      obtain rfl := Except.error.inj herror
      exact explains_runBatch hrun
  | step _ _ _ _ ih => exact (ih (prepend_eq_error herror)).cons _

/-- A call that fails is the last one of its loop, and the loop fails with it. -/
theorem Absorbs.error_of_answer {pending : List Binary32} {available : Nat}
    (h : R.Absorbs s pending available calls o) :
    ∀ call ∈ calls, ∀ failure, R.backend.answer call = .error failure → o.1 = .error failure := by
  induction h with
  | idle => exact fun call hcall => absurd hcall List.not_mem_nil
  | failed _ hrun =>
      refine List.forall_mem_singleton.2 fun failure hanswer => ?_
      rw [Except.error.inj (eq_error_of_answer hrun hanswer)]
  | stuck _ hrun =>
      exact List.forall_mem_singleton.2 fun _ hanswer => nomatch eq_error_of_answer hrun hanswer
  | overrun _ hrun =>
      exact List.forall_mem_singleton.2 fun _ hanswer => nomatch eq_error_of_answer hrun hanswer
  | step _ hrun _ _ _ ih =>
      refine List.forall_mem_cons.2 ⟨fun _ hanswer => ?_, fun call hcall failure hanswer => ?_⟩
      · exact nomatch eq_error_of_answer hrun hanswer
      rw [prepend, ih call hcall failure hanswer]
      rfl

theorem PushesOut.error_of_answer {wanted allowance real padded : Nat} {batch : List Binary32}
    (h : R.PushesOut wanted allowance s batch real padded calls o) :
    ∀ call ∈ calls, ∀ failure, R.backend.answer call = .error failure → o.1 = .error failure := by
  induction h with
  | done => exact fun call hcall => absurd hcall List.not_mem_nil
  | unaffordable => exact fun call hcall => absurd hcall List.not_mem_nil
  | failed _ _ hrun =>
      refine List.forall_mem_singleton.2 fun failure hanswer => ?_
      rw [Except.error.inj (eq_error_of_answer hrun hanswer)]
  | step _ _ hrun _ ih =>
      refine List.forall_mem_cons.2 ⟨fun _ hanswer => ?_, fun call hcall failure hanswer => ?_⟩
      · exact nomatch eq_error_of_answer hrun hanswer
      rw [prepend, ih call hcall failure hanswer]
      rfl

/-- Whole frames are pushed out. -/
theorem PushesOut.dvd_length {wanted allowance real padded : Nat} {batch : List Binary32}
    (h : R.PushesOut wanted allowance s batch real padded calls o) :
    ∀ out, o.1 = .ok out → R.channels ∣ out.length := by
  induction h with
  | done =>
      intro out hout
      obtain rfl := Except.ok.inj hout
      exact Nat.dvd_zero _
  | unaffordable => exact fun out hout => nomatch hout
  | failed => exact fun out hout => nomatch hout
  | @step _ _ _ out _ _ _ _ rest _ _ hrun _ ih =>
      intro all hall
      obtain ⟨result, s''⟩ := rest
      cases result with
      | error failure => cases hall
      | ok later =>
          obtain rfl := Except.ok.inj hall
          rw [List.length_append]
          exact Nat.dvd_add (dvd_length_runBatch hrun) (ih later rfl)

/-! ## Calls of the owner -/

theorem explains_process {input : List Binary32} (h : (R.process s input).1 = .error failure) :
    R.backend.Explains (R.processCalls s input) failure := by
  cases hroom : R.checkRoom s input with
  | error fault =>
      rw [process_unaffordable hroom] at h
      obtain rfl := Except.error.inj h
      exact .inl ⟨fault, rfl, .inr (.inl (checkMemory_eq_error hroom))⟩
  | ok => exact (absorbs_process hroom).explains h

theorem explains_drain (h : (R.drain s).1 = .error failure) :
    R.backend.Explains (R.drainCalls s) failure := by
  have hdrains := R.drains_drain s
  generalize R.drainCalls s = calls at hdrains ⊢
  generalize R.drain s = o at hdrains h
  cases hdrains with
  | nothing => cases h
  | unaffordable _ hroom =>
      obtain rfl := Except.error.inj h
      exact .inl ⟨_, rfl, .inr (checkDrain_eq_error hroom)⟩
  | pushed _ _ hpushes => exact hpushes.explains h

theorem error_of_processCalls {input : List Binary32} :
    ∀ call ∈ R.processCalls s input, ∀ failure, R.backend.answer call = .error failure →
      (R.process s input).1 = .error failure := by
  cases hroom : R.checkRoom s input with
  | error fault =>
      rw [processCalls_unaffordable hroom]
      exact fun call hcall => absurd hcall List.not_mem_nil
  | ok => exact (absorbs_process hroom).error_of_answer

theorem error_of_feedCalls {inputs : List (List Binary32)} :
    ∀ call ∈ R.feedCalls s inputs, ∀ failure, R.backend.answer call = .error failure →
      (feed R.process s inputs).1 = .error failure := by
  induction inputs generalizing s with
  | nil => exact fun call hcall => absurd hcall List.not_mem_nil
  | cons input inputs ih =>
      intro call hcall failure hanswer
      rw [feed_cons]
      rcases hprocess : R.process s input with ⟨failure' | out, s'⟩
      · rw [feedCalls_cons_error _ hprocess] at hcall
        have hfirst := error_of_processCalls call hcall failure hanswer
        rwa [hprocess] at hfirst
      · rw [feedCalls_cons_ok _ hprocess] at hcall
        rcases List.mem_append.1 hcall with hfirst | hlater
        · have hfailed := error_of_processCalls call hfirst failure hanswer
          rw [hprocess] at hfailed
          cases hfailed
        · rw [followedBy_ok, prepend, ih call hlater failure hanswer]
          rfl

theorem error_of_drainCalls :
    ∀ call ∈ R.drainCalls s, ∀ failure, R.backend.answer call = .error failure →
      (R.drain s).1 = .error failure := by
  have hdrains := R.drains_drain s
  generalize R.drainCalls s = calls at hdrains ⊢
  generalize R.drain s = o at hdrains ⊢
  cases hdrains with
  | nothing => exact fun call hcall => absurd hcall List.not_mem_nil
  | unaffordable => exact fun call hcall => absurd hcall List.not_mem_nil
  | pushed _ _ hpushes => exact hpushes.error_of_answer

theorem drain_dvd_length {out : List Binary32} (h : (R.drain s).1 = .ok out) :
    R.channels ∣ out.length := by
  have hdrains := R.drains_drain s
  generalize R.drainCalls s = calls at hdrains
  generalize R.drain s = o at hdrains h
  cases hdrains with
  | nothing =>
      obtain rfl := Except.ok.inj h
      exact Nat.dvd_zero _
  | unaffordable => cases h
  | pushed _ _ hpushes => exact hpushes.dvd_length out h

end Resampler

end PcmConversion
