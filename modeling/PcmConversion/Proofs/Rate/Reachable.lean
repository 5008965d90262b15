import PcmConversion.Proofs.Rate.Absorption

/-!
# Reachable states

The states of a resampler between two calls of its owner, from its construction on.  Errors do not
end a session, faults do.
-/

namespace PcmConversion.Resampler

variable {σ : Type} {R : Resampler σ}

variable (R) in
/-- The states that chunks, ends of streams and resets lead to from a resampler built over `b`,
while every call of the backend is one that `allowed` holds of. -/
inductive Reachable (allowed : BackendCall σ → Prop) (b : σ) : State σ → Prop
  | start {s : State σ} (hstart : R.start b = .ok s) : Reachable allowed b s
  | process {s : State σ} (input : List Binary32) (hs : Reachable allowed b s)
      (hcalls : ∀ call ∈ R.processCalls s input, allowed call)
      (hreturns : ∀ fault, (R.process s input).1 ≠ .error (.fault fault)) :
      Reachable allowed b (R.process s input).2
  | drain {s : State σ} (hs : Reachable allowed b s)
      (hcalls : ∀ call ∈ R.drainCalls s, allowed call)
      (hreturns : ∀ fault, (R.drain s).1 ≠ .error (.fault fault)) :
      Reachable allowed b (R.drain s).2
  | reset {s : State σ} (hs : Reachable allowed b s) : Reachable allowed b (R.reset s)

variable {allowed : BackendCall σ → Prop} {b : σ} {s : State σ}

theorem start_eq_ok (hstart : R.start b = .ok s) :
    s = {
      backend := b
      carryover := []
      scratch := ⟨R.backend.outputFramesMax b * R.channels, []⟩
      delayLeft := R.backend.outputDelay b
      framesIn := 0
      framesOut := 0 } := by
  unfold start at hstart
  cases hmemory : checkMemory (R.backend.outputFramesMax b * R.channels) with
  | error fault =>
      simp only [hmemory, bind, Except.bind] at hstart
      cases hstart
  | ok =>
      simp only [hmemory, bind, Except.bind, pure, Except.pure, Except.ok.injEq] at hstart
      exact hstart.symm

theorem start_fields (hstart : R.start b = .ok s) :
    s.backend = b ∧ s.carryover = [] ∧ s.scratch.size = R.backend.outputFramesMax b * R.channels ∧
      s.delayLeft = R.backend.outputDelay b ∧ s.framesIn = 0 ∧ s.framesOut = 0 := by
  rw [start_eq_ok hstart]
  exact ⟨rfl, rfl, rfl, rfl, rfl, rfl⟩

theorem settled_of_carryover_nil (hcarryover : s.carryover = []) : R.Settled s := by
  simp only [Settled, Idle, carryoverFrames, hcarryover, List.length_nil, Nat.zero_div]
  omega

theorem checkMemory_eq_error {n : Nat} {fault : Fault} (h : checkMemory n = .error fault) :
    fault = .outOfMemory := by
  unfold checkMemory at h
  split_ifs at h
  exact (Except.error.inj h).symm

theorem checkMemory_of_le {m n : Nat} (h : m ≤ n) (hn : checkMemory n = .ok ()) :
    checkMemory m = .ok () := by
  unfold checkMemory at hn ⊢
  split_ifs at hn with hfits
  rw [if_pos (by omega)]

/-- A chunk that does not run out of memory runs the loop. -/
theorem checkRoom_of_inMemory {input : List Binary32}
    (hmemory : (R.process s input).1 ≠ .error (.fault .outOfMemory)) :
    R.checkRoom s input = .ok () := by
  cases hroom : R.checkRoom s input with
  | error fault =>
      rw [process_unaffordable hroom, checkMemory_eq_error hroom] at hmemory
      exact absurd rfl hmemory
  | ok => rfl

/-- A chunk that ends without a fault ran the loop. -/
theorem checkRoom_of_returns {input : List Binary32}
    (hreturns : ∀ fault, (R.process s input).1 ≠ .error (.fault fault)) :
    R.checkRoom s input = .ok () :=
  checkRoom_of_inMemory (hreturns .outOfMemory)

/-- A stream that ends without a fault leaves the state of a new one. -/
theorem drain_of_returns (hreturns : ∀ fault, (R.drain s).1 ≠ .error (.fault fault)) :
    ∃ s', (R.drain s).2 = R.restart s' ∧ s'.scratch.size = s.scratch.size ∧
      R.backend.Linked s.backend (R.drainCalls s) s'.backend := by
  generalize hcalls : R.drainCalls s = calls
  generalize ho : R.drain s = o at hreturns
  have h := hcalls ▸ ho ▸ R.drains_drain s
  cases h with
  | nothing => exact ⟨s, rfl, rfl, .nil _⟩
  | unaffordable => exact absurd rfl (hreturns _)
  | @pushed _ o _ _ hpushes => exact ⟨o.2, rfl, hpushes.size_scratch, hpushes.linked⟩

/-- The output buffer keeps the size that it was built with. -/
theorem Reachable.size_scratch (hs : R.Reachable allowed b s) :
    s.scratch.size = R.backend.outputFramesMax b * R.channels := by
  induction hs with
  | start hstart => rw [start_eq_ok hstart]
  | process input _ _ hreturns ih =>
      exact (absorbs_process (checkRoom_of_returns hreturns)).size_scratch.trans ih
  | drain _ _ hreturns ih =>
      obtain ⟨s', heq, hsize, -⟩ := drain_of_returns hreturns
      rw [heq]
      exact hsize.trans ih
  | reset _ ih => exact ih

/-- Between two calls nothing is left that the backend could be given. -/
theorem Reachable.settled (hs : R.Reachable allowed b s)
    (hadvances : ∀ call, call.batch.final = false → allowed call → R.backend.Advances call) :
    R.Settled s := by
  induction hs with
  | start hstart => exact settled_of_carryover_nil (by rw [start_eq_ok hstart])
  | process input _ hcalls hreturns =>
      -- The state before does not matter: the loop runs until the backend wants more than is left.
      have habsorbs := absorbs_process (checkRoom_of_returns hreturns)
      exact habsorbs.settled rfl fun call hcall =>
        hadvances call (habsorbs.full rfl call hcall).final (hcalls call hcall)
  | drain _ _ hreturns =>
      obtain ⟨s', heq, -⟩ := drain_of_returns hreturns
      rw [heq]
      exact settled_of_carryover_nil rfl
  | reset => exact settled_of_carryover_nil rfl

end PcmConversion.Resampler
