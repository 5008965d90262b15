import PcmConversion.Proofs.Rate.Reachable
import PcmConversion.Proofs.Session

/-!
# A resampler after the end of a stream

Ending a stream or resetting a resampler restores everything but what lies in the output buffer, and
nobody reads that: a backend writes the frames that it reports, and only these are handed on.  So
`State.withWritten` (the same state over another content of the buffer) is kept by every request,
with the same answers (`serve_withWritten`), and the end of a stream leaves a new state in this
sense (`exists_renewed`).
-/

namespace PcmConversion

variable {σ : Type}

namespace RateBackend

variable {B : RateBackend σ} {b b' b'' : σ}

variable (B) in
/-- The states that batches and resets lead to from the state `b`. -/
inductive Reaches (b : σ) : σ → Prop
  | refl : Reaches b b
  | process {b' : σ} (batch : Batch) (h : Reaches b b') : Reaches b (B.process b' batch).2
  | reset {b' : σ} (h : Reaches b b') : Reaches b (B.reset b')

theorem Linked.reaches {calls : List (BackendCall σ)} (h : B.Linked b' calls b'')
    (hb : B.Reaches b b') : B.Reaches b b'' := by
  induction h with
  | nil => exact hb
  | @cons _ _ batch _ _ ih => exact ih (hb.process batch)

theorem Linked.reaches_state {calls : List (BackendCall σ)} (h : B.Linked b' calls b'')
    (hb : B.Reaches b b') : ∀ call ∈ calls, B.Reaches b call.state := by
  induction h with
  | nil => exact fun call hcall => absurd hcall List.not_mem_nil
  | @cons _ _ batch _ _ ih => exact List.forall_mem_cons.2 ⟨hb, ih (hb.process batch)⟩

/-- If the call succeeds, it writes all the frames that it reports. -/
def Writes (B : RateBackend σ) (channels : Nat) (call : BackendCall σ) : Prop :=
  ∀ yield, B.answer call = .ok yield → yield.generated * channels ≤ yield.written.length

variable (B) in
/-- A backend built in the state `b`: wherever it has got to, a reset brings that state back, and
every successful call writes the frames that it reports. -/
structure Renews (channels : Nat) (b : σ) : Prop where
  reset : ∀ b', B.Reaches b b' → B.reset b' = b
  writes : ∀ call : BackendCall σ, B.Reaches b call.state → B.Writes channels call

theorem Renews.linked {channels : Nat} {calls : List (BackendCall σ)} (h : B.Renews channels b)
    (hb : B.Reaches b b') (hlinked : B.Linked b' calls b'') :
    ∀ call ∈ calls, B.Writes channels call :=
  fun call hcall => h.writes call (hlinked.reaches_state hb call hcall)

end RateBackend

/-- What was written first is all that is read of it. -/
theorem Scratch.read_store {start count : Nat} (s t : Scratch) (xs : List Binary32)
    (hsize : s.size = t.size) (hcount : start + count ≤ xs.length) :
    (s.store xs).read start count = (t.store xs).read start count := by
  have hread : ∀ s : Scratch, ((s.store xs).written.drop start).take count =
      (xs.drop start).take count := by
    intro s
    rw [store, List.drop_append_of_le_length (by omega),
      List.take_append_of_le_length (by rw [List.length_drop]; omega)]
  simp only [read, hread, size_store, hsize]

namespace Resampler

variable {R : Resampler σ} {s s' : State σ} {calls : List (BackendCall σ)}
  {o : Outcome σ (List Binary32)}

/-- The same state over another content of the output buffer. -/
def State.withWritten (s : State σ) (written : List Binary32) : State σ :=
  { s with scratch := ⟨s.scratch.size, written⟩ }

/-! ## One batch and the loops over batches -/

theorem runBatch_withWritten {batch : Batch} {limit : Option Nat}
    {result : Except Failure (Nat × List Binary32)} (h : R.runBatch s batch limit = (result, s'))
    (hwrites : R.backend.Writes R.channels ⟨s.backend, batch⟩) (written : List Binary32) :
    ∃ written', R.runBatch (s.withWritten written) batch limit =
      (result, s'.withWritten written') := by
  unfold runBatch at h ⊢
  rcases hprocess : R.backend.process s.backend batch with ⟨answer, b⟩
  simp only [State.withWritten, hprocess] at h ⊢
  cases answer with
  | error failure =>
      simp only [Prod.mk.injEq] at h
      obtain ⟨rfl, rfl⟩ := h
      exact ⟨written, rfl⟩
  | ok yield =>
      -- Both buffers are read where the backend has just written.
      have hwritten := hwrites yield (congrArg Prod.fst hprocess)
      have hkept := framesKept_le limit s.framesOut (yield.generated - s.delayLeft)
      have hinside : min yield.generated s.delayLeft * R.channels +
          framesKept limit s.framesOut (yield.generated - s.delayLeft) * R.channels ≤
            yield.written.length := by
        rw [← Nat.add_mul]
        exact (Nat.mul_le_mul_right _ (by omega)).trans hwritten
      have hread := Scratch.read_store ⟨s.scratch.size, written⟩ s.scratch yield.written rfl hinside
      simp only [emit_eq] at h ⊢
      rw [hread]
      cases hfound : (s.scratch.store yield.written).read
          (min yield.generated s.delayLeft * R.channels)
          (framesKept limit s.framesOut (yield.generated - s.delayLeft) * R.channels) with
      | error fault =>
          simp only [hfound, Except.map, Prod.mk.injEq] at h
          obtain ⟨rfl, rfl⟩ := h
          exact ⟨_, rfl⟩
      | ok out =>
          simp only [hfound, Except.map, Prod.mk.injEq] at h
          obtain ⟨rfl, rfl⟩ := h
          exact ⟨_, rfl⟩

theorem Absorbs.withWritten {pending : List Binary32} {available : Nat}
    (h : R.Absorbs s pending available calls o)
    (hwrites : ∀ call ∈ calls, R.backend.Writes R.channels call) (written : List Binary32) :
    ∃ written', R.Absorbs (s.withWritten written) pending available calls
      (o.1, o.2.withWritten written') := by
  induction h generalizing written with
  | idle hidle => exact ⟨written, .idle hidle⟩
  | @failed s _ _ _ _ hready hrun =>
      obtain ⟨written', hrun'⟩ := runBatch_withWritten hrun (hwrites _ (by simp)) written
      exact ⟨written', (Absorbs.failed (s := s.withWritten written) hready hrun' :)⟩
  | @stuck s _ _ _ _ hready hrun =>
      obtain ⟨written', hrun'⟩ := runBatch_withWritten hrun (hwrites _ (by simp)) written
      exact ⟨written', (Absorbs.stuck (s := s.withWritten written) hready hrun' :)⟩
  | @overrun s _ _ _ _ _ hready hrun hover =>
      obtain ⟨written', hrun'⟩ := runBatch_withWritten hrun (hwrites _ (by simp)) written
      exact ⟨written', (Absorbs.overrun (s := s.withWritten written) hready hrun' hover :)⟩
  | @step s _ _ _ _ _ _ _ hready hrun hpos hle _ ih =>
      obtain ⟨written', hrun'⟩ := runBatch_withWritten hrun (hwrites _ (by simp)) written
      obtain ⟨written'', hrest⟩ :=
        ih (fun call hcall => hwrites call (List.mem_cons_of_mem _ hcall)) written'
      exact ⟨written'', (Absorbs.step (s := s.withWritten written) hready hrun' hpos hle hrest :)⟩

theorem PushesOut.withWritten {wanted allowance real padded : Nat} {batch : List Binary32}
    (h : R.PushesOut wanted allowance s batch real padded calls o)
    (hwrites : ∀ call ∈ calls, R.backend.Writes R.channels call) (written : List Binary32) :
    ∃ written', R.PushesOut wanted allowance (s.withWritten written) batch real padded calls
      (o.1, o.2.withWritten written') := by
  induction h generalizing written with
  | done hdone => exact ⟨written, .done hdone⟩
  | unaffordable hopen hmemory => exact ⟨written, .unaffordable hopen hmemory⟩
  | @failed s _ _ _ _ _ hopen hmemory hrun =>
      obtain ⟨written', hrun'⟩ := runBatch_withWritten hrun (hwrites _ (by simp)) written
      exact ⟨written', (PushesOut.failed (s := s.withWritten written) hopen hmemory hrun' :)⟩
  | @step s _ _ _ _ _ _ _ _ hopen hmemory hrun _ ih =>
      obtain ⟨written', hrun'⟩ := runBatch_withWritten hrun (hwrites _ (by simp)) written
      obtain ⟨written'', hrest⟩ :=
        ih (fun call hcall => hwrites call (List.mem_cons_of_mem _ hcall)) written'
      exact ⟨written'', (PushesOut.step (s := s.withWritten written) hopen hmemory hrun' hrest :)⟩

/-! ## Requests -/

/-- What the owner of a resampler can ask for. -/
inductive Request where
  | chunk (input : List Binary32)
  | drain
  | reset

/-- Whether the stream ends with the request. -/
def Request.EndsStream : Request → Prop
  | .chunk _ => False
  | .drain | .reset => True

variable (R) in
/-- What is answered to a request. -/
def serve (s : State σ) : Request → Outcome σ (List Binary32)
  | .chunk input => R.process s input
  | .drain => R.drain s
  | .reset => (.ok [], R.reset s)

variable (R) in
/-- What is seen of a request: its answer, and the whole frames that wait after it. -/
def observe (s : State σ) (request : Request) :
    (Except Failure (List Binary32) × Nat) × State σ :=
  let (result, s') := R.serve s request
  ((result, R.carryoverFrames s'), s')

theorem serve_eq_observe (s : State σ) (request : Request) :
    R.serve (id s) request = (R.observe s (id request)).map Prod.fst id := rfl

theorem stateAfter_observe (s : State σ) (requests : List Request) :
    stateAfter R.observe s requests = stateAfter R.serve s requests := by
  have h := stateAfter_map (serve_eq_observe (R := R)) s requests
  rw [List.map_id] at h
  exact h.symm

theorem results_serve (s : State σ) (requests : List Request) :
    results R.serve s requests = (results R.observe s requests).map Prod.fst := by
  have h := results_map (serve_eq_observe (R := R)) s requests
  rwa [List.map_id] at h

variable {b : σ}

theorem process_withWritten (hb : R.backend.Reaches b s.backend)
    (hrenews : R.backend.Renews R.channels b) (input written : List Binary32) :
    ∃ written', R.process (s.withWritten written) input =
      ((R.process s input).1, (R.process s input).2.withWritten written') := by
  cases hroom : R.checkRoom s input with
  | error fault =>
      rw [process_unaffordable hroom, process_unaffordable (s := s.withWritten written) hroom]
      exact ⟨written, rfl⟩
  | ok =>
      have habsorbs := absorbs_process hroom
      obtain ⟨written', h⟩ := habsorbs.withWritten (hrenews.linked hb habsorbs.linked) written
      exact ⟨written', (process_of_absorbs (s := s.withWritten written) hroom h).1⟩

theorem drain_withWritten (hb : R.backend.Reaches b s.backend)
    (hrenews : R.backend.Renews R.channels b) (written : List Binary32) :
    ∃ written', R.drain (s.withWritten written) =
      ((R.drain s).1, (R.drain s).2.withWritten written') := by
  by_cases hnothing : R.carryoverFrames s = 0 ∧ s.framesIn = 0
  · rw [drain_nothing hnothing, drain_nothing (s := s.withWritten written) hnothing]
    exact ⟨written, rfl⟩
  rw [drain_something hnothing, drain_something (s := s.withWritten written) hnothing,
    show R.checkDrain (s.withWritten written) = R.checkDrain s from rfl]
  cases R.checkDrain s with
  | error fault => exact ⟨written, rfl⟩
  | ok =>
      obtain ⟨calls, hpushes⟩ := R.exists_pushesOut (R.wanted s) (R.pacing.silence (R.owed s))
        { s with carryover := [] } (R.carried s) (R.carryoverFrames s) 0
      obtain ⟨written', h⟩ := hpushes.withWritten (hrenews.linked hb hpushes.linked) written
      exact ⟨written', congrArg (fun o => (o.1, R.restart o.2)) h.pushOut_eq⟩

/-- What lies in the output buffer does not matter to a request. -/
theorem serve_withWritten (hb : R.backend.Reaches b s.backend)
    (hrenews : R.backend.Renews R.channels b) (request : Request) (written : List Binary32) :
    ∃ written', R.serve (s.withWritten written) request =
      ((R.serve s request).1, (R.serve s request).2.withWritten written') := by
  cases request with
  | chunk input => exact process_withWritten hb hrenews input written
  | drain => exact drain_withWritten hb hrenews written
  | reset => exact ⟨written, rfl⟩

theorem reaches_serve (hb : R.backend.Reaches b s.backend) (request : Request) :
    R.backend.Reaches b (R.serve s request).2.backend := by
  cases request with
  | chunk input => exact (R.process_linked s input).reaches hb
  | drain =>
      have h := R.drains_drain s
      show R.backend.Reaches b (R.drain s).2.backend
      generalize R.drainCalls s = calls at h
      generalize R.drain s = o at h ⊢
      cases h with
      | nothing => exact hb.reset
      | unaffordable => exact hb
      | pushed _ _ hpushes => exact (hpushes.linked.reaches hb).reset
  | reset => exact hb.reset

theorem size_scratch_serve (s : State σ) (request : Request) :
    (R.serve s request).2.scratch.size = s.scratch.size := by
  cases request with
  | chunk input =>
      show (R.process s input).2.scratch.size = s.scratch.size
      cases hroom : R.checkRoom s input with
      | error fault => rw [process_unaffordable hroom]
      | ok => exact (absorbs_process hroom).size_scratch
  | drain =>
      have h := R.drains_drain s
      show (R.drain s).2.scratch.size = s.scratch.size
      generalize R.drainCalls s = calls at h
      generalize R.drain s = o at h ⊢
      cases h with
      | nothing => rfl
      | unaffordable => rfl
      | pushed _ _ hpushes => exact hpushes.size_scratch
  | reset => rfl

/-! ## Sessions -/

variable {s₀ : State σ}

variable (R) in
/-- What the states of a session have in common: their backend comes from `b` and their output
buffer has the size that it was built with. -/
def Served (b : σ) (s₀ s : State σ) : Prop :=
  R.backend.Reaches b s.backend ∧ s.scratch.size = s₀.scratch.size

theorem served_start (hstart : R.start b = .ok s₀) : R.Served b s₀ s₀ := by
  refine ⟨?_, rfl⟩
  rw [(start_fields hstart).1]
  exact .refl

theorem Served.serve (h : R.Served b s₀ s) (request : Request) :
    R.Served b s₀ (R.serve s request).2 :=
  ⟨reaches_serve h.1 request, (size_scratch_serve s request).trans h.2⟩

/-- A request that ends the stream leaves a new state, but for the content of the output buffer. -/
theorem exists_renewed (hstart : R.start b = .ok s₀) (hrenews : R.backend.Renews R.channels b)
    (hs : R.Served b s₀ s) {last : Request} (hends : last.EndsStream)
    (hreturns : ∀ fault, (R.serve s last).1 ≠ .error (.fault fault)) :
    ∃ written, (R.serve s last).2 = s₀.withWritten written := by
  have hrestart : ∀ s', R.backend.Reaches b s'.backend → s'.scratch.size = s₀.scratch.size →
      R.restart s' = s₀.withWritten s'.scratch.written := by
    intro s' hreaches hsize
    have hnew := start_eq_ok hstart
    subst hnew
    obtain ⟨b', carry, ⟨size, written⟩, delay, framesIn, framesOut⟩ := s'
    simp only at hsize
    subst hsize
    simp only [restart, State.withWritten, hrenews.reset _ hreaches]
  obtain ⟨hreaches, hsize⟩ := hs
  cases last with
  | chunk input => exact hends.elim
  | drain =>
      obtain ⟨s', heq, hsize', hlinked⟩ := drain_of_returns hreturns
      exact ⟨_, heq.trans (hrestart s' (hlinked.reaches hreaches) (hsize'.trans hsize))⟩
  | reset => exact ⟨_, hrestart s hreaches hsize⟩

/-- Two states that differ in the content of the output buffer are seen to answer alike. -/
theorem results_withWritten (hb : R.backend.Reaches b s.backend)
    (hrenews : R.backend.Renews R.channels b) (written : List Binary32) (requests : List Request) :
    results R.observe (s.withWritten written) requests = results R.observe s requests := by
  symm
  refine results_eq (fun s t => R.backend.Reaches b s.backend ∧
    ∃ written, t = s.withWritten written) ?_ ⟨hb, written, rfl⟩ requests
  rintro s t request ⟨hb, written, rfl⟩
  obtain ⟨written', heq⟩ := serve_withWritten hb hrenews request written
  refine ⟨?_, reaches_serve hb request, written', congrArg Prod.snd heq⟩
  simp only [observe, heq]
  rfl

theorem served_session (hstart : R.start b = .ok s₀) (history : List Request) :
    R.Served b s₀ (stateAfter R.observe s₀ history) :=
  stateAfter_invariant (fun _ request h => h.serve request) (served_start hstart) history

/-- After the end of a stream a resampler is seen to answer like a new one. -/
theorem results_after_end (hstart : R.start b = .ok s₀) (hrenews : R.backend.Renews R.channels b)
    (history later : List Request) (last : Request) (hends : last.EndsStream)
    (hreturns : ∀ fault, (R.serve (stateAfter R.observe s₀ history) last).1 ≠
      .error (.fault fault)) :
    results R.observe (stateAfter R.observe s₀ (history ++ [last])) later =
      results R.observe s₀ later := by
  have hs := served_session hstart history
  obtain ⟨written, heq⟩ := exists_renewed hstart hrenews hs hends hreturns
  rw [stateAfter_append, show stateAfter R.observe (stateAfter R.observe s₀ history) [last] =
    (R.serve (stateAfter R.observe s₀ history) last).2 from rfl, heq]
  exact results_withWritten (served_start hstart).1 hrenews written later

end Resampler

end PcmConversion
