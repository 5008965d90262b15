import PcmConversion.Proofs.Feeding
import PcmConversion.Rate.Resampler

/-!
# The calls of a rate backend

What a resampler does is settled by the calls that it makes of its backend, so statements about runs
are statements about lists of calls.  The calls of a run are read off the recorder
`RateBackend.recorded`; replaying the recorded batches from the first state gives back the state
that each call found.

* `Absorbs` and `PushesOut` list what the two loops of a resampler can do, one constructor for each
  way through the loop body, with the calls made on the way.
* `absorbs_process` and `drains_drain` say that the runs of a resampler are derivations of these
  relations and that the calls of a derivation are the recorded ones.
-/

namespace PcmConversion

/-- A call of a backend: the state that it found and the batch that it was given. -/
structure BackendCall (σ : Type) where
  state : σ
  batch : Batch

namespace RateBackend

variable {σ : Type} (B : RateBackend σ)

/-- What a call is answered. -/
def answer (call : BackendCall σ) : Except Failure Yield :=
  (B.process call.state call.batch).1

/-- The calls among recorded events, each with the state that it found. -/
def calls : σ → List BackendEvent → List (BackendCall σ)
  | _, [] => []
  | b, .batch batch :: events => ⟨b, batch⟩ :: calls (B.process b batch).2 events
  | b, .reset :: events => calls (B.reset b) events

/-- Calls made one after the other, the first in one state and the last leaving another. -/
inductive Linked : σ → List (BackendCall σ) → σ → Prop
  | nil (b : σ) : Linked b [] b
  | cons {b b' : σ} {batch : Batch} {calls : List (BackendCall σ)}
      (hrest : Linked (B.process b batch).2 calls b') : Linked b (⟨b, batch⟩ :: calls) b'

/-- The events of calls. -/
def events (calls : List (BackendCall σ)) : List BackendEvent :=
  calls.map fun call => .batch call.batch

variable {B}

theorem Linked.append {b b' b'' : σ} {first later : List (BackendCall σ)}
    (hfirst : B.Linked b first b') (hlater : B.Linked b' later b'') :
    B.Linked b (first ++ later) b'' := by
  induction hfirst with
  | nil => exact hlater
  | cons _ ih => exact .cons (ih hlater)

/-- Replaying the events of linked calls finds these calls again. -/
theorem Linked.calls_events_append {b b' : σ} {first : List (BackendCall σ)}
    (hfirst : B.Linked b first b') (later : List BackendEvent) :
    B.calls b (events first ++ later) = first ++ B.calls b' later := by
  induction hfirst with
  | nil => rfl
  | cons _ ih =>
      simp only [events, List.map_cons, List.cons_append, calls] at ih ⊢
      rw [ih]

theorem Linked.calls_events {b b' : σ} {first : List (BackendCall σ)}
    (hfirst : B.Linked b first b') : B.calls b (events first) = first := by
  simpa [calls] using hfirst.calls_events_append []

end RateBackend

namespace Resampler

variable {σ : Type}

/-! ## Recording -/

/-- The same resampler over the recording backend. -/
def recorded (R : Resampler σ) : Resampler (σ × List BackendEvent) where
  backend := R.backend.recorded
  channels := R.channels
  pacing := R.pacing
  channels_pos := R.channels_pos

/-- A state with what was recorded so far. -/
def State.recording (s : State σ) (events : List BackendEvent) : State (σ × List BackendEvent) where
  backend := (s.backend, events)
  carryover := s.carryover
  scratch := s.scratch
  delayLeft := s.delayLeft
  framesIn := s.framesIn
  framesOut := s.framesOut

/-- An outcome with what was recorded on the way. -/
def recordedOutcome {α : Type} (o : Outcome σ α) (events : List BackendEvent) :
    Outcome (σ × List BackendEvent) α :=
  (o.1, o.2.recording events)

variable (R : Resampler σ)

/-- Of `n` frames beyond the delay, those that fit below `limit` frames in total. -/
def framesKept (limit : Option Nat) (framesOut n : Nat) : Nat :=
  (limit.map fun l => min n (l - framesOut)).getD n

theorem emit_eq (s : State σ) (generated : Nat) (limit : Option Nat) :
    R.emit s generated limit =
      (s.scratch.read (min generated s.delayLeft * R.channels)
        (framesKept limit s.framesOut (generated - s.delayLeft) * R.channels)).map fun out =>
          (out, { s with
            delayLeft := s.delayLeft - generated
            framesOut := s.framesOut +
              framesKept limit s.framesOut (generated - s.delayLeft) }) := by
  have hskip : generated - min generated s.delayLeft = generated - s.delayLeft := by omega
  have hdelay : s.delayLeft - min generated s.delayLeft = s.delayLeft - generated := by omega
  have hkeep : ((limit.map (· - s.framesOut)).map
        (min (generated - min generated s.delayLeft))).getD
          (generated - min generated s.delayLeft) =
      framesKept limit s.framesOut (generated - s.delayLeft) := by
    cases limit <;> simp [framesKept, hskip]
  unfold emit
  simp only [hkeep, hdelay]
  cases s.scratch.read _ _ <;> rfl

theorem emit_recorded (s : State σ) (events : List BackendEvent) (generated : Nat)
    (limit : Option Nat) :
    R.recorded.emit (s.recording events) generated limit =
      (R.emit s generated limit).map fun (out, s') => (out, s'.recording events) := by
  simp only [emit_eq, State.recording, recorded]
  cases s.scratch.read _ _ <;> rfl

theorem emit_backend {s s' : State σ} {generated : Nat} {limit : Option Nat} {out : List Binary32}
    (h : R.emit s generated limit = .ok (out, s')) : s'.backend = s.backend := by
  rw [emit_eq] at h
  cases hread : s.scratch.read (min generated s.delayLeft * R.channels)
      (framesKept limit s.framesOut (generated - s.delayLeft) * R.channels) with
  | error fault => simp [hread, Except.map] at h
  | ok xs =>
      simp only [hread, Except.map, Except.ok.injEq, Prod.mk.injEq] at h
      exact h.2 ▸ rfl

theorem runBatch_recorded (s : State σ) (events : List BackendEvent) (batch : Batch)
    (limit : Option Nat) :
    R.recorded.runBatch (s.recording events) batch limit =
      recordedOutcome (R.runBatch s batch limit) (events ++ [.batch batch]) := by
  rcases hprocess : R.backend.process s.backend batch with ⟨result, b⟩
  cases result with
  | error failure =>
      simp [runBatch, recorded, RateBackend.recorded, State.recording, hprocess, recordedOutcome]
  | ok yield =>
      have hemit := R.emit_recorded
        { s with backend := b, scratch := s.scratch.store yield.written }
        (events ++ [.batch batch]) yield.generated limit
      simp only [State.recording] at hemit
      simp only [runBatch, recorded, RateBackend.recorded, State.recording, hprocess] at hemit ⊢
      rw [hemit]
      cases R.emit _ yield.generated limit <;> rfl

@[simp] theorem runBatch_backend (s : State σ) (batch : Batch) (limit : Option Nat) :
    (R.runBatch s batch limit).2.backend = (R.backend.process s.backend batch).2 := by
  unfold runBatch
  rcases hprocess : R.backend.process s.backend batch with ⟨result, b⟩
  cases result with
  | error failure => rfl
  | ok yield =>
      simp only
      split
      next => rfl
      next out s' hemit => exact R.emit_backend hemit

section Batches

variable {R} {s s' : State σ} {batch : Batch} {limit : Option Nat}
  {result : Except Failure (Nat × List Binary32)}

theorem process_of_runBatch (hrun : R.runBatch s batch limit = (result, s')) :
    (R.backend.process s.backend batch).2 = s'.backend := by
  rw [← R.runBatch_backend s batch limit, hrun]

theorem recorded_of_runBatch (hrun : R.runBatch s batch limit = (result, s'))
    (events : List BackendEvent) :
    R.recorded.runBatch (s.recording events) batch limit =
      (result, s'.recording (events ++ [.batch batch])) := by
  rw [runBatch_recorded, hrun]
  rfl

end Batches

/-! ## The two loops as relations -/

/-- The full batch that `absorb` hands over next. -/
def nextBatch (s : State σ) (pending : List Binary32) : Batch where
  samples := pending.take (R.backend.inputFramesNext s.backend * R.channels)
  frames := R.backend.inputFramesNext s.backend
  final := false

/-- The backend wants nothing, or more than is there. -/
def Idle (s : State σ) (available : Nat) : Prop :=
  R.backend.inputFramesNext s.backend = 0 ∨ available < R.backend.inputFramesNext s.backend

section Equations

variable {R} {s s' : State σ} {pending out : List Binary32} {available consumed : Nat}

theorem absorb_idle (hidle : R.Idle s available) :
    R.absorb s pending available = (.ok [], { s with carryover := pending }) := by
  unfold absorb
  exact dif_pos hidle

theorem absorb_ready (hready : ¬R.Idle s available) :
    R.absorb s pending available =
      match R.runBatch s (R.nextBatch s pending) none with
      | (.error failure, s') => (.error failure, { s' with carryover := [] })
      | (.ok (consumed, out), s') =>
        if consumed = 0 then (.ok out, { s' with carryover := pending })
        else if available < consumed then (.error (.fault .outOfBounds), s')
        else prepend out (R.absorb { s' with framesIn := s'.framesIn + consumed }
          (pending.drop (consumed * R.channels)) (available - consumed)) := by
  rw [absorb]
  exact dif_neg hready

theorem absorb_failed {failure : Failure} (hready : ¬R.Idle s available)
    (hrun : R.runBatch s (R.nextBatch s pending) none = (.error failure, s')) :
    R.absorb s pending available = (.error failure, { s' with carryover := [] }) := by
  rw [absorb_ready hready, hrun]

theorem absorb_stuck (hready : ¬R.Idle s available)
    (hrun : R.runBatch s (R.nextBatch s pending) none = (.ok (0, out), s')) :
    R.absorb s pending available = (.ok out, { s' with carryover := pending }) := by
  rw [absorb_ready hready, hrun]
  rfl

theorem absorb_overrun (hready : ¬R.Idle s available)
    (hrun : R.runBatch s (R.nextBatch s pending) none = (.ok (consumed, out), s'))
    (hover : available < consumed) :
    R.absorb s pending available = (.error (.fault .outOfBounds), s') := by
  rw [absorb_ready hready, hrun]
  simp only [hover, if_true, show consumed ≠ 0 by omega, if_false]

theorem absorb_step (hready : ¬R.Idle s available)
    (hrun : R.runBatch s (R.nextBatch s pending) none = (.ok (consumed, out), s'))
    (hpos : consumed ≠ 0) (hle : consumed ≤ available) :
    R.absorb s pending available =
      prepend out (R.absorb { s' with framesIn := s'.framesIn + consumed }
        (pending.drop (consumed * R.channels)) (available - consumed)) := by
  rw [absorb_ready hready, hrun]
  simp only [hpos, if_false, show ¬available < consumed by omega]

end Equations

/-- The runs of `absorb`, with the calls that they make. -/
inductive Absorbs : State σ → List Binary32 → Nat → List (BackendCall σ) →
    Outcome σ (List Binary32) → Prop
  | idle {s : State σ} {pending : List Binary32} {available : Nat} (hidle : R.Idle s available) :
      Absorbs s pending available [] (.ok [], { s with carryover := pending })
  | failed {s s' : State σ} {pending : List Binary32} {available : Nat} {failure : Failure}
      (hready : ¬R.Idle s available)
      (hrun : R.runBatch s (R.nextBatch s pending) none = (.error failure, s')) :
      Absorbs s pending available [⟨s.backend, R.nextBatch s pending⟩]
        (.error failure, { s' with carryover := [] })
  | stuck {s s' : State σ} {pending out : List Binary32} {available : Nat}
      (hready : ¬R.Idle s available)
      (hrun : R.runBatch s (R.nextBatch s pending) none = (.ok (0, out), s')) :
      Absorbs s pending available [⟨s.backend, R.nextBatch s pending⟩]
        (.ok out, { s' with carryover := pending })
  | overrun {s s' : State σ} {pending out : List Binary32} {available consumed : Nat}
      (hready : ¬R.Idle s available)
      (hrun : R.runBatch s (R.nextBatch s pending) none = (.ok (consumed, out), s'))
      (hover : available < consumed) :
      Absorbs s pending available [⟨s.backend, R.nextBatch s pending⟩]
        (.error (.fault .outOfBounds), s')
  | step {s s' : State σ} {pending out : List Binary32} {available consumed : Nat}
      {calls : List (BackendCall σ)} {rest : Outcome σ (List Binary32)}
      (hready : ¬R.Idle s available)
      (hrun : R.runBatch s (R.nextBatch s pending) none = (.ok (consumed, out), s'))
      (hpos : consumed ≠ 0) (hle : consumed ≤ available)
      (hrest : Absorbs { s' with framesIn := s'.framesIn + consumed }
        (pending.drop (consumed * R.channels)) (available - consumed) calls rest) :
      Absorbs s pending available (⟨s.backend, R.nextBatch s pending⟩ :: calls) (prepend out rest)

/-- The frames of the batch that `pushOut` hands over when `real` frames are left. -/
def finalFrames (s : State σ) (real : Nat) : Nat :=
  max (max (R.backend.inputFramesNext s.backend) real) 1

/-- The batch that `pushOut` hands over next: what is left, and silence. -/
def finalBatch (s : State σ) (batch : List Binary32) (real : Nat) : Batch where
  samples := batch ++
    List.replicate ((R.finalFrames s real - real) * R.channels) Binary32.zero
  frames := real
  final := true

/-- Enough frames were returned, or enough silence was fed. -/
def Drained (wanted allowance : Nat) (s : State σ) (padded : Nat) : Prop :=
  wanted ≤ s.framesOut ∨ allowance < padded

section Equations

variable {R} {wanted allowance : Nat} {s s' : State σ} {batch out : List Binary32}
  {real padded consumed : Nat}

theorem pushOut_done (hdone : Drained wanted allowance s padded) :
    R.pushOut wanted allowance s batch real padded = (.ok [], s) := by
  unfold pushOut
  exact dif_pos hdone

theorem pushOut_open (hopen : ¬Drained wanted allowance s padded) :
    R.pushOut wanted allowance s batch real padded =
      match checkMemory (R.finalFrames s real * R.channels) with
      | .error fault => (.error (.fault fault), s)
      | .ok () =>
        match R.runBatch s (R.finalBatch s batch real) (some wanted) with
        | (.error failure, s') => (.error failure, s')
        | (.ok (_, out), s') =>
          prepend out (R.pushOut wanted allowance s' [] 0
            (padded + (R.finalFrames s real - real))) := by
  rw [pushOut]
  exact dif_neg hopen

theorem pushOut_unaffordable {fault : Fault} (hopen : ¬Drained wanted allowance s padded)
    (hmemory : checkMemory (R.finalFrames s real * R.channels) = .error fault) :
    R.pushOut wanted allowance s batch real padded = (.error (.fault fault), s) := by
  rw [pushOut_open hopen, hmemory]

theorem pushOut_failed {failure : Failure} (hopen : ¬Drained wanted allowance s padded)
    (hmemory : checkMemory (R.finalFrames s real * R.channels) = .ok ())
    (hrun : R.runBatch s (R.finalBatch s batch real) (some wanted) = (.error failure, s')) :
    R.pushOut wanted allowance s batch real padded = (.error failure, s') := by
  rw [pushOut_open hopen, hmemory, hrun]

theorem pushOut_step (hopen : ¬Drained wanted allowance s padded)
    (hmemory : checkMemory (R.finalFrames s real * R.channels) = .ok ())
    (hrun : R.runBatch s (R.finalBatch s batch real) (some wanted) =
      (.ok (consumed, out), s')) :
    R.pushOut wanted allowance s batch real padded =
      prepend out (R.pushOut wanted allowance s' [] 0
        (padded + (R.finalFrames s real - real))) := by
  rw [pushOut_open hopen, hmemory, hrun]

end Equations

/-- The runs of `pushOut`, with the calls that they make. -/
inductive PushesOut (wanted allowance : Nat) : State σ → List Binary32 → Nat → Nat →
    List (BackendCall σ) → Outcome σ (List Binary32) → Prop
  | done {s : State σ} {batch : List Binary32} {real padded : Nat}
      (hdone : Drained wanted allowance s padded) :
      PushesOut wanted allowance s batch real padded [] (.ok [], s)
  | unaffordable {s : State σ} {batch : List Binary32} {real padded : Nat} {fault : Fault}
      (hopen : ¬Drained wanted allowance s padded)
      (hmemory : checkMemory (R.finalFrames s real * R.channels) = .error fault) :
      PushesOut wanted allowance s batch real padded [] (.error (.fault fault), s)
  | failed {s s' : State σ} {batch : List Binary32} {real padded : Nat} {failure : Failure}
      (hopen : ¬Drained wanted allowance s padded)
      (hmemory : checkMemory (R.finalFrames s real * R.channels) = .ok ())
      (hrun : R.runBatch s (R.finalBatch s batch real) (some wanted) = (.error failure, s')) :
      PushesOut wanted allowance s batch real padded [⟨s.backend, R.finalBatch s batch real⟩]
        (.error failure, s')
  | step {s s' : State σ} {batch out : List Binary32} {real padded consumed : Nat}
      {calls : List (BackendCall σ)} {rest : Outcome σ (List Binary32)}
      (hopen : ¬Drained wanted allowance s padded)
      (hmemory : checkMemory (R.finalFrames s real * R.channels) = .ok ())
      (hrun : R.runBatch s (R.finalBatch s batch real) (some wanted) = (.ok (consumed, out), s'))
      (hrest : PushesOut wanted allowance s' [] 0 (padded + (R.finalFrames s real - real))
        calls rest) :
      PushesOut wanted allowance s batch real padded
        (⟨s.backend, R.finalBatch s batch real⟩ :: calls) (prepend out rest)

variable {R}

theorem exists_absorbs (s : State σ) (pending : List Binary32) (available : Nat) :
    ∃ calls, R.Absorbs s pending available calls (R.absorb s pending available) := by
  -- The measure of `absorb` itself: whole frames that are still there.
  induction available using Nat.strongRecOn generalizing s pending with
  | ind available ih =>
      by_cases hidle : R.Idle s available
      · rw [absorb_idle hidle]
        exact ⟨_, .idle hidle⟩
      rcases hrun : R.runBatch s (R.nextBatch s pending) none with ⟨result, s'⟩
      cases result with
      | error failure =>
          rw [absorb_failed hidle hrun]
          exact ⟨_, .failed hidle hrun⟩
      | ok yield =>
          obtain ⟨consumed, out⟩ := yield
          by_cases hzero : consumed = 0
          · subst hzero
            rw [absorb_stuck hidle hrun]
            exact ⟨_, .stuck hidle hrun⟩
          by_cases hover : available < consumed
          · rw [absorb_overrun hidle hrun hover]
            exact ⟨_, .overrun hidle hrun hover⟩
          have hle : consumed ≤ available := by omega
          rw [absorb_step hidle hrun hzero hle]
          obtain ⟨calls, hrest⟩ := ih (available - consumed) (by omega)
            { s' with framesIn := s'.framesIn + consumed } (pending.drop (consumed * R.channels))
          exact ⟨_, .step hidle hrun hzero hle hrest⟩

theorem Absorbs.absorb_eq {s : State σ} {pending : List Binary32} {available : Nat}
    {calls : List (BackendCall σ)} {o : Outcome σ (List Binary32)}
    (h : R.Absorbs s pending available calls o) : R.absorb s pending available = o := by
  induction h with
  | idle hidle => exact absorb_idle hidle
  | failed hready hrun => exact absorb_failed hready hrun
  | stuck hready hrun => exact absorb_stuck hready hrun
  | overrun hready hrun hover => exact absorb_overrun hready hrun hover
  | step hready hrun hpos hle _ ih => rw [absorb_step hready hrun hpos hle, ih]

theorem exists_pushesOut (wanted allowance : Nat) (s : State σ) (batch : List Binary32)
    (real padded : Nat) :
    ∃ calls, R.PushesOut wanted allowance s batch real padded calls
      (R.pushOut wanted allowance s batch real padded) := by
  -- The measure of `pushOut` itself: silence still to be fed, plus what is left of the stream.
  induction hmeasure : allowance + 1 - padded + real using Nat.strongRecOn
      generalizing s batch real padded with
  | ind measure ih =>
      by_cases hdone : Drained wanted allowance s padded
      · rw [pushOut_done hdone]
        exact ⟨_, .done hdone⟩
      cases hmemory : checkMemory (R.finalFrames s real * R.channels) with
      | error fault =>
          rw [pushOut_unaffordable hdone hmemory]
          exact ⟨_, .unaffordable hdone hmemory⟩
      | ok =>
          rcases hrun : R.runBatch s (R.finalBatch s batch real) (some wanted) with ⟨result, s'⟩
          cases result with
          | error failure =>
              rw [pushOut_failed hdone hmemory hrun]
              exact ⟨_, .failed hdone hmemory hrun⟩
          | ok yield =>
              rw [pushOut_step hdone hmemory hrun]
              have hframes : real ≤ R.finalFrames s real ∧ 1 ≤ R.finalFrames s real := by
                unfold finalFrames
                omega
              have hopen : padded ≤ allowance := by
                unfold Drained at hdone
                omega
              obtain ⟨calls, hrest⟩ := ih
                (allowance + 1 - (padded + (R.finalFrames s real - real)) + 0) (by omega)
                s' [] 0 (padded + (R.finalFrames s real - real)) rfl
              exact ⟨_, .step hdone hmemory hrun hrest⟩

theorem PushesOut.pushOut_eq {wanted allowance : Nat} {s : State σ} {batch : List Binary32}
    {real padded : Nat} {calls : List (BackendCall σ)} {o : Outcome σ (List Binary32)}
    (h : R.PushesOut wanted allowance s batch real padded calls o) :
    R.pushOut wanted allowance s batch real padded = o := by
  induction h with
  | done hdone => exact pushOut_done hdone
  | unaffordable hopen hmemory => exact pushOut_unaffordable hopen hmemory
  | failed hopen hmemory hrun => exact pushOut_failed hopen hmemory hrun
  | step hopen hmemory hrun _ ih => rw [pushOut_step hopen hmemory hrun, ih]

/-! ## The calls of a derivation are the recorded ones -/

theorem Absorbs.linked {s : State σ} {pending : List Binary32} {available : Nat}
    {calls : List (BackendCall σ)} {o : Outcome σ (List Binary32)}
    (h : R.Absorbs s pending available calls o) :
    R.backend.Linked s.backend calls o.2.backend := by
  induction h with
  | idle => exact .nil _
  | failed _ hrun => exact .cons (process_of_runBatch hrun ▸ .nil _)
  | stuck _ hrun => exact .cons (process_of_runBatch hrun ▸ .nil _)
  | overrun _ hrun => exact .cons (process_of_runBatch hrun ▸ .nil _)
  | step _ hrun _ _ _ ih => exact .cons (process_of_runBatch hrun ▸ ih)

theorem PushesOut.linked {wanted allowance : Nat} {s : State σ} {batch : List Binary32}
    {real padded : Nat} {calls : List (BackendCall σ)} {o : Outcome σ (List Binary32)}
    (h : R.PushesOut wanted allowance s batch real padded calls o) :
    R.backend.Linked s.backend calls o.2.backend := by
  induction h with
  | done => exact .nil _
  | unaffordable => exact .nil _
  | failed _ _ hrun => exact .cons (process_of_runBatch hrun ▸ .nil _)
  | step _ _ hrun _ ih => exact .cons (process_of_runBatch hrun ▸ ih)

theorem Absorbs.recorded {s : State σ} {pending : List Binary32} {available : Nat}
    {calls : List (BackendCall σ)} {o : Outcome σ (List Binary32)}
    (h : R.Absorbs s pending available calls o) (events : List BackendEvent) :
    R.recorded.absorb (s.recording events) pending available =
      recordedOutcome o (events ++ RateBackend.events calls) := by
  induction h generalizing events with
  | @idle s pending available hidle =>
      rw [show RateBackend.events ([] : List (BackendCall σ)) = [] from rfl, List.append_nil]
      exact absorb_idle (R := R.recorded) (s := s.recording events) hidle
  | @failed s s' pending available failure hready hrun =>
      exact absorb_failed (R := R.recorded) (s := s.recording events) hready
        (recorded_of_runBatch hrun events)
  | @stuck s s' pending out available hready hrun =>
      exact absorb_stuck (R := R.recorded) (s := s.recording events) hready
        (recorded_of_runBatch hrun events)
  | @overrun s s' pending out available consumed hready hrun hover =>
      exact absorb_overrun (R := R.recorded) (s := s.recording events) hready
        (recorded_of_runBatch hrun events) hover
  | @step s s' pending out available consumed calls rest hready hrun hpos hle hrest ih =>
      refine (absorb_step (R := R.recorded) (s := s.recording events) hready
        (recorded_of_runBatch hrun events) hpos hle).trans ?_
      have hlater := ih (events ++ [.batch (R.nextBatch s pending)])
      rw [List.append_assoc] at hlater
      exact congrArg (prepend out) hlater

theorem PushesOut.recorded {wanted allowance : Nat} {s : State σ} {batch : List Binary32}
    {real padded : Nat} {calls : List (BackendCall σ)} {o : Outcome σ (List Binary32)}
    (h : R.PushesOut wanted allowance s batch real padded calls o)
    (events : List BackendEvent) :
    R.recorded.pushOut wanted allowance (s.recording events) batch real padded =
      recordedOutcome o (events ++ RateBackend.events calls) := by
  induction h generalizing events with
  | @done s batch real padded hdone =>
      rw [show RateBackend.events ([] : List (BackendCall σ)) = [] from rfl, List.append_nil]
      exact pushOut_done (R := R.recorded) (s := s.recording events) hdone
  | @unaffordable s batch real padded fault hopen hmemory =>
      rw [show RateBackend.events ([] : List (BackendCall σ)) = [] from rfl, List.append_nil]
      exact pushOut_unaffordable (R := R.recorded) (s := s.recording events) hopen hmemory
  | @failed s s' batch real padded failure hopen hmemory hrun =>
      exact pushOut_failed (R := R.recorded) (s := s.recording events) hopen hmemory
        (recorded_of_runBatch hrun events)
  | @step s s' batch out real padded consumed calls rest hopen hmemory hrun hrest ih =>
      refine (pushOut_step (R := R.recorded) (s := s.recording events) hopen hmemory
        (recorded_of_runBatch hrun events)).trans ?_
      have hlater := ih (events ++ [.batch (R.finalBatch s batch real)])
      rw [List.append_assoc] at hlater
      exact congrArg (prepend out) hlater

/-! ## Chunks -/

variable (R) in
/-- The calls that resampling a chunk makes. -/
def processCalls (s : State σ) (input : List Binary32) : List (BackendCall σ) :=
  R.backend.calls s.backend (R.recorded.process (s.recording []) input).2.backend.2

variable (R) in
/-- Room for the output of a chunk, as far as memory is concerned. -/
def checkRoom (s : State σ) (input : List Binary32) : Except Fault Unit :=
  checkMemory (R.pacing.reserve ((s.carryover ++ input).length / R.channels) * R.channels)

theorem process_unaffordable {s : State σ} {input : List Binary32} {fault : Fault}
    (hroom : R.checkRoom s input = .error fault) :
    R.process s input = (.error (.fault fault), { s with carryover := s.carryover ++ input }) := by
  unfold checkRoom at hroom
  simp only [process, hroom]

theorem process_affordable {s : State σ} {input : List Binary32}
    (hroom : R.checkRoom s input = .ok ()) :
    R.process s input = R.absorb s (s.carryover ++ input)
      ((s.carryover ++ input).length / R.channels) := by
  unfold checkRoom at hroom
  simp only [process, hroom]

/-- A run of the loop over what a chunk makes pending is the run of the chunk, and its calls are the
recorded ones. -/
theorem process_of_absorbs {s : State σ} {input : List Binary32} {calls : List (BackendCall σ)}
    {o : Outcome σ (List Binary32)} (hroom : R.checkRoom s input = .ok ())
    (h : R.Absorbs s (s.carryover ++ input) ((s.carryover ++ input).length / R.channels) calls o) :
    R.process s input = o ∧ R.processCalls s input = calls := by
  refine ⟨(process_affordable hroom).trans h.absorb_eq, ?_⟩
  unfold processCalls
  rw [process_affordable (R := R.recorded) (s := s.recording []) hroom]
  refine Eq.trans ?_ h.linked.calls_events
  exact congrArg (fun o => R.backend.calls s.backend o.2.backend.2) (h.recorded [])

/-- The runs of chunks are runs of the loop. -/
theorem absorbs_process {s : State σ} {input : List Binary32}
    (hroom : R.checkRoom s input = .ok ()) :
    R.Absorbs s (s.carryover ++ input) ((s.carryover ++ input).length / R.channels)
      (R.processCalls s input) (R.process s input) := by
  obtain ⟨calls, h⟩ := R.exists_absorbs s (s.carryover ++ input)
    ((s.carryover ++ input).length / R.channels)
  obtain ⟨hprocess, hcalls⟩ := process_of_absorbs hroom h
  rw [hprocess, hcalls]
  exact h

theorem processCalls_unaffordable {s : State σ} {input : List Binary32} {fault : Fault}
    (hroom : R.checkRoom s input = .error fault) : R.processCalls s input = [] := by
  unfold processCalls
  rw [process_unaffordable (R := R.recorded) (s := s.recording []) hroom]
  rfl

theorem process_recorded (s : State σ) (input : List Binary32) (events : List BackendEvent) :
    R.recorded.process (s.recording events) input =
      recordedOutcome (R.process s input)
        (events ++ RateBackend.events (R.processCalls s input)) := by
  cases hroom : R.checkRoom s input with
  | error fault =>
      rw [process_unaffordable hroom, processCalls_unaffordable hroom,
        process_unaffordable (R := R.recorded) (s := s.recording events) hroom]
      simp only [RateBackend.events, List.map_nil, List.append_nil]
      rfl
  | ok =>
      rw [process_affordable (R := R.recorded) (s := s.recording events) hroom]
      exact (absorbs_process hroom).recorded events

theorem process_linked (s : State σ) (input : List Binary32) :
    R.backend.Linked s.backend (R.processCalls s input) (R.process s input).2.backend := by
  cases hroom : R.checkRoom s input with
  | error fault =>
      rw [process_unaffordable hroom, processCalls_unaffordable hroom]
      exact .nil _
  | ok => exact (absorbs_process hroom).linked

variable (R) in
/-- The calls that resampling chunks one after the other makes. -/
def feedCalls (s : State σ) (inputs : List (List Binary32)) : List (BackendCall σ) :=
  R.backend.calls s.backend (feed R.recorded.process (s.recording []) inputs).2.backend.2

/-- Recording a run of chunks changes nothing else about it. -/
theorem exists_feed_recorded (s : State σ) (inputs : List (List Binary32)) :
    ∃ calls, R.backend.Linked s.backend calls (feed R.process s inputs).2.backend ∧
      ∀ events, feed R.recorded.process (s.recording events) inputs =
        recordedOutcome (feed R.process s inputs) (events ++ RateBackend.events calls) := by
  induction inputs generalizing s with
  | nil =>
      refine ⟨[], .nil _, fun events => ?_⟩
      simp only [RateBackend.events, List.map_nil, List.append_nil]
      rfl
  | cons input inputs ih =>
      have hlinked := R.process_linked s input
      have hrecorded := R.process_recorded s input
      simp only [feed_cons]
      rcases hprocess : R.process s input with ⟨result, s'⟩
      rw [hprocess] at hlinked hrecorded
      cases result with
      | error failure =>
          refine ⟨R.processCalls s input, hlinked, fun events => ?_⟩
          rw [hrecorded]
          rfl
      | ok out =>
          obtain ⟨calls, hlater, hevents⟩ := ih s'
          refine ⟨R.processCalls s input ++ calls, hlinked.append hlater, fun events => ?_⟩
          rw [hrecorded]
          simp only [recordedOutcome, followedBy_ok, hevents]
          rw [RateBackend.events, RateBackend.events, RateBackend.events, List.map_append,
            List.append_assoc]
          rfl

theorem feed_spec (s : State σ) (inputs : List (List Binary32)) :
    R.backend.Linked s.backend (R.feedCalls s inputs) (feed R.process s inputs).2.backend ∧
      ∀ events, feed R.recorded.process (s.recording events) inputs =
        recordedOutcome (feed R.process s inputs)
          (events ++ RateBackend.events (R.feedCalls s inputs)) := by
  obtain ⟨calls, hlinked, hevents⟩ := R.exists_feed_recorded s inputs
  -- The recorded events determine the calls, so they are those of the run.
  have hsame : R.feedCalls s inputs = calls := by
    unfold feedCalls
    rw [hevents]
    exact hlinked.calls_events
  rw [hsame]
  exact ⟨hlinked, hevents⟩

theorem feedCalls_cons_error {s s' : State σ} {input : List Binary32} {failure : Failure}
    (inputs : List (List Binary32)) (h : R.process s input = (.error failure, s')) :
    R.feedCalls s (input :: inputs) = R.processCalls s input := by
  have hlinked := R.process_linked s input
  unfold feedCalls
  rw [feed_cons, process_recorded, h]
  exact hlinked.calls_events

theorem feedCalls_cons_ok {s s' : State σ} {input out : List Binary32}
    (inputs : List (List Binary32)) (h : R.process s input = (.ok out, s')) :
    R.feedCalls s (input :: inputs) = R.processCalls s input ++ R.feedCalls s' inputs := by
  have hlinked := R.process_linked s input
  obtain ⟨hlater, hevents⟩ := R.feed_spec s' inputs
  rw [h] at hlinked
  have hlog : (feed R.recorded.process (s.recording []) (input :: inputs)).2.backend.2 =
      RateBackend.events (R.processCalls s input ++ R.feedCalls s' inputs) := by
    rw [feed_cons, process_recorded, h]
    simp only [recordedOutcome, followedBy_ok, hevents]
    exact (List.map_append ..).symm
  rw [feedCalls, hlog]
  exact (hlinked.append hlater).calls_events

/-! ## The end of a stream -/

variable (R) in
/-- Output frames that the stream has in total. -/
def wanted (s : State σ) : Nat :=
  R.pacing.target (s.framesIn + R.carryoverFrames s)

variable (R) in
/-- Output frames that draining may have to push out of the backend. -/
def owed (s : State σ) : Nat :=
  R.wanted s - s.framesOut + s.delayLeft + R.backend.outputFramesMax s.backend

variable (R) in
/-- The whole frames of the carryover. -/
def carried (s : State σ) : List Binary32 :=
  s.carryover.take (R.carryoverFrames s * R.channels)

variable (R) in
/-- What draining checks before it starts. -/
def checkDrain (s : State σ) : Except Fault Unit := do
  checkCount (max (R.owed s) (R.pacing.silence (R.owed s)))
  checkMemory ((R.wanted s - s.framesOut) * R.channels)

variable (R) in
/-- The runs of `drain`, with the calls that they make. -/
inductive Drains (s : State σ) : List (BackendCall σ) → Outcome σ (List Binary32) → Prop
  | nothing (hnothing : R.carryoverFrames s = 0 ∧ s.framesIn = 0) :
      Drains s [] (.ok [], R.restart s)
  | unaffordable {fault : Fault} (hsome : ¬(R.carryoverFrames s = 0 ∧ s.framesIn = 0))
      (hroom : R.checkDrain s = .error fault) :
      Drains s [] (.error (.fault fault), { s with carryover := [] })
  | pushed {calls : List (BackendCall σ)} {o : Outcome σ (List Binary32)}
      (hsome : ¬(R.carryoverFrames s = 0 ∧ s.framesIn = 0)) (hroom : R.checkDrain s = .ok ())
      (hpushes : R.PushesOut (R.wanted s) (R.pacing.silence (R.owed s)) { s with carryover := [] }
        (R.carried s) (R.carryoverFrames s) 0 calls o) :
      Drains s calls (o.1, R.restart o.2)

variable (R) in
/-- The calls that draining makes. -/
def drainCalls (s : State σ) : List (BackendCall σ) :=
  R.backend.calls s.backend (R.recorded.drain (s.recording [])).2.backend.2

theorem drain_nothing {s : State σ} (hnothing : R.carryoverFrames s = 0 ∧ s.framesIn = 0) :
    R.drain s = (.ok [], R.restart s) := by
  unfold drain
  exact if_pos hnothing

theorem drain_something {s : State σ} (hsome : ¬(R.carryoverFrames s = 0 ∧ s.framesIn = 0)) :
    R.drain s =
      match R.checkDrain s with
      | .error fault => (.error (.fault fault), { s with carryover := [] })
      | .ok () =>
        let o := R.pushOut (R.wanted s) (R.pacing.silence (R.owed s)) { s with carryover := [] }
          (R.carried s) (R.carryoverFrames s) 0
        (o.1, R.restart o.2) := by
  unfold drain checkDrain
  refine (if_neg hsome).trans ?_
  simp only [wanted, owed, carried]
  cases checkCount _ with
  | error fault => rfl
  | ok =>
      cases checkMemory _ <;> rfl

/-- The calls of a drain are those of the loop that it runs. -/
theorem drains_drain (s : State σ) : R.Drains s (R.drainCalls s) (R.drain s) := by
  by_cases hnothing : R.carryoverFrames s = 0 ∧ s.framesIn = 0
  · have hcalls : R.drainCalls s = [] := by
      unfold drainCalls
      rw [drain_nothing (R := R.recorded) (s := s.recording []) hnothing]
      rfl
    rw [hcalls, drain_nothing hnothing]
    exact .nothing hnothing
  cases hroom : R.checkDrain s with
  | error fault =>
      have hcalls : R.drainCalls s = [] := by
        unfold drainCalls
        rw [drain_something (R := R.recorded) (s := s.recording []) hnothing]
        rw [show R.recorded.checkDrain (s.recording []) = R.checkDrain s from rfl, hroom]
        rfl
      rw [hcalls, drain_something hnothing, hroom]
      exact .unaffordable hnothing hroom
  | ok =>
      obtain ⟨calls, hpushes⟩ := R.exists_pushesOut (R.wanted s) (R.pacing.silence (R.owed s))
        { s with carryover := [] } (R.carried s) (R.carryoverFrames s) 0
      have hcalls : R.drainCalls s = calls := by
        unfold drainCalls
        rw [drain_something (R := R.recorded) (s := s.recording []) hnothing]
        rw [show R.recorded.checkDrain (s.recording []) = R.checkDrain s from rfl, hroom]
        -- The reset at the end is recorded as well, and is not a call.
        have hreplayed : R.backend.calls s.backend (RateBackend.events calls ++ [.reset]) = calls :=
          (hpushes.linked.calls_events_append [.reset]).trans (List.append_nil calls)
        refine Eq.trans ?_ hreplayed
        exact congrArg (fun o => R.backend.calls s.backend (R.recorded.restart o.2).backend.2)
          (hpushes.recorded [])
      rw [hcalls, drain_something hnothing, hroom]
      exact .pushed hnothing hroom hpushes

end Resampler

end PcmConversion
