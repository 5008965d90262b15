import PcmConversion.Proofs.Rate.Failures
import PcmConversion.Proofs.Session

/-!
# What the counts of a stream count

A resampler counts the frames that its batches hand on.  A chunk returns what its batches hand on,
unless one of them fails: what the batches before it handed on is then *lost*, and stays counted all
the same.  So the count of a stream is that of what was returned and of what was lost, and draining
does not make up for the latter (`framesOut_of_results`, `exists_lost`).
-/

namespace PcmConversion

theorem Scratch.le_size_of_read {s : Scratch} {start count : Nat} {xs : List Binary32}
    (h : s.read start count = .ok xs) : start + count ≤ s.size := by
  unfold read at h
  split_ifs at h with hinside
  exact hinside

namespace Resampler

variable {σ : Type} {R : Resampler σ} {s s' : State σ} {batch : Batch} {limit : Option Nat}
  {calls : List (BackendCall σ)} {o : Outcome σ (List Binary32)}

/-! ## Batches -/

/-- What a batch that succeeds hands on is counted, and stays below the limit. -/
theorem framesOut_runBatch {consumed : Nat} {out : List Binary32} {wanted : Nat}
    (h : R.runBatch s batch (some wanted) = (.ok (consumed, out), s')) :
    s'.framesOut * R.channels = s.framesOut * R.channels + out.length ∧
      s'.framesOut ≤ max wanted s.framesOut := by
  obtain ⟨yield, b, -, -, hread, rfl⟩ := exists_read_of_runBatch h
  constructor
  · rw [Scratch.length_read hread, ← Nat.add_mul]
    rfl
  · simp only [State.emitted, framesKept, Option.map_some, Option.getD_some]
    omega

/-- Without a limit all that was generated is handed on, but for the delay. -/
theorem Emits.of_runBatch_none {consumed : Nat} {out : List Binary32}
    (h : R.runBatch s batch none = (.ok (consumed, out), s')) :
    R.Emits none s [⟨s.backend, batch⟩] out s' := by
  obtain ⟨yield, b, hprocess, -, hread, -⟩ := exists_read_of_runBatch h
  have hfits : yield.generated * R.channels ≤ s.scratch.size := by
    have hinside := Scratch.le_size_of_read hread
    rw [← Nat.add_mul] at hinside
    refine le_trans (Nat.mul_le_mul_right _ ?_) hinside
    simp only [framesKept, Option.map_none, Option.getD_none]
    omega
  have hok := runBatch_ok none hprocess hfits
  rw [h] at hok
  simp only [Prod.mk.injEq, Except.ok.injEq] at hok
  obtain ⟨⟨-, rfl⟩, rfl⟩ := hok
  exact .of_runBatch (congrArg Prod.fst hprocess) b

/-- A batch whose call fails hands on nothing, and changes no count. -/
theorem Emits.of_runBatch_error {e : ConversionError}
    (h : R.runBatch s batch limit = (.error (.error e), s')) :
    R.Emits limit s [⟨s.backend, batch⟩] [] s' := by
  have hanswer : R.backend.answer ⟨s.backend, batch⟩ = .error (.error e) := by
    rcases runBatch_eq_error h with hanswer | hfault
    · exact hanswer
    · cases hfault
  have hstate : s' = { s with backend := (R.backend.process s.backend batch).2 } := by
    unfold runBatch at h
    rcases hprocess : R.backend.process s.backend batch with ⟨answer, b⟩
    rw [RateBackend.answer, hprocess] at hanswer
    simp only at hanswer
    subst hanswer
    rw [hprocess] at h
    exact (congrArg Prod.snd h).symm
  rw [hstate]
  constructor
  · simp [RateBackend.buffer, hanswer]
  · simp [RateBackend.generated, hanswer]
  · simp [RateBackend.generated, hanswer]
  · simp [RateBackend.output, hanswer]

/-! ## Chunks -/

/-- The batches of the loop hand on what they generate beyond the delay, whether the loop returns
it or fails with one of them. -/
theorem Absorbs.emits {pending : List Binary32} {available : Nat}
    (h : R.Absorbs s pending available calls o)
    (hreturns : ∀ fault, o.1 ≠ .error (.fault fault)) :
    ∃ out, R.Emits none s calls out o.2 ∧ ∀ returned, o.1 = .ok returned → returned = out := by
  induction h with
  | idle => exact ⟨[], Emits.withInput (.refl none _) .., fun _ h => (Except.ok.inj h).symm⟩
  | @failed _ _ _ _ failure _ hrun =>
      cases failure with
      | error e =>
          exact ⟨[], Emits.withInput (Emits.of_runBatch_error hrun) .., fun _ h => nomatch h⟩
      | fault fault => exact absurd rfl (hreturns fault)
  | stuck _ hrun =>
      exact ⟨_, Emits.withInput (Emits.of_runBatch_none hrun) .., fun _ h => (Except.ok.inj h).symm⟩
  | overrun => exact absurd rfl (hreturns _)
  | @step _ _ _ out _ _ _ rest _ hrun _ _ _ ih =>
      have hlater : ∀ fault, rest.1 ≠ .error (.fault fault) := by
        intro fault hfault
        exact hreturns fault (by rw [prepend, hfault]; rfl)
      obtain ⟨out', hemits, hreturned⟩ := ih hlater
      refine ⟨out ++ out', (Emits.of_runBatch_none hrun).trans (hemits.withInput ..), ?_⟩
      intro returned hall
      obtain ⟨result, s''⟩ := rest
      cases result with
      | error failure => cases hall
      | ok later =>
          obtain rfl := Except.ok.inj hall
          rw [hreturned later rfl]

variable (R) in
/-- The samples that the batches of a chunk hand on. -/
def passed (s : State σ) (input : List Binary32) : List Binary32 :=
  (R.backend.output R.channels s.scratch (R.processCalls s input)).drop (s.delayLeft * R.channels)

theorem process_emits {input : List Binary32}
    (hreturns : ∀ fault, (R.process s input).1 ≠ .error (.fault fault)) :
    R.Emits none s (R.processCalls s input) (R.passed s input) (R.process s input).2 ∧
      ∀ out, (R.process s input).1 = .ok out → out = R.passed s input := by
  obtain ⟨out, hemits, hreturned⟩ :=
    (absorbs_process (checkRoom_of_returns hreturns)).emits hreturns
  obtain rfl := hemits.out_eq_drop
  exact ⟨hemits, hreturned⟩

/-- The samples that chunks returned. -/
def returned (answers : List (Except Failure (List Binary32))) : List Binary32 :=
  answers.flatMap fun
    | .ok out => out
    | .error _ => []

variable (R) in
/-- The samples that were handed on for chunks that failed, and so were returned to nobody. -/
def lost : State σ → List (List Binary32) → List Binary32
  | _, [] => []
  | s, input :: inputs =>
    (match (R.process s input).1 with
      | .ok _ => []
      | .error _ => R.passed s input) ++ lost (R.process s input).2 inputs

theorem framesOut_stateAfter {inputs : List (List Binary32)}
    (hreturns : ∀ fault, .error (.fault fault) ∉ results R.process s inputs) :
    (stateAfter R.process s inputs).framesOut * R.channels =
      s.framesOut * R.channels + (returned (results R.process s inputs)).length +
        (R.lost s inputs).length := by
  induction inputs generalizing s with
  | nil => rfl
  | cons input inputs ih =>
      have hfirst : ∀ fault, (R.process s input).1 ≠ .error (.fault fault) := by
        intro fault hfault
        exact hreturns fault (List.mem_cons.2 (.inl hfault.symm))
      have hlater : ∀ fault, .error (.fault fault) ∉
          results R.process (R.process s input).2 inputs := by
        intro fault hfault
        exact hreturns fault (List.mem_cons_of_mem _ hfault)
      obtain ⟨hemits, hreturned⟩ := process_emits hfirst
      have hcount := hemits.length_out
      have hrest := ih hlater
      rw [results, stateAfter, lost, hrest, hcount, returned, returned, List.flatMap_cons,
        List.length_append, List.length_append]
      cases hanswer : (R.process s input).1 with
      | ok out =>
          rw [hreturned out hanswer]
          simp only [List.length_nil]
          omega
      | error failure =>
          simp only [List.length_nil]
          omega

/-! ## The end of a stream -/

/-- The loop that pushes a stream out stops at what is wanted. -/
theorem PushesOut.length_le {wanted allowance real padded : Nat} {batch : List Binary32}
    (h : R.PushesOut wanted allowance s batch real padded calls o) :
    ∀ out, o.1 = .ok out →
      s.framesOut * R.channels + out.length ≤ max wanted s.framesOut * R.channels := by
  induction h with
  | done =>
      intro out hout
      obtain rfl := Except.ok.inj hout
      exact Nat.mul_le_mul_right _ (le_max_right ..)
  | unaffordable => exact fun out hout => nomatch hout
  | failed => exact fun out hout => nomatch hout
  | @step s s' _ out _ _ _ _ rest _ _ hrun _ ih =>
      intro all hall
      obtain ⟨result, s''⟩ := rest
      cases result with
      | error failure => cases hall
      | ok later =>
          obtain rfl := Except.ok.inj hall
          obtain ⟨hcount, hbelow⟩ := framesOut_runBatch hrun
          calc s.framesOut * R.channels + (out ++ later).length
              = s'.framesOut * R.channels + later.length := by
                rw [hcount, List.length_append, Nat.add_assoc]
            _ ≤ max wanted s'.framesOut * R.channels := ih later rfl
            _ ≤ max wanted s.framesOut * R.channels :=
                Nat.mul_le_mul_right _ (max_le (le_max_left ..) hbelow)

theorem length_drain_le {tail : List Binary32} (h : (R.drain s).1 = .ok tail) :
    s.framesOut * R.channels + tail.length ≤ max (R.wanted s) s.framesOut * R.channels := by
  have hdrains := R.drains_drain s
  generalize R.drainCalls s = calls at hdrains
  generalize R.drain s = o at hdrains h
  cases hdrains with
  | nothing =>
      obtain rfl := Except.ok.inj h
      exact Nat.mul_le_mul_right _ (le_max_right ..)
  | unaffordable => cases h
  | pushed _ _ hpushes => exact hpushes.length_le tail h

/-- **What the counts of a stream count.**  A stream has just been started, and is sent chunks, any
of which may fail with an error at any batch.  Then the frames counted are those of the samples that
were returned and of the samples that were lost; so these are the same as were returned only if
nothing was lost.  Draining counts both: together with what it returns they are no more than the
frames wanted, or than were counted before. -/
theorem framesOut_of_results (hnew : s.framesOut = 0) (inputs : List (List Binary32))
    (hreturns : ∀ fault, .error (.fault fault) ∉ results R.process s inputs) :
    (stateAfter R.process s inputs).framesOut * R.channels =
        (returned (results R.process s inputs)).length + (R.lost s inputs).length ∧
      ∀ tail, (R.drain (stateAfter R.process s inputs)).1 = .ok tail →
        (returned (results R.process s inputs)).length + (R.lost s inputs).length + tail.length ≤
          max (R.wanted (stateAfter R.process s inputs))
            (stateAfter R.process s inputs).framesOut * R.channels := by
  have hcount := framesOut_stateAfter hreturns
  rw [hnew, Nat.zero_mul, Nat.zero_add] at hcount
  refine ⟨hcount, ?_⟩
  intro tail htail
  rw [← hcount]
  exact length_drain_le htail

/-- A stereo resampler whose backend turns two frames into three, one of them for the delay of its
filter, but fails in the second of four calls. -/
def sputtering : Resampler Nat :=
  .over (Rehearsal.scripted 2 ⟨[2], [.counts 2 3, .fail "lost", .counts 2 3, .counts 2 3], 3, 1⟩) 2
    (.exact 2 3)

/-- A chunk of two batches fails with its second one, the next returns three frames. -/
theorem framesOut_of_results_sputtering :
    let s : State Nat := ⟨0, [], ⟨6, []⟩, 1, 0, 0⟩
    let inputs := [List.replicate 8 ⟨0x3f800000⟩, List.replicate 4 ⟨0x3f000000⟩]
    (returned (results sputtering.process s inputs)).length = 6 ∧
      (sputtering.lost s inputs).length = 4 ∧
      (stateAfter sputtering.process s inputs).framesOut * 2 = 6 + 4 ∧
      ∀ tail, (sputtering.drain (stateAfter sputtering.process s inputs)).1 = .ok tail →
        6 + 4 + tail.length ≤ 6 * 2 := by
  intro s inputs
  have hreturned : (returned (results sputtering.process s inputs)).length = 6 := by
    decide +kernel
  have hlost : (sputtering.lost s inputs).length = 4 := by decide +kernel
  have hwanted : max (sputtering.wanted (stateAfter sputtering.process s inputs))
      (stateAfter sputtering.process s inputs).framesOut = 6 := by decide +kernel
  have hanswers : (results sputtering.process s inputs).all
      (fun | .error (.fault _) => false | _ => true) = true := by decide +kernel
  have hreturns : ∀ fault, .error (.fault fault) ∉ results sputtering.process s inputs := by
    intro fault hfault
    exact nomatch List.all_eq_true.1 hanswers _ hfault
  obtain ⟨hcount, hdrain⟩ := framesOut_of_results rfl inputs hreturns
  rw [hreturned, hlost] at hcount hdrain
  rw [hwanted] at hdrain
  exact ⟨hreturned, hlost, hcount, hdrain⟩

/-- Two frames are handed on for a chunk that fails and is answered with an error; they are counted,
and the end of the stream returns nothing in their place, though two frames are wanted. -/
theorem exists_lost :
    ∃ (R : Resampler Nat) (s : State Nat) (input : List Binary32) (e : ConversionError),
      R.start 0 = .ok s ∧ results R.process s [input] = [.error (.error e)] ∧
      returned (results R.process s [input]) = [] ∧
      (stateAfter R.process s [input]).framesOut = 2 ∧
      R.wanted (stateAfter R.process s [input]) = 2 ∧
      (R.drain (stateAfter R.process s [input])).1 = .ok [] := by
  refine ⟨.over (Rehearsal.scripted 1 ⟨[2], [.counts 2 2, .fail "x"], 2, 0⟩) 1 (.exact 1 1),
    ⟨0, [], ⟨2, []⟩, 0, 0, 0⟩, List.replicate 4 ⟨0x3f800000⟩, .backend "script" "x", rfl, ?_, ?_⟩
  · decide +kernel
  · decide +kernel

end Resampler

end PcmConversion
