import PcmConversion.Proofs.Rate.Reachable
import PcmConversion.Proofs.Rate.Reserve
import PcmConversion.Rate.Rehearsal

/-!
# Chunk boundaries do not matter

A resampler may be fed the same samples in pieces of any lengths: where the pieces are cut decides
neither which batches the backend is given, nor what is returned, nor the state in the end.
-/

namespace PcmConversion.Resampler

variable {σ : Type} {R : Resampler σ}

variable (R) in
/-- Memory holds the output reserved for any chunk of up to `frames` frames. -/
def HasRoom (frames : Nat) : Prop :=
  ∀ n ≤ frames, checkMemory (R.pacing.reserve n * R.channels) = .ok ()

theorem HasRoom.mono {m n : Nat} (h : R.HasRoom n) (hle : m ≤ n) : R.HasRoom m :=
  fun k hk => h k (hk.trans hle)

theorem HasRoom.checkRoom {s : State σ} {input : List Binary32}
    (h : R.HasRoom ((s.carryover ++ input).length / R.channels)) : R.checkRoom s input = .ok () :=
  h _ le_rfl

/-- Resampling `x ++ y` at once is resampling `x` and then, unless that fails, `y`. -/
theorem process_append {s : State σ} {x y : List Binary32}
    (hroom : R.HasRoom ((s.carryover ++ (x ++ y)).length / R.channels))
    (hadvances : ∀ call ∈ R.processCalls s (x ++ y), R.backend.Advances call) :
    (∃ failure s', R.process s x = (.error failure, s') ∧
      R.process s (x ++ y) = (.error failure, s') ∧
      R.processCalls s (x ++ y) = R.processCalls s x) ∨
    ∃ out s', R.process s x = (.ok out, s') ∧
      R.process s (x ++ y) = prepend out (R.process s' y) ∧
      R.processCalls s (x ++ y) = R.processCalls s x ++ R.processCalls s' y ∧
      R.Settled s' ∧ R.HasRoom ((s'.carryover ++ y).length / R.channels) := by
  have hroomx : R.checkRoom s x = .ok () :=
    (hroom.mono (Nat.div_le_div_right (by simp only [List.length_append]; omega))).checkRoom
  have hwhole := absorbs_process hroom.checkRoom
  rw [← List.append_assoc] at hwhole
  rcases hwhole.split hadvances with
    ⟨failure, s', hfirst, heq⟩ | ⟨out, s', first, later, o', hcalls, heq, hfirst, hlater⟩
  · obtain ⟨hprocess, hprocessCalls⟩ := process_of_absorbs hroomx hfirst
    exact .inl ⟨failure, s', hprocess, heq, hprocessCalls.symm⟩
  · obtain ⟨hprocess, hprocessCalls⟩ := process_of_absorbs hroomx hfirst
    have hfirstAdvances : ∀ call ∈ first, R.backend.Advances call := by
      intro call hcall
      exact hadvances call (hcalls ▸ List.mem_append_left _ hcall)
    have hroomy : R.HasRoom ((s'.carryover ++ y).length / R.channels) := by
      have hshorter := (hfirst.carryover_suffix hfirstAdvances).length_le
      refine hroom.mono (Nat.div_le_div_right ?_)
      simp only [List.length_append] at hshorter ⊢
      omega
    obtain ⟨hrest, hrestCalls⟩ := process_of_absorbs hroomy.checkRoom hlater
    refine .inr ⟨out, s', hprocess, ?_, ?_, hfirst.settled rfl hfirstAdvances, hroomy⟩
    · rw [heq, hrest]
    · rw [hcalls, hprocessCalls, hrestCalls]

/-- Feeding pieces is resampling what they are pieces of. -/
theorem feed_eq_process_flatten {s : State σ} {pieces : List (List Binary32)}
    (hsettled : R.Settled s)
    (hroom : R.HasRoom ((s.carryover ++ pieces.flatten).length / R.channels))
    (hadvances : ∀ call ∈ R.processCalls s pieces.flatten, R.backend.Advances call) :
    feed R.process s pieces = R.process s pieces.flatten ∧
      R.feedCalls s pieces = R.processCalls s pieces.flatten := by
  induction pieces generalizing s with
  | nil =>
      -- No samples: the loop finds nothing to hand over and keeps the carryover.
      rw [List.flatten_nil] at hroom ⊢
      have hidle : R.Absorbs s (s.carryover ++ []) ((s.carryover ++ []).length / R.channels) []
          (.ok [], s) := by
        rw [List.append_nil]
        exact .idle hsettled
      obtain ⟨hprocess, hcalls⟩ := process_of_absorbs hroom.checkRoom hidle
      rw [hprocess, hcalls]
      exact ⟨rfl, rfl⟩
  | cons x xs ih =>
      rw [List.flatten_cons] at hroom hadvances ⊢
      rw [feed_cons]
      rcases process_append hroom hadvances with
        ⟨failure, s', hfirst, hwhole, hcalls⟩ | ⟨out, s', hfirst, hwhole, hcalls, hsettled', hroom'⟩
      · rw [hfirst, hwhole, hcalls, feedCalls_cons_error _ hfirst]
        exact ⟨rfl, rfl⟩
      · rw [hcalls] at hadvances
        obtain ⟨hrest, hrestCalls⟩ := ih hsettled' hroom'
          fun call hcall => hadvances call (List.mem_append_right _ hcall)
        rw [hfirst, hwhole, followedBy_ok, hrest, hcalls, feedCalls_cons_ok _ hfirst, hrestCalls]
        exact ⟨rfl, rfl⟩

/-- Memory that holds the output of a chunk holds that of every shorter one. -/
theorem hasRoom_of_checkRoom {source target : Nat} (hpacing : R.pacing = .floating source target)
    {s : State σ} {input : List Binary32} (hroom : R.checkRoom s input = .ok ()) :
    R.HasRoom ((s.carryover ++ input).length / R.channels) := by
  intro n hn
  have hmono := Nat.mul_le_mul_right R.channels (Pacing.reserve_mono source target hn)
  unfold checkRoom at hroom
  rw [hpacing] at hroom ⊢
  exact checkMemory_of_le hmono hroom

/-- From a state in which nothing is left to be handed over, calls that progress give the same in
one piece and in several. -/
theorem exists_feed_eq {source target frames : Nat} (hpacing : R.pacing = .floating source target)
    {s : State σ} (hsettled : R.Settled s) (hsize : s.scratch.size = frames * R.channels)
    {pieces : List (List Binary32)}
    (hadvances : ∀ call ∈ R.processCalls s pieces.flatten, R.backend.Advances call)
    (hdelivers : ∀ call ∈ R.processCalls s pieces.flatten, R.backend.Delivers frames call)
    (hmemory : (R.process s pieces.flatten).1 ≠ .error (.fault .outOfMemory)) :
    ∃ out s', R.process s pieces.flatten = (.ok out, s') ∧
      feed R.process s pieces = (.ok out, s') ∧
      R.feedCalls s pieces = R.processCalls s pieces.flatten := by
  have hroom := checkRoom_of_inMemory hmemory
  obtain ⟨out, s', hprocess⟩ := (absorbs_process hroom).exists_ok hsize hadvances hdelivers
  obtain ⟨hfeed, hsame⟩ :=
    feed_eq_process_flatten hsettled (hasRoom_of_checkRoom hpacing hroom) hadvances
  exact ⟨out, s', hprocess, hfeed.trans hprocess, hsame⟩

/-- **Chunk boundaries do not matter.**  Let every full batch, in the past of a stream and in the
call at hand, be answered with success, some progress within the frames that were wanted, and no
more output than the buffer holds.  However many frames the backend wants each time, and wherever
the samples are cut, in the middle of a frame too: fed in pieces they give the same output, by the
same calls of the backend, and leave the same state as in one call. -/
theorem feed_pieces {source target : Nat} (hpacing : R.pacing = .floating source target) {b : σ}
    {s : State σ}
    (hs : R.Reachable
      (fun call => call.batch.final = false →
        R.backend.Progresses (R.backend.outputFramesMax b) call) b s)
    (pieces : List (List Binary32))
    (hcalls : ∀ call ∈ R.processCalls s pieces.flatten,
      R.backend.Progresses (R.backend.outputFramesMax b) call)
    (hmemory : (R.process s pieces.flatten).1 ≠ .error (.fault .outOfMemory)) :
    ∃ out s', R.process s pieces.flatten = (.ok out, s') ∧
      feed R.process s pieces = (.ok out, s') ∧
      R.feedCalls s pieces = R.processCalls s pieces.flatten := by
  have hsettled : R.Settled s := hs.settled fun call hfull hallowed => (hallowed hfull).advances
  exact exists_feed_eq hpacing hsettled hs.size_scratch
    (fun call hcall => (hcalls call hcall).advances)
    (fun call hcall => (hcalls call hcall).delivers) hmemory

/-- A stereo resampler whose backend wants two and three frames in turn. -/
def wavering : Resampler Nat :=
  .over (Rehearsal.scripted 2 ⟨[2, 3], [.counts 1 4, .counts 3 0], 4, 1⟩) 2 (.floating 44100 48000)

theorem wavering_progresses (call : BackendCall Nat) : wavering.backend.Progresses 4 call := by
  obtain ⟨k, batch⟩ := call
  rcases Nat.mod_two_eq_zero_or_one k with hk | hk
  all_goals
    simp [RateBackend.Progresses, RateBackend.answer, wavering, Resampler.over,
      Rehearsal.scripted, hk]

/-- Nine samples in pieces that cut frames, after a call that left a frame and a half. -/
theorem feed_pieces_wavering :
    let s₀ : State Nat := ⟨0, [], ⟨8, []⟩, 1, 0, 0⟩
    let s := (wavering.process s₀ (List.replicate 5 ⟨0x3f800000⟩)).2
    s.carryover = List.replicate 3 ⟨0x3f800000⟩ ∧
      ∃ out s', wavering.process s (List.replicate 9 Binary32.zero) = (.ok out, s') ∧
        feed wavering.process s
          [List.replicate 3 Binary32.zero, [], List.replicate 6 Binary32.zero] = (.ok out, s') := by
  intro s₀ s
  have hfirst : (wavering.process s₀ (List.replicate 5 ⟨0x3f800000⟩)).1.toOption.isSome = true := by
    decide +kernel
  have hlater : (wavering.process s (List.replicate 9 Binary32.zero)).1.toOption.isSome = true := by
    decide +kernel
  have hs : wavering.Reachable
      (fun call => call.batch.final = false →
        wavering.backend.Progresses (wavering.backend.outputFramesMax 0) call) 0 s := by
    refine .process _ (.start rfl) (fun call _ _ => wavering_progresses call) fun fault hfault => ?_
    rw [hfault] at hfirst
    cases hfirst
  have hpacing : wavering.pacing = .floating 44100 48000 := rfl
  obtain ⟨out, s', hprocess, hfeed, -⟩ := feed_pieces hpacing hs
    [List.replicate 3 Binary32.zero, [], List.replicate 6 Binary32.zero]
    (fun call _ => wavering_progresses call) fun hfault => by
      rw [show [List.replicate 3 Binary32.zero, [], List.replicate 6 Binary32.zero].flatten =
        List.replicate 9 Binary32.zero from rfl] at hfault
      rw [hfault] at hlater
      cases hlater
  exact ⟨by decide +kernel, out, s', hprocess, hfeed⟩

end PcmConversion.Resampler
