import PcmConversion.Proofs.Numeric.Rounding
import PcmConversion.Proofs.Rate.StreamLaw

/-!
# Conservation

Over a backend that keeps pace with the ratio of the rates (`RateBackend.KeepsPace`: after `k`
batches of `n` frames it is at most one output buffer behind and never ahead), a stream of `N` whole
frames comes out as `N` frames at the other rate, rounded, whatever the delay of the filter
(`conservation`).

Resampling chunks never returns more than that, since the backend is never ahead.  Draining returns
the rest: the silence that it may feed is worth twice what is owed, which makes up for a backend
that is one output buffer behind (`enough_generated`).
-/

namespace PcmConversion

variable {σ : Type}

/-! ## Frame counts -/

theorem le_divHalfUp {a b q : Nat} (hb : 0 < b) (h : q * b ≤ a) : q ≤ divHalfUp a b := by
  rw [divHalfUp, Nat.le_div_iff_mul_le (by omega)]
  calc q * (2 * b) = 2 * (q * b) := by ring
    _ ≤ 2 * a + b := by omega

/-- Where `fed` of `whole` frames were given to a backend that is not ahead, what it generated is no
more than they all are worth. -/
theorem generated_le {source target fed whole generated : Nat} (hsource : 0 < source)
    (hahead : generated * source ≤ target * fed) (hfed : fed ≤ whole) :
    generated ≤ divHalfUp (whole * target) source := by
  refine le_divHalfUp hsource ?_
  calc generated * source ≤ target * fed := hahead
    _ = fed * target := Nat.mul_comm ..
    _ ≤ whole * target := Nat.mul_le_mul_right _ hfed

/-- Where more silence was fed than may be, the backend has generated all that is wanted.  Before
the silence `fed` frames had been given and `first` generated; in the end `generated` are. -/
theorem enough_generated {source target fed first given generated delay wanted room padded : Nat}
    (hsource : 0 < source) (htarget : 0 < target)
    (hahead : first * source ≤ target * fed)
    (hbehind : target * (fed + given) ≤ (generated + room) * source)
    (hfirst : first - delay ≤ wanted) (hgiven : padded ≤ given)
    (hpadded : 2 * divCeil ((wanted - (first - delay) + (delay - first) + room) * source) target <
      padded) :
    wanted + delay ≤ generated := by
  set owed := wanted - (first - delay) + (delay - first) + room with howed
  have hceil : owed * source ≤ divCeil (owed * source) target * target :=
    (divCeil_le_iff htarget).1 le_rfl
  have hsilence : 2 * owed * source ≤ target * given := by
    calc 2 * owed * source ≤ 2 * divCeil (owed * source) target * target := by nlinarith
      _ ≤ given * target := Nat.mul_le_mul_right _ (by omega)
      _ = target * given := Nat.mul_comm ..
  have hall : (first + 2 * owed) * source ≤ (generated + room) * source := by
    calc (first + 2 * owed) * source = first * source + 2 * owed * source := Nat.add_mul ..
      _ ≤ target * fed + target * given := Nat.add_le_add hahead hsilence
      _ = target * (fed + given) := (Nat.mul_add ..).symm
      _ ≤ (generated + room) * source := hbehind
  have hcount : first + 2 * owed ≤ generated + room := Nat.le_of_mul_le_mul_right hall hsource
  omega

/-! ## Backends that keep pace -/

namespace RateBackend

/-- What the calls made one after the other from the state `b` say about a backend between two
rates: it wants `n` frames each time and makes at most as many frames as it says; after `k` batches
it has generated at most what `k * n` frames are worth, and at least that without one output buffer.
-/
structure KeepsPace (B : RateBackend σ) (source target n : Nat) (b : σ)
    (calls : List (BackendCall σ)) : Prop where
  wants : ∀ first b', B.Linked b first b' → B.inputFramesNext b' = n
  makes : ∀ first b', B.Linked b first b' → B.outputFramesMax b' = B.outputFramesMax b
  complies : ∀ call ∈ calls, B.Complies (B.outputFramesMax b) call
  notAhead : ∀ first, first <+: calls →
    B.generated first * source ≤ target * (first.length * n)
  notBehind : ∀ first, first <+: calls →
    target * (first.length * n) ≤ (B.generated first + B.outputFramesMax b) * source

variable {B : RateBackend σ}

/-- The state that a call found is one that calls lead to. -/
theorem Linked.state {b b' : σ} {calls : List (BackendCall σ)} (h : B.Linked b calls b') :
    ∀ call ∈ calls, ∃ first, B.Linked b first call.state := by
  induction h with
  | nil => exact fun call hcall => absurd hcall List.not_mem_nil
  | @cons b b' batch calls _ ih =>
      intro call hcall
      rcases List.mem_cons.1 hcall with rfl | hlater
      · exact ⟨[], .nil b⟩
      · obtain ⟨first, hfirst⟩ := ih call hlater
        exact ⟨⟨b, batch⟩ :: first, .cons hfirst⟩

theorem KeepsPace.wants_call {source target n : Nat} {b b' : σ} {calls : List (BackendCall σ)}
    (h : B.KeepsPace source target n b calls) (hlinked : B.Linked b calls b') :
    ∀ call ∈ calls, B.inputFramesNext call.state = n := by
  intro call hcall
  obtain ⟨first, hfirst⟩ := hlinked.state call hcall
  exact h.wants first call.state hfirst

end RateBackend

namespace Resampler

variable {R : Resampler σ} {s s' : State σ} {n : Nat} {calls : List (BackendCall σ)}

/-! ## Frames in whole batches -/

theorem length_handedOver_of_full
    (hfull : ∀ call ∈ calls, R.backend.Full R.channels call)
    (hwants : ∀ call ∈ calls, R.backend.inputFramesNext call.state = n) :
    (handedOver calls).length = calls.length * n * R.channels := by
  induction calls with
  | nil => simp
  | cons call calls ih =>
      have hlater := ih (fun call hcall => hfull call (List.mem_cons_of_mem _ hcall))
        fun call hcall => hwants call (List.mem_cons_of_mem _ hcall)
      have hcall := (hfull call List.mem_cons_self).samples
      rw [hwants call List.mem_cons_self] at hcall
      rw [handedOver_cons, List.length_append, hlater, hcall, List.length_cons]
      ring

theorem Fed.framesIn_of_full {input out : List Binary32} (h : R.Fed s input calls out s')
    (hframesIn : s.framesIn = 0) (hfull : ∀ call ∈ calls, R.backend.Full R.channels call)
    (hwants : ∀ call ∈ calls, R.backend.inputFramesNext call.state = n) :
    s'.framesIn = calls.length * n := by
  have hframes := h.framesIn_eq
  rw [hframesIn, Nat.zero_mul, Nat.zero_add, length_handedOver_of_full hfull hwants] at hframes
  exact Nat.eq_of_mul_eq_mul_right R.channels_pos hframes

theorem length_finalBatch (s : State σ) {batch : List Binary32} {real : Nat}
    (hbatch : batch.length = real * R.channels) :
    (R.finalBatch s batch real).samples.length = R.finalFrames s real * R.channels := by
  have hreal : real ≤ R.finalFrames s real := by
    unfold finalFrames
    omega
  rw [finalBatch, List.length_append, List.length_replicate, hbatch, ← Nat.add_mul,
    Nat.add_sub_cancel' hreal]

theorem finalFrames_eq {real : Nat} (hn : 1 ≤ n)
    (hnext : R.backend.inputFramesNext s.backend = n) (hreal : real ≤ n) :
    R.finalFrames s real = n := by
  rw [finalFrames, hnext]
  omega

/-- Each batch that pushes a stream out is as long as a full one. -/
theorem PushesOut.length_handedOver {wanted allowance : Nat} {batch : List Binary32}
    {real padded : Nat} {o : Outcome σ (List Binary32)}
    (h : R.PushesOut wanted allowance s batch real padded calls o) (hn : 1 ≤ n)
    (hreal : real ≤ n) (hbatch : batch.length = real * R.channels)
    (hwants : ∀ call ∈ calls, R.backend.inputFramesNext call.state = n) :
    (handedOver calls).length = calls.length * n * R.channels := by
  induction h with
  | done => simp
  | unaffordable => simp
  | @failed s =>
      have hcall := length_finalBatch s hbatch
      rw [finalFrames_eq hn (hwants _ (List.mem_singleton_self _)) hreal] at hcall
      simpa using hcall
  | @step s _ _ _ _ _ _ _ _ _ _ _ _ ih =>
      have hcall := length_finalBatch s hbatch
      rw [finalFrames_eq hn (hwants _ List.mem_cons_self) hreal] at hcall
      -- What was left is in the first batch, and the later ones hold silence only.
      have hlater := ih (Nat.zero_le n) (by simp)
        fun call hcall => hwants call (List.mem_cons_of_mem _ hcall)
      rw [handedOver_cons, List.length_append, hlater, hcall, List.length_cons]
      ring

theorem drain_linked (s : State σ) : ∃ b, R.backend.Linked s.backend (R.drainCalls s) b := by
  have h := R.drains_drain s
  generalize R.drainCalls s = calls at h ⊢
  generalize R.drain s = o at h
  cases h with
  | nothing => exact ⟨_, .nil _⟩
  | unaffordable => exact ⟨_, .nil _⟩
  | pushed _ _ hpushes => exact ⟨_, hpushes.linked⟩

theorem length_carried (s : State σ) :
    (R.carried s).length = R.carryoverFrames s * R.channels :=
  List.length_take_of_le (Nat.div_mul_le_self _ _)

/-- What was left and the silence after it fill whole batches. -/
theorem length_drainCalls {padded : Nat} (hn : 1 ≤ n) (hcarry : R.carryoverFrames s ≤ n)
    (hwants : ∀ call ∈ R.drainCalls s, R.backend.inputFramesNext call.state = n)
    (hsamples : handedOver (R.drainCalls s) =
      R.carried s ++ List.replicate (padded * R.channels) Binary32.zero) :
    (R.drainCalls s).length * n = R.carryoverFrames s + padded := by
  have hlength : (handedOver (R.drainCalls s)).length =
      (R.drainCalls s).length * n * R.channels := by
    have h := R.drains_drain s
    generalize R.drainCalls s = calls at h hwants ⊢
    generalize R.drain s = o at h
    cases h with
    | nothing => simp
    | unaffordable => simp
    | pushed _ _ hpushes => exact hpushes.length_handedOver hn hcarry (length_carried s) hwants
  rw [hsamples, List.length_append, List.length_replicate, length_carried, ← Nat.add_mul] at hlength
  exact (Nat.eq_of_mul_eq_mul_right R.channels_pos hlength).symm

/-! ## Whole streams -/

/-- Where draining has stopped, all that is wanted was returned.  Before it the backend had been
given `fed` frames and had generated `first`, the `delay` included; while draining it was given
`given`. -/
theorem framesOut_of_drained {source target fed given first delay padded : Nat}
    {tail : List Binary32}
    (hpacing : R.pacing = .exact source target) (hsource : 0 < source) (htarget : 0 < target)
    (hdelayLeft : s.delayLeft = delay - first) (hframesOut : s.framesOut = first - delay)
    (hbelow : s.framesOut ≤ R.wanted s) (hemits : R.Emits (some (R.wanted s)) s calls tail s')
    (hahead : first * source ≤ target * fed)
    (hbehind : target * (fed + given) ≤
      (first + R.backend.generated calls + R.backend.outputFramesMax s.backend) * source)
    (hgiven : padded ≤ given)
    (hend : Drained (R.wanted s) (R.pacing.silence (R.owed s)) s' padded) :
    s'.framesOut = R.wanted s := by
  have hkept := hemits.framesOut
  simp only [framesKept, Option.map_some, Option.getD_some] at hkept
  rcases hend with hdone | hlimit
  · omega
  · -- All the silence was fed, so the backend has generated enough.
    rw [owed, hpacing, hframesOut, hdelayLeft] at hlimit
    have henough : R.wanted s + delay ≤ first + R.backend.generated calls :=
      enough_generated hsource htarget hahead hbehind (by omega) hgiven hlimit
    omega

/-- A stream that was fed and drained over a backend that keeps pace has its frames at the other
rate, rounded. -/
theorem length_of_keepsPace {source target padded : Nat} {b : σ} {inputs : List (List Binary32)}
    {outs tail : List Binary32} {mid : State σ} (hpacing : R.pacing = .exact source target)
    (hsource : 1 ≤ source) (htarget : 1 ≤ target) (hn : 1 ≤ n) (hstart : R.start b = .ok s)
    (hpace : R.backend.KeepsPace source target n b (R.feedCalls s inputs ++ R.drainCalls mid))
    (hfeed : feed R.process s inputs = (.ok outs, mid))
    (hfed : R.Fed s inputs.flatten (R.feedCalls s inputs) outs mid)
    (hended : R.Ended mid tail s' padded) :
    (outs ++ tail).length =
      divHalfUp (inputs.flatten.length / R.channels * target) source * R.channels := by
  obtain ⟨hbackend, hcarryover, hsize, hdelay, hframesIn, hframesOut⟩ := start_fields hstart
  have hmid : R.backend.Linked b (R.feedCalls s inputs) mid.backend := by
    have hlinked := (R.feed_spec s inputs).1
    rwa [hfeed, hbackend] at hlinked
  obtain ⟨b', hdrainLinked⟩ := R.drain_linked mid
  have hwants := hpace.wants_call (hmid.append hdrainLinked)
  have hused : mid.framesIn = (R.feedCalls s inputs).length * n :=
    hfed.framesIn_of_full hframesIn (R.feed_full s inputs)
      fun call hcall => hwants call (List.mem_append_left _ hcall)
  have hcarry : R.carryoverFrames mid < n := by
    have hidle := hfed.settled (settled_of_carryover_nil hcarryover)
    rw [Settled, Idle, hpace.wants _ _ hmid] at hidle
    omega
  have htotal := hfed.frames_total hframesIn hcarryover
  have hwanted : R.wanted mid =
      divHalfUp (inputs.flatten.length / R.channels * target) source := by
    rw [wanted, htotal, hpacing]
    rfl
  -- What chunks return is no more than the stream is worth.
  have hreturned : mid.framesOut = R.backend.generated (R.feedCalls s inputs) - s.delayLeft := by
    simp [hfed.emits.framesOut, hframesOut, framesKept]
  have hahead := hpace.notAhead _ (List.prefix_append _ _)
  have hbelow : mid.framesOut ≤ R.wanted mid := by
    rw [hwanted, hreturned]
    exact (Nat.sub_le ..).trans (generated_le hsource hahead (by omega))
  have hreached : s'.framesOut = R.wanted mid := by
    rcases hended.stops with ⟨hnone, hnoFrames, hnoCalls⟩ | hdrained
    · -- An empty stream: nothing is wanted and nothing was returned.
      have hempty : R.wanted mid = 0 := by
        rw [hwanted, ← htotal, hnone, hnoFrames]
        simp [divHalfUp, Nat.div_eq_of_lt (show source < 2 * source by omega)]
      have hkept := hended.emits.framesOut
      rw [hnoCalls, RateBackend.generated_nil, Nat.zero_sub, framesKept_zero] at hkept
      omega
    · have hbehind := hpace.notBehind _ List.prefix_rfl
      rw [RateBackend.generated_append, List.length_append, Nat.add_mul,
        ← hpace.makes _ _ hmid] at hbehind
      have hgiven : padded ≤ (R.drainCalls mid).length * n := by
        rcases hended.samples with ⟨-, rfl⟩ | hsome
        · exact Nat.zero_le _
        · rw [length_drainCalls hn hcarry.le
            (fun call hcall => hwants call (List.mem_append_right _ hcall)) hsome]
          exact Nat.le_add_left ..
      exact framesOut_of_drained hpacing hsource htarget hfed.emits.delayLeft hreturned hbelow
        hended.emits hahead hbehind hgiven hdrained
  have hfirst := hfed.emits.length_out
  have hlater := hended.emits.length_out
  rw [hframesOut, Nat.zero_mul, Nat.zero_add] at hfirst
  rw [hreached, hfirst] at hlater
  rw [List.length_append, ← hlater, hwanted]

/-- **Conservation of frames.**  A new resampler, paced in whole numbers, is fed the `inputs`, of
any lengths, and drained, over a backend that keeps pace.  Unless memory or counts run out, the
frames it returns are those of the input at the other rate, rounded: neither the delay nor the limit
on silence loses any. -/
theorem conservation {source target : Nat} {b : σ} (hpacing : R.pacing = .exact source target)
    (hsource : 1 ≤ source) (htarget : 1 ≤ target) (hn : 1 ≤ n) (hstart : R.start b = .ok s)
    (inputs : List (List Binary32))
    (hpace : R.backend.KeepsPace source target n b
      (R.feedCalls s inputs ++ R.drainCalls (feed R.process s inputs).2))
    (hfits : ∀ fault : Fault, fault.IsExhaustion →
      (feedThen R.process R.drain s inputs).1 ≠ .error (.fault fault)) :
    ∃ out s', feedThen R.process R.drain s inputs = (.ok out, s') ∧
      out.length =
        divHalfUp (inputs.flatten.length / R.channels * target) source * R.channels := by
  obtain ⟨-, -, hsize, -⟩ := start_fields hstart
  obtain ⟨outs, mid, tail, s', padded, hfeed, hfed, hended⟩ :=
    exists_stream hsize hpace.complies hfits
  rw [hfeed] at hpace
  refine ⟨outs ++ tail, R.restart s', ?_, ?_⟩
  · rw [feedThen, hfeed, followedBy_ok, hended.returns, prepend_ok]
  · exact length_of_keepsPace hpacing hsource htarget hn hstart hpace hfeed hfed hended

/-- A stereo resampler from two frames to three, whose backend makes two frames and four in turn and
delays its output by three. -/
def trailing : Resampler Nat :=
  .over (Rehearsal.scripted 2 ⟨[2], [.counts 2 2, .counts 2 4], 4, 3⟩) 2 (.exact 2 3)

/-- Five and a half frames in pieces that cut frames come out as eight frames. -/
theorem conservation_trailing :
    let s : State Nat := ⟨0, [], ⟨8, []⟩, 3, 0, 0⟩
    let inputs := [List.replicate 5 ⟨0x3f800000⟩, [], List.replicate 6 ⟨0x3f000000⟩]
    trailing.backend.KeepsPace 2 3 2 0
        (trailing.feedCalls s inputs ++ trailing.drainCalls (feed trailing.process s inputs).2) ∧
      ∃ out s', feedThen trailing.process trailing.drain s inputs = (.ok out, s') ∧
        out.length = 16 := by
  intro s inputs
  have hstart : trailing.start 0 = .ok s := rfl
  have hrun : (feedThen trailing.process trailing.drain s inputs).1.toOption.isSome = true := by
    decide +kernel
  have hpace : trailing.backend.KeepsPace 2 3 2 0
      (trailing.feedCalls s inputs ++ trailing.drainCalls (feed trailing.process s inputs).2) := by
    refine ⟨fun first k _ => ?_, fun first k _ => rfl, fun call _ => ?_, ?_, ?_⟩
    · simp [trailing, Resampler.over, Rehearsal.scripted, Nat.mod_one]
    · obtain ⟨k, batch⟩ := call
      rcases Nat.mod_two_eq_zero_or_one k with hk | hk
      all_goals
        simp [RateBackend.Complies, RateBackend.answer, trailing, Resampler.over,
          Rehearsal.scripted, hk, Nat.mod_one]
    · simp only [← List.mem_inits]
      decide +kernel
    · simp only [← List.mem_inits]
      decide +kernel
  obtain ⟨out, s', hfeed, hlength⟩ :=
    conservation rfl (by decide) (by decide) (by decide) hstart inputs hpace
      fun fault _ hfault => by
        rw [hfault] at hrun
        cases hrun
  exact ⟨hpace, out, s', hfeed, hlength.trans (by decide)⟩

end Resampler

end PcmConversion
