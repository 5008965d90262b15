import PcmConversion.Proofs.Conversion.Requests
import PcmConversion.Proofs.Rate.Chunking
import PcmConversion.Proofs.Rate.StreamLaw

/-!
# Chunk boundaries of a conversion do not matter

A conversion may be fed the same bytes in chunks of any whole frames (`convert_chunks`).  Without a
resampler the conversion is framewise; with one it is a resampler between two framewise stages, and
the boundaries that the first stage keeps do not matter to the resampler.
-/

namespace PcmConversion

variable {σ : Type}

/-- As long as it is given full batches, a backend that starts from the state `b` uses each of them
completely and makes no more frames than it says. -/
def RateBackend.TakesFullBatches (B : RateBackend σ) (channels : Nat) (b : σ) : Prop :=
  ∀ calls b', B.Linked b calls b' → (∀ call ∈ calls, B.Full channels call) →
    ∀ call ∈ calls, B.Complies (B.outputFramesMax b) call

namespace Conversion

variable {c : Conversion σ}

/-! ## Without a resampler -/

theorem feed_of_none (hc : c.Accepted) (hresampler : c.resampler = none)
    {chunks : List (List UInt8)} (hframes : ∀ x ∈ chunks, c.source.frameBytes ∣ x.length) :
    ∃ out, c.convert chunks.flatten = (.ok out, c) ∧ feed convert c chunks = (.ok out, c) := by
  obtain ⟨f, hf, hone⟩ := exists_convert_of_none hc hresampler
  have hfeed : ∀ xs : List (List UInt8), feed convert c xs = (.ok (xs.map f).flatten, c) := by
    intro xs
    induction xs with
    | nil => rfl
    | cons x xs ih =>
        rw [feed_cons, hone, followedBy_ok, ih, prepend_ok, List.map_cons, List.flatten_cons]
  exact ⟨f chunks.flatten, hone _, by rw [hfeed, hf.flatten hframes]⟩

/-! ## With a resampler -/

variable {r : RunningResampler σ} {g : List UInt8 → List Binary32} {f : List Binary32 → List UInt8}

/-- Feeding a conversion is feeding its resampler, between two framewise stages. -/
theorem feed_of_some {k : Nat} (hf : Framewise r.machine.channels k f)
    (hload : ∀ x, c.load x = .ok (.floats (g x)))
    (hfinish : ∀ xs, c.finish (.floats xs) = .ok (f xs))
    (s : Resampler.State σ) (chunks : List (List UInt8)) :
    feed convert (c.withState r s) chunks =
      resumed c r f (feed r.machine.process s (chunks.map g)) := by
  induction chunks generalizing s with
  | nil =>
      simp [resumed, withState, Except.map, hf.nil]
  | cons x xs ih =>
      have hone : (c.withState r s).convert x = resumed c r f (r.machine.process s (g x)) :=
        convert_of_some (c := c.withState r s) rfl hload hfinish x
      rw [feed_cons, hone, List.map_cons, feed_cons]
      rcases hprocess : r.machine.process s (g x) with ⟨result, s'⟩
      cases result with
      | error failure => simp [resumed, Except.map]
      | ok out =>
          -- Whole frames come out, so what is made of them may be cut here.
          have hwhole := Resampler.process_dvd_length hprocess
          simp only [resumed, Except.map, followedBy_ok]
          rw [ih s', resumed]
          rcases feed r.machine.process s' (xs.map g) with ⟨failure | rest, s''⟩
          · rfl
          · simp [Except.map, hf.append out rest hwhole]

/-- The calls of a chunk are full batches, made one after the other from the state of the stream. -/
theorem complies_of_takesFullBatches {R : Resampler σ} {s : Resampler.State σ}
    (hbackend : R.backend.TakesFullBatches R.channels s.backend) (input : List Binary32) :
    ∀ call ∈ R.processCalls s input,
      R.backend.Complies (R.backend.outputFramesMax s.backend) call :=
  hbackend _ _ (R.process_linked s input) (R.process_full s input)

theorem feed_of_new_resampler {source target : Nat} {b : σ} (hc : c.Accepted)
    (hresampler : c.resampler = some r) (hstart : r.machine.start b = .ok r.state)
    (hchannels : r.machine.channels = c.source.channels.toNat)
    (hpacing : r.machine.pacing = .floating source target)
    (hbackend : r.machine.backend.TakesFullBatches r.machine.channels b)
    {chunks : List (List UInt8)} (hframes : ∀ x ∈ chunks, c.source.frameBytes ∣ x.length)
    (hmemory : (c.convert chunks.flatten).1 ≠ .error (.fault .outOfMemory)) :
    ∃ out c', c.convert chunks.flatten = (.ok out, c') ∧ feed convert c chunks = (.ok out, c') := by
  obtain ⟨hstate, hcarryover, hsize, -⟩ := Resampler.start_fields hstart
  obtain ⟨g, f, hg, hf, hload, hfinish⟩ := exists_stages hc (by rw [hresampler]; rfl)
  rw [← hchannels] at hf
  have hwhole := convert_of_some hresampler hload hfinish chunks.flatten
  have hpieces := feed_of_some (c := c) (r := r) hf hload hfinish r.state chunks
  have hflatten : g chunks.flatten = (chunks.map g).flatten := hg.flatten hframes
  rw [hflatten] at hwhole
  have hcalls := complies_of_takesFullBatches (hstate ▸ hbackend) (chunks.map g).flatten
  have hprocessMemory : (r.machine.process r.state (chunks.map g).flatten).1 ≠
      .error (.fault .outOfMemory) := by
    intro hfault
    refine hmemory ?_
    rw [hwhole, resumed, hfault]
    rfl
  obtain ⟨out, s', hprocess, hfeed, -⟩ := Resampler.exists_feed_eq hpacing
    (Resampler.settled_of_carryover_nil hcarryover) (hstate.symm ▸ hsize)
    (fun call hcall => (hcalls call hcall).advances (Resampler.process_full _ _ call hcall).final)
    (fun call hcall => (hcalls call hcall).delivers) hprocessMemory
  rw [withState_self hresampler, hfeed] at hpieces
  rw [hprocess] at hwhole
  exact ⟨f out, _, hwhole, hpieces⟩

/-- **Chunk boundaries do not matter.**  A new conversion, of any formats, channels and settings
that are accepted, is fed chunks of whole frames.  Let the rate backend use full batches completely,
and let memory hold the output reserved for all chunks together.  Then the chunks give what they
give together, in one call, and leave the conversion in the same state; so the end of the stream
gives the same as well. -/
theorem convert_chunks {P : RateProvider σ} (hpacing : P.pacing = Pacing.floating)
    {settings : Settings} {source target : StreamParams}
    (hcreate : create P settings source target = .ok c)
    (hbackend : ∀ b, P.build settings source.rate target.rate source.channels = .ok b →
      P.backend.TakesFullBatches source.channels.toNat b)
    (chunks : List (List UInt8)) (hframes : ∀ x ∈ chunks, source.frameBytes ∣ x.length)
    (hmemory : (c.convert chunks.flatten).1 ≠ .error (.fault .outOfMemory)) :
    (∃ out c', c.convert chunks.flatten = (.ok out, c') ∧
      feed convert c chunks = (.ok out, c')) ∧
      feedThen convert flush c chunks = feedThen convert flush c [chunks.flatten] := by
  have hc := accepted_of_create hcreate
  have hchunks : ∃ out c', c.convert chunks.flatten = (.ok out, c') ∧
      feed convert c chunks = (.ok out, c') := by
    obtain ⟨-, -, resampler, rfl, hresampler⟩ := create_eq_ok hcreate
    rcases hresampler with ⟨-, rfl⟩ | ⟨-, r, rfl, hbuild⟩
    · obtain ⟨out, hwhole, hpieces⟩ := feed_of_none hc rfl hframes
      exact ⟨out, _, hwhole, hpieces⟩
    · obtain ⟨hmachine, b, hbuilt, hstart⟩ := RunningResampler.build_eq_ok hbuild
      have hchannels : r.machine.channels = source.channels.toNat := by
        rw [hmachine]
        exact Nat.max_eq_left hc.channels_pos
      refine feed_of_new_resampler hc rfl hstart hchannels (by rw [hmachine, ← hpacing]; rfl) ?_
        hframes hmemory
      rw [hchannels, show r.machine.backend = P.backend by rw [hmachine]; rfl]
      exact hbackend b hbuilt
  refine ⟨hchunks, ?_⟩
  obtain ⟨out, c', hwhole, hpieces⟩ := hchunks
  rw [feedThen, feedThen, feed_singleton, hwhole, hpieces]

/-- Backends that send every frame of six channels twice, in batches of two frames. -/
def doubling : RateProvider Unit where
  backend := Rehearsal.repeating 6 2 2
  build _ _ _ _ := .ok ()
  pacing := Pacing.floating

theorem doubling_takesFullBatches (b : Unit) : doubling.backend.TakesFullBatches 6 b := by
  intro calls b' _ hfull call hcall
  obtain ⟨hfinal, hframes, -, -⟩ := hfull call hcall
  refine ⟨_, rfl, ?_, fun _ => ⟨hframes, ?_⟩⟩
  · simp [doubling, Rehearsal.repeating, hfinal, hframes]
  · rw [hframes]
    exact (show 1 ≤ 2 by decide)

/-- Six channels of packed big-endian samples, folded into unsigned stereo at twice the rate, in
chunks of one frame, none and three. -/
theorem convert_chunks_doubling :
    ∃ (c : Conversion Unit) (chunks : List (List UInt8)),
      create doubling {} ⟨24000, 6, ⟨.s24Packed, .big⟩⟩ ⟨48000, 2, ⟨.u16, .big⟩⟩ = .ok c ∧
        chunks = [List.replicate 18 1, [], List.replicate 54 200] ∧
        (∃ out c', c.convert chunks.flatten = (.ok out, c') ∧
          feed convert c chunks = (.ok out, c')) ∧
          feedThen convert flush c chunks = feedThen convert flush c [chunks.flatten] := by
  have hcreate : create doubling {} ⟨24000, 6, ⟨.s24Packed, .big⟩⟩ ⟨48000, 2, ⟨.u16, .big⟩⟩ =
      .ok _ := rfl
  refine ⟨_, _, hcreate, rfl, ?_⟩
  refine convert_chunks rfl hcreate (fun b _ => doubling_takesFullBatches b) _ (by decide)
    fun hfault => ?_
  have hrun := congrArg (fun result => result.toOption.isSome) hfault
  revert hrun
  decide +kernel

end Conversion

end PcmConversion
