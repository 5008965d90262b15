import PcmConversion.Proofs.Conversion.Requests
import PcmConversion.Rate.Rehearsal

/-!
# A conversion after the end of a stream

After `Conversion.flush` has returned, whatever it returned, a conversion answers like a new one for
the same streams (`results_after_flush`), because its resampler does.
-/

namespace PcmConversion.Conversion

variable {σ : Type} {P : RateProvider σ} {settings : Settings} {source target : StreamParams}
  {c₀ : Conversion σ}

/-- The first request to end the stream of a new conversion gives nothing. -/
theorem flush_of_create (hcreate : create P settings source target = .ok c₀) :
    c₀.flush.1 = .ok [] := by
  rcases resampler_of_create hcreate with ⟨-, hnone⟩ | ⟨-, r, b, hsome, hnew⟩
  · exact congrArg Prod.fst (flush_of_none hnone)
  · obtain ⟨-, f, -, hf, -, hfinish⟩ :=
      exists_stages (accepted_of_create hcreate) (by rw [hsome]; rfl)
    obtain ⟨-, hcarryover, -, -, hframesIn, -⟩ := Resampler.start_fields hnew.start
    have hnothing : r.machine.carryoverFrames r.state = 0 ∧ r.state.framesIn = 0 :=
      ⟨by simp [Resampler.carryoverFrames, hcarryover], hframesIn⟩
    rw [flush_of_some hsome hfinish hf.nil, Resampler.drain_nothing hnothing]
    exact congrArg Except.ok hf.nil

/-- A conversion whose stream has ended answers like a new one. -/
theorem results_after_flush (hcreate : create P settings source target = .ok c₀)
    (hrenews : ∀ b, P.build settings source.rate target.rate source.channels = .ok b →
      P.backend.Renews source.channels.toNat b)
    (history later : List Request)
    (hreturns : ∀ fault, (stateAfter perform c₀ history).flush.1 ≠ .error (.fault fault)) :
    results perform (stateAfter perform c₀ (history ++ [.flush])) later =
      results perform c₀ later := by
  rcases resampler_of_create hcreate with ⟨-, hnone⟩ | ⟨-, r, b, hsome, hnew⟩
  · rw [stateAfter_of_none hnone]
  obtain ⟨g, f, -, hf, hload, hfinish⟩ :=
    exists_stages (accepted_of_create hcreate) (by rw [hsome]; rfl)
  have hsession := stateAfter_of_some (r := r) hload hfinish hf.nil r.state
  have hanswers := results_of_some (r := r) hload hfinish hf.nil
  rw [withState_self hsome] at hsession
  -- The end of the stream returned, so that of the resampler's stream did.
  have hend : ∀ fault, (r.machine.serve (stateAfter r.machine.observe r.state
      (history.map (Request.forResampler g))) .drain).1 ≠ .error (.fault fault) := by
    intro fault hfault
    rw [Resampler.stateAfter_observe] at hfault
    have hflush := congrArg Prod.fst (perform_of_some (r := r) hload hfinish hf.nil
      (stateAfter r.machine.serve r.state (history.map (Request.forResampler g))) .flush)
    rw [← hsession] at hflush
    exact hreturns fault (hflush.trans (congrArg (Except.map f) hfault))
  have hrenewed := Resampler.results_after_end hnew.start
    (hnew.backend ▸ hnew.channels ▸ hrenews b hnew.built) (history.map (Request.forResampler g))
    (later.map (Request.forResampler g)) .drain trivial hend
  rw [hsession, hanswers, List.map_append, List.map_singleton, Request.forResampler,
    ← Resampler.stateAfter_observe, Resampler.results_serve, hrenewed, ← Resampler.results_serve,
    ← hanswers, withState_self hsome]

/-- **The end of a stream is a fresh start.**  Over backends that a reset renews, and that write
the frames that they report:

* a resampler with any history that ends with a reset, or with a drain that returned a result or an
  error, is seen to answer all later requests like the resampler that was built, and holds as many
  frames back;
* so is a conversion with any history that ends with a flush, and a second flush in a row gives
  nothing. -/
theorem fresh_start :
    (∀ (R : Resampler σ) (b : σ) (s₀ : Resampler.State σ), R.start b = .ok s₀ →
      R.backend.Renews R.channels b →
      ∀ (history later : List Resampler.Request) (last : Resampler.Request), last.EndsStream →
        (∀ fault, (R.serve (stateAfter R.observe s₀ history) last).1 ≠ .error (.fault fault)) →
        results R.observe (stateAfter R.observe s₀ (history ++ [last])) later =
          results R.observe s₀ later) ∧
    ∀ (P : RateProvider σ) (settings : Settings) (source target : StreamParams)
      (c₀ : Conversion σ), create P settings source target = .ok c₀ →
      (∀ b, P.build settings source.rate target.rate source.channels = .ok b →
        P.backend.Renews source.channels.toNat b) →
      ∀ history later : List Request,
        (∀ fault, (stateAfter perform c₀ history).flush.1 ≠ .error (.fault fault)) →
        results perform (stateAfter perform c₀ (history ++ [.flush])) later =
            results perform c₀ later ∧
          (stateAfter perform c₀ (history ++ [.flush])).flush.1 = .ok [] := by
  refine ⟨fun R b s₀ hstart hrenews history later last hends hreturns =>
    Resampler.results_after_end hstart hrenews history later last hends hreturns, ?_⟩
  intro P settings source target c₀ hcreate hrenews history later hreturns
  refine ⟨results_after_flush hcreate hrenews history later hreturns, ?_⟩
  have hsecond := results_after_flush hcreate hrenews history [.flush] hreturns
  exact (List.cons.inj hsecond).1.trans (flush_of_create hcreate)

/-- Backends that turn two stereo frames into three, but for every second call, which fails. -/
def faltering : RateProvider Nat where
  backend := Rehearsal.scripted 2 ⟨[2], [.counts 2 3, .fail "lost"], 3, 1⟩
  build _ _ _ _ := .ok 0
  pacing := Pacing.exact

/-- A script starts again at its first line and writes the frames that it reports. -/
theorem scripted_renews (channels : Nat) (script : Rehearsal.Script) :
    (Rehearsal.scripted channels script).Renews channels 0 where
  reset _ _ := rfl
  writes call _ yield hanswer := by
    simp only [RateBackend.answer, Rehearsal.scripted] at hanswer
    split at hanswer
    · cases hanswer
    · cases hanswer
    · split_ifs at hanswer
      obtain rfl := Except.ok.inj hanswer
      simp only
      rw [length_flatMap_of_length fun j _ => by rw [List.length_map, List.length_range],
        List.length_range]

/-- A stream that is lost at its end, for the resampler and for a conversion with one. -/
theorem fresh_start_faltering :
    let R : Resampler Nat := .over faltering.backend 2 (.exact 2 3)
    let s₀ : Resampler.State Nat := ⟨0, [], ⟨6, []⟩, 1, 0, 0⟩
    let stream := [Resampler.Request.chunk (List.replicate 5 ⟨0x3f800000⟩), .drain]
    results R.observe (stateAfter R.observe s₀ stream) stream = results R.observe s₀ stream ∧
      ∃ c₀ : Conversion Nat,
        create faltering {} ⟨32000, 2, ⟨.s16, .big⟩⟩ ⟨48000, 2, ⟨.u24, .big⟩⟩ = .ok c₀ ∧
        results perform (stateAfter perform c₀ [.chunk (List.replicate 11 5), .flush])
            [.chunk (List.replicate 11 7), .flush] =
          results perform c₀ [.chunk (List.replicate 11 7), .flush] ∧
        (stateAfter perform c₀ [.chunk (List.replicate 11 5), .flush]).flush.1 = .ok [] := by
  intro R s₀ stream
  obtain ⟨hresampler, hconversion⟩ := fresh_start (σ := Nat)
  refine ⟨?_, ?_⟩
  · have hlost : (R.serve (stateAfter R.observe s₀
        [.chunk (List.replicate 5 ⟨0x3f800000⟩)]) .drain).1 =
          .error (.error (.backend "script" "lost")) := by decide +kernel
    refine hresampler R 0 s₀ rfl (scripted_renews 2 _) [.chunk (List.replicate 5 ⟨0x3f800000⟩)]
      stream .drain trivial fun fault hfault => ?_
    rw [hlost] at hfault
    cases hfault
  · have hcreate : create faltering {} ⟨32000, 2, ⟨.s16, .big⟩⟩ ⟨48000, 2, ⟨.u24, .big⟩⟩ =
        .ok _ := rfl
    refine ⟨_, hcreate, ?_⟩
    have hrenews : ∀ b, faltering.build {} 32000 48000 2 = .ok b →
        faltering.backend.Renews 2 b := by
      rintro b hb
      obtain rfl := Except.ok.inj hb
      exact scripted_renews 2 _
    refine hconversion faltering {} _ _ _ hcreate hrenews [.chunk (List.replicate 11 5)]
      [.chunk (List.replicate 11 7), .flush] fun fault hfault => ?_
    have hlost := hfault.symm.trans (show _ = Except.error
      (.error (.backend "script" "lost")) by decide +kernel)
    cases hlost

end PcmConversion.Conversion
