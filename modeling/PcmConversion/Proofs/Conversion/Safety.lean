import PcmConversion.Proofs.Conversion.Requests
import PcmConversion.Proofs.Rate.Standard

/-!
# Accepted conversions keep their promises

What `Conversion.create` checks is enough for every later request: no stage is handed what it
refuses, and what is returned is made of whole frames of the target (`perform_safe`).
-/

namespace PcmConversion

variable {σ : Type}

theorem map_eq_error {α β ε : Type} {x : Except ε α} {f : α → β} {e : ε}
    (h : x.map f = .error e) : x = .error e := by
  cases x with
  | error e' => exact congrArg Except.error (Except.error.inj h)
  | ok a => cases h

theorem map_eq_ok {α β ε : Type} {x : Except ε α} {f : α → β} {y : β} (h : x.map f = .ok y) :
    ∃ a, x = .ok a ∧ f a = y := by
  cases x with
  | error e => cases h
  | ok a => exact ⟨a, rfl, Except.ok.inj h⟩

namespace Resampler

variable {R : Resampler σ} {s : State σ} {request : Request}

theorem serve_not_refusal (hB : R.backend.NeverRefuses) {fault : Fault}
    (h : (R.serve s request).1 = .error (.fault fault)) : fault.isRefusal = false := by
  cases request with
  | chunk input => exact (explains_process h).not_refusal hB
  | drain => exact (explains_drain h).not_refusal hB
  | reset => cases h

theorem serve_dvd_length {out : List Binary32} (h : (R.serve s request).1 = .ok out) :
    R.channels ∣ out.length := by
  cases request with
  | chunk input => exact process_dvd_length (Prod.ext h rfl)
  | drain => exact drain_dvd_length h
  | reset =>
      obtain rfl := Except.ok.inj h
      exact Nat.dvd_zero _

end Resampler

namespace Conversion

variable {c : Conversion σ} {s : Samples} {b b' : SampleBuffer}

/-! ## The format of what is returned -/

/-- The buffer whose bytes are returned, with the format that describes them. -/
def lastBuffer (c : Conversion σ) (s : Samples) : Except Fault SampleBuffer :=
  ((c.foldFloats s >>= c.encode) >>= c.mix).map (·.swapTo c.target.format.order)

theorem finish_eq_lastBuffer (c : Conversion σ) (s : Samples) :
    c.finish s = (c.lastBuffer s).map (·.data) := by
  simp only [finish_eq, lastBuffer]
  cases (c.foldFloats s >>= c.encode) >>= c.mix <;> rfl

theorem type_encode (h : c.encode s = .ok b) : b.format.type = c.target.format.type := by
  unfold encode at h
  cases s with
  | floats xs =>
      simp only at h
      split_ifs at h with hfloat
      · obtain rfl := Except.ok.inj h
        revert hfloat
        cases c.target.format.type <;> simp [SampleType.isFloat, SampleBuffer.ofFloats]
      · simp only [SampleBuffer.quantise, hfloat, Bool.false_eq_true, if_false,
          Except.ok.injEq] at h
        rw [← h]
  | integers b₀ =>
      simp only at h
      split_ifs at h with htoggled hsame
      · simp only [SampleBuffer.toggleSign, htoggled, Except.ok.injEq] at h
        rw [← h]
        rfl
      · rw [← Except.ok.inj h, hsame]
      · simp only [bind, Except.bind] at h
        cases hdecode : b₀.decode with
        | error fault => simp [hdecode] at h
        | ok xs =>
            simp only [hdecode, SampleBuffer.quantise] at h
            split_ifs at h
            rw [← Except.ok.inj h]

theorem format_mix (h : c.mix b = .ok b') : b'.format = b.format := by
  unfold mix SampleBuffer.remap SampleBuffer.downmix at h
  simp only at h
  split_ifs at h
  all_goals
    rw [← Except.ok.inj h]
    try rfl

theorem format_lastBuffer (h : c.lastBuffer s = .ok b) : b.format = c.target.format := by
  obtain ⟨b₂, hmixed, rfl⟩ := map_eq_ok h
  obtain ⟨b₁, hencoded, hmix⟩ := bind_eq_ok hmixed
  obtain ⟨t, -, hencode⟩ := bind_eq_ok hencoded
  have htype : b₂.format.type = c.target.format.type := by
    rw [format_mix hmix, type_encode hencode]
  rw [SampleBuffer.swapTo, SampleFormat.withOrder, htype]

/-! ## Sessions -/

theorem target_perform (c : Conversion σ) (request : Request) :
    (c.perform request).2.target = c.target := by
  obtain ⟨resampler, -, hnext⟩ := exists_perform_snd c request
  rw [hnext]

theorem target_stateAfter (c : Conversion σ) (requests : List Request) :
    (stateAfter perform c requests).target = c.target := by
  refine stateAfter_invariant (P := fun c' : Conversion σ => c'.target = c.target) ?_ rfl requests
  exact fun c' request h => (target_perform c' request).trans h

variable {P : RateProvider σ} {settings : Settings} {source target : StreamParams}
  {c₀ : Conversion σ}

/-- A conversion at equal rates answers every request on its own. -/
theorem exists_perform_of_rates_eq (hcreate : create P settings source target = .ok c₀)
    (hrates : source.rate = target.rate) (requests : List Request) :
    ∃ f, Framewise source.frameBytes target.frameBytes f ∧
      (∀ input, (stateAfter perform c₀ requests).convert input = (.ok (f input), c₀)) ∧
      (stateAfter perform c₀ requests).flush = (.ok [], c₀) := by
  obtain ⟨hsource, htarget⟩ := streams_of_create hcreate
  rcases resampler_of_create hcreate with ⟨-, hnone⟩ | ⟨hne, -⟩
  case inr => exact absurd hrates hne
  obtain ⟨f, hf, hconvert⟩ := exists_convert_of_none (accepted_of_create hcreate) hnone
  rw [stateAfter_of_none hnone]
  rw [hsource, htarget] at hf
  exact ⟨f, hf, hconvert, flush_of_none hnone⟩

/-- A conversion at different rates answers with what its resampler answers, as target frames. -/
theorem exists_perform_of_rates_ne (hcreate : create P settings source target = .ok c₀)
    (hrates : source.rate ≠ target.rate) (requests : List Request) :
    ∃ (R : Resampler σ) (s : Resampler.State σ) (f : List Binary32 → List UInt8),
      R.backend = P.backend ∧ Framewise R.channels target.frameBytes f ∧
      ∀ request, ∃ request', ((stateAfter perform c₀ requests).perform request).1 =
        (R.serve s request').1.map f := by
  obtain ⟨hsource, htarget⟩ := streams_of_create hcreate
  rcases resampler_of_create hcreate with ⟨heq, -⟩ | ⟨-, r, b, hsome, hnew⟩
  case inl => exact absurd heq hrates
  obtain ⟨g, f, -, hf, hload, hfinish⟩ :=
    exists_stages (accepted_of_create hcreate) (by rw [hsome]; rfl)
  have hsession := stateAfter_of_some (r := r) hload hfinish hf.nil r.state requests
  generalize stateAfter r.machine.serve r.state _ = s at hsession
  rw [withState_self hsome] at hsession
  rw [hsession]
  rw [hsource, htarget, ← hnew.channels] at hf
  refine ⟨r.machine, s, f, hnew.backend, hf, fun request => ⟨request.forResampler g, ?_⟩⟩
  exact congrArg Prod.fst (perform_of_some hload hfinish hf.nil s request)

/-- **Accepted conversions keep their promises.**  A new conversion is sent any requests, chunks of
any lengths among them, over a backend whose faults are its own.  Whatever is asked of it then,

* no stage refuses what it is handed;
* at equal rates every chunk is answered, and whole source frames become as many target frames;
* at different rates every answer is made of whole target frames;
* the bytes returned are those of a buffer that is labelled with the format of the target. -/
theorem perform_safe (hcreate : create P settings source target = .ok c₀)
    (hbackend : P.backend.NeverRefuses) (requests : List Request) :
    (∀ request fault, ((stateAfter perform c₀ requests).perform request).1 =
      .error (.fault fault) → fault.isRefusal = false) ∧
    (source.rate = target.rate → ∀ input, ∃ out c',
      (stateAfter perform c₀ requests).convert input = (.ok out, c') ∧
      (source.frameBytes ∣ input.length →
        out.length = input.length / source.frameBytes * target.frameBytes)) ∧
    (source.rate ≠ target.rate → ∀ request out,
      ((stateAfter perform c₀ requests).perform request).1 = .ok out →
        target.frameBytes ∣ out.length) ∧
    ∀ samples out, (stateAfter perform c₀ requests).finish samples = .ok out →
      ∃ buffer, (stateAfter perform c₀ requests).lastBuffer samples = .ok buffer ∧
        buffer.format = target.format.resolved ∧ buffer.data = out := by
  refine ⟨fun request fault hfault => ?_, fun hrates input => ?_,
    fun hrates request out hout => ?_, fun samples out hout => ?_⟩
  · by_cases hrates : source.rate = target.rate
    · obtain ⟨f, -, hconvert, hflush⟩ := exists_perform_of_rates_eq hcreate hrates requests
      cases request with
      | chunk input => exact nomatch (congrArg Prod.fst (hconvert input)).symm.trans hfault
      | flush => exact nomatch (congrArg Prod.fst hflush).symm.trans hfault
    · obtain ⟨R, s, f, hR, -, hperform⟩ := exists_perform_of_rates_ne hcreate hrates requests
      obtain ⟨request', heq⟩ := hperform request
      rw [heq] at hfault
      exact Resampler.serve_not_refusal (hR ▸ hbackend) (map_eq_error hfault)
  · obtain ⟨f, hf, hconvert, -⟩ := exists_perform_of_rates_eq hcreate hrates requests
    exact ⟨f input, c₀, hconvert input, hf.length input⟩
  · obtain ⟨R, s, f, -, hf, hperform⟩ := exists_perform_of_rates_ne hcreate hrates requests
    obtain ⟨request', heq⟩ := hperform request
    rw [heq] at hout
    obtain ⟨tail, htail, rfl⟩ := map_eq_ok hout
    exact hf.dvd_length (Resampler.serve_dvd_length htail)
  · rw [finish_eq_lastBuffer] at hout
    obtain ⟨buffer, hbuffer, rfl⟩ := map_eq_ok hout
    refine ⟨buffer, hbuffer, ?_, rfl⟩
    rw [format_lastBuffer hbuffer, target_stateAfter, (streams_of_create hcreate).2]

/-- Six channels of packed samples at twice the rate, folded into unsigned stereo, after a chunk
that ends within a sample and the end of its stream. -/
theorem perform_safe_standard :
    ∃ c₀ : Conversion StandardBackend,
      create RateProvider.standard { method := .zeroOrderHold } ⟨24000, 6, ⟨.s24Packed, .big⟩⟩
        ⟨48000, 2, ⟨.u16, .big⟩⟩ = .ok c₀ ∧
      (∀ request fault,
        ((stateAfter perform c₀ [.chunk (List.replicate 37 1), .flush]).perform request).1 =
          .error (.fault fault) → fault.isRefusal = false) ∧
      ∀ request out,
        ((stateAfter perform c₀ [.chunk (List.replicate 37 1), .flush]).perform request).1 =
          .ok out → 4 ∣ out.length := by
  have hrun : (create RateProvider.standard { method := .zeroOrderHold }
      ⟨24000, 6, ⟨.s24Packed, .big⟩⟩ ⟨48000, 2, ⟨.u16, .big⟩⟩).toOption.isSome = true := by
    decide +kernel
  cases hcreate : create RateProvider.standard { method := .zeroOrderHold }
      ⟨24000, 6, ⟨.s24Packed, .big⟩⟩ ⟨48000, 2, ⟨.u16, .big⟩⟩ with
  | error failure =>
      rw [hcreate] at hrun
      cases hrun
  | ok c₀ =>
      obtain ⟨hfaults, -, hframes, -⟩ := perform_safe hcreate StandardBackend.regular.neverRefuses
        [.chunk (List.replicate 37 1), .flush]
      exact ⟨c₀, rfl, hfaults, hframes (by decide)⟩

end Conversion

end PcmConversion
