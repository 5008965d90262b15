import PcmConversion.Conversion
import PcmConversion.Proofs.Sample.Stages

/-!
# Accepted conversions

What `Conversion.create` leaves to be relied on: the conversion that it sets up is planned from the
two streams alone, but for the resampler (`create_eq_ok`), and meets the demands of its stages
(`accepted_of_create`).
-/

namespace PcmConversion

variable {σ : Type} {P : RateProvider σ} {settings : Settings}

namespace RunningResampler

/-- A resampler that was built is a new one, over a backend as its provider built it. -/
theorem build_eq_ok {source target : UInt32} {channels : UInt16} {r : RunningResampler σ}
    (h : build P settings source target channels = .ok r) :
    r.machine = .over P.backend channels.toNat (P.pacing source.toNat target.toNat) ∧
      ∃ b, P.build settings source target channels = .ok b ∧ r.machine.start b = .ok r.state := by
  unfold build at h
  cases hbuild : P.build settings source target channels with
  | error failure => simp [hbuild, bind, Except.bind] at h
  | ok b =>
      cases hstart : (Resampler.over P.backend channels.toNat
          (P.pacing source.toNat target.toNat)).start b with
      | error fault => simp [hbuild, hstart, bind, Except.bind, liftFault] at h
      | ok s =>
          simp only [hbuild, hstart, bind, Except.bind, liftFault, pure, Except.pure,
            Except.ok.injEq] at h
          subst h
          exact ⟨rfl, b, rfl, hstart⟩

end RunningResampler

namespace Conversion

variable {source target : StreamParams} {c : Conversion σ}

/-- Whether 5.1 is folded on the floats between two streams. -/
def foldsFloats (source target : StreamParams) : Bool :=
  source.channels = 6 && target.channels = 2 && !Downmix.supports target.format.type

/-- The conversion between two streams, with a resampler or without. -/
def planned (source target : StreamParams) (resampler : Option (RunningResampler σ)) :
    Conversion σ where
  source
  target := { target with format := target.format.resolved }
  narrowing :=
    if source.rate = target.rate && !foldsFloats source target then
      Narrowing.select source.format.type target.format.type
    else none
  floatDownmix := foldsFloats source target
  resampler

/-- The resampler that the rates of two streams call for, if any. -/
def resamplerFor (P : RateProvider σ) (settings : Settings) (source target : StreamParams) :
    Except Failure (Option (RunningResampler σ)) :=
  if source.rate = target.rate then .ok none
  else if settings.enableResample then
    some <$> RunningResampler.build P settings source.rate target.rate source.channels
  else .error (.error (.resamplingDisabled source.rate target.rate))

/-- Which conversions are set up between two streams. -/
theorem create_eq_ok_iff :
    create P settings source target = .ok c ↔
      source.isValid = true ∧ target.isValid = true ∧
        remapSupported source.channels target.channels = true ∧
        ∃ resampler, resamplerFor P settings source target = .ok resampler ∧
          c = planned source target resampler := by
  unfold create
  simp only [bind, Except.bind, pure, Except.pure, throw, throwThe, MonadExceptOf.throw]
  by_cases hsource : source.isValid = true
  case neg => simp [hsource]
  by_cases htarget : target.isValid = true
  case neg => simp [hsource, htarget]
  by_cases hremap : remapSupported source.channels target.channels = true
  case neg => simp [hsource, htarget, hremap]
  simp only [hsource, htarget, hremap, Bool.not_true, Bool.false_eq_true, if_false, true_and]
  unfold resamplerFor
  by_cases hrates : source.rate = target.rate
  · rw [if_pos hrates, if_pos hrates]
    show Except.ok (planned source target none) = .ok c ↔ _
    simp [eq_comm]
  by_cases henabled : settings.enableResample = true
  · rw [if_neg hrates, if_neg hrates, if_pos henabled, if_pos henabled]
    cases some <$> RunningResampler.build P settings source.rate target.rate source.channels with
    | error failure => simp
    | ok resampler =>
        show Except.ok (planned source target resampler) = .ok c ↔ _
        simp [eq_comm]
  · simp [hrates, henabled]

theorem create_eq_ok (h : create P settings source target = .ok c) :
    source.isValid = true ∧ remapSupported source.channels target.channels = true ∧
      ∃ resampler, c = planned source target resampler ∧
        (source.rate = target.rate ∧ resampler = none ∨
          source.rate ≠ target.rate ∧ ∃ r, resampler = some r ∧
            RunningResampler.build P settings source.rate target.rate source.channels = .ok r) := by
  obtain ⟨hsource, -, hremap, resampler, hresampler, rfl⟩ := create_eq_ok_iff.1 h
  refine ⟨hsource, hremap, resampler, rfl, ?_⟩
  unfold resamplerFor at hresampler
  split_ifs at hresampler with hrates henabled
  · exact .inl ⟨hrates, (Except.ok.inj hresampler).symm⟩
  · cases hbuild : RunningResampler.build P settings source.rate target.rate source.channels with
    | error failure =>
        rw [hbuild] at hresampler
        cases hresampler
    | ok r =>
        rw [hbuild] at hresampler
        exact .inr ⟨hrates, r, (Except.ok.inj hresampler).symm, rfl⟩

theorem streams_of_create (h : create P settings source target = .ok c) :
    c.source = source ∧ c.target = { target with format := target.format.resolved } := by
  obtain ⟨-, -, resampler, rfl, -⟩ := create_eq_ok h
  exact ⟨rfl, rfl⟩

theorem isValid_of_create (h : create P settings source target = .ok c) :
    source.isValid = true ∧ target.isValid = true := by
  obtain ⟨hsource, htarget, -⟩ := create_eq_ok_iff.1 h
  exact ⟨hsource, htarget⟩

/-- A resampler as a conversion between two streams sets it up, over the backend state `b`. -/
structure NewResampler (P : RateProvider σ) (settings : Settings) (source target : StreamParams)
    (r : RunningResampler σ) (b : σ) : Prop where
  backend : r.machine.backend = P.backend
  channels : r.machine.channels = source.channels.toNat
  pacing : r.machine.pacing = P.pacing source.rate.toNat target.rate.toNat
  built : P.build settings source.rate target.rate source.channels = .ok b
  start : r.machine.start b = .ok r.state

/-- What the stages of a conversion demand of it. -/
structure Accepted (c : Conversion σ) : Prop where
  channels_pos : 0 < c.source.channels.toNat
  remapSupported : remapSupported c.source.channels c.target.channels = true
  floatDownmix : c.floatDownmix = true ↔
    c.source.channels = 6 ∧ c.target.channels = 2 ∧
      Downmix.supports c.target.format.type = false
  narrowing : ∀ n, c.narrowing = some n → c.source.format.type.bytes = 4
  rates : c.resampler.isSome → c.source.rate ≠ c.target.rate

theorem accepted_of_create (h : create P settings source target = .ok c) : c.Accepted := by
  obtain ⟨hsource, hremap, resampler, rfl, hresampler⟩ := create_eq_ok h
  refine ⟨?_, hremap, ?_, ?_, ?_⟩
  · -- A stream of no channels is not valid.
    simp only [StreamParams.isValid, Bool.and_eq_true, bne_iff_ne, ne_eq] at hsource
    refine Nat.pos_of_ne_zero fun hnone => hsource.2 ?_
    exact UInt16.toNat_inj.1 hnone
  · simp [planned, foldsFloats, SampleFormat.resolved, and_assoc]
  · intro n hn
    simp only [planned] at hn
    split at hn
    · exact Narrowing.bytes_of_select hn
    · cases hn
  · intro hsome
    rcases hresampler with ⟨-, rfl⟩ | ⟨hrates, -⟩
    · cases hsome
    · exact hrates

/-- There is a resampler if and only if the rates differ, and it is a new one. -/
theorem resampler_of_create (h : create P settings source target = .ok c) :
    (source.rate = target.rate ∧ c.resampler = none) ∨
      source.rate ≠ target.rate ∧ ∃ r b, c.resampler = some r ∧
        NewResampler P settings source target r b := by
  have hc := accepted_of_create h
  obtain ⟨-, -, resampler, rfl, ⟨hrates, rfl⟩ | ⟨hrates, r, rfl, hbuild⟩⟩ := create_eq_ok h
  · exact .inl ⟨hrates, rfl⟩
  obtain ⟨hmachine, b, hbuilt, hstart⟩ := RunningResampler.build_eq_ok hbuild
  have hchannels : r.machine.channels = source.channels.toNat := by
    rw [hmachine]
    exact Nat.max_eq_left hc.channels_pos
  exact .inr ⟨hrates, r, b, rfl, by rw [hmachine]; rfl, hchannels, by rw [hmachine]; rfl, hbuilt,
    hstart⟩

end Conversion

end PcmConversion
