import PcmConversion.Proofs.Conversion.Requests
import PcmConversion.Proofs.Sample.Containers

/-!
# Values through a conversion

Between integer streams of one rate, whose channels are kept or doubled, a conversion treats each
value on its own (`values_convert`).  `SampleType.converted` says what a value becomes: it is cut
where a truncation is chosen, kept where at most the signedness changes, and decoded and quantised
otherwise.  The truncation leaves at most a sign toggle to be done (`outputType_of_select`), so
nothing is rounded twice.
-/

namespace PcmConversion

/-! ## One value -/

/-- A truncation ends at the type asked for, but for the signedness. -/
theorem Narrowing.outputType_of_select {n : Narrowing} {source target : SampleType}
    (h : select source target = some n) :
    n.outputType source = target ∨ (n.outputType source).toggledSign = some target := by
  revert h
  cases source <;> cases target <;> rintro ⟨⟩ <;> decide

namespace SampleType

/-- What a value is written as in another type where nothing is truncated: it is kept where at most
the signedness differs, and goes through floats otherwise. -/
def recoded (source target : SampleType) (v : Int) : Int :=
  if source = target ∨ source.toggledSign = some target then v
  else target.quantise (source.decode v)

/-- What a value becomes in another type where the rate stays. -/
def converted (source target : SampleType) (v : Int) : Int :=
  match Narrowing.select source target with
  | some n => v.fdiv (1 <<< n.shift : Nat)
  | none => recoded source target v

variable {source target : SampleType}

theorem recoded_of_kept (h : source = target ∨ source.toggledSign = some target) :
    recoded source target = id :=
  funext fun _ => if_pos h

theorem recoded_of_changed (h : ¬(source = target ∨ source.toggledSign = some target)) :
    recoded source target = fun v => target.quantise (source.decode v) :=
  funext fun _ => if_neg h

theorem converted_of_some {n : Narrowing} (h : Narrowing.select source target = some n) (v : Int) :
    converted source target v = v.fdiv (1 <<< n.shift : Nat) := by
  rw [converted, h]

theorem converted_of_none (h : Narrowing.select source target = none) :
    converted source target = recoded source target := by
  funext v
  rw [converted, h]

end SampleType

theorem SampleBuffer.values_monoToStereo (b : SampleBuffer) :
    b.monoToStereo.values = b.values.flatMap fun v => [v, v] := by
  have hgroups := b.wholeGroups_monoToStereo
  show (wholeGroups b.format.type.bytes b.monoToStereo.data).map b.format.read = _
  rw [hgroups, List.map_flatMap, values, SampleFormat.values, List.flatMap_map]
  rfl

/-- How often each sample of one stream stands in the other, where the channels are kept or doubled. -/
def StreamParams.copies (source target : StreamParams) : Nat :=
  if source.channels = target.channels then 1 else 2

namespace Conversion

variable {σ : Type} {c : Conversion σ} {b : SampleBuffer}

/-- A conversion between integer streams of one rate, whose channels are kept or doubled. -/
structure Plain (c : Conversion σ) : Prop where
  rates : c.source.rate = c.target.rate
  channels : c.source.channels = c.target.channels ∨ c.source.channels = 1 ∧ c.target.channels = 2
  source : c.source.format.type.isFloat = false
  target : c.target.format.type.isFloat = false
  resampler : c.resampler = none
  floatDownmix : c.floatDownmix = false
  narrowing : c.narrowing = Narrowing.select c.source.format.type c.target.format.type

/-! ## Stage by stage -/

theorem values_native (c : Conversion σ) (input : List UInt8) :
    (c.native input).values = c.source.format.values input := by
  unfold native
  by_cases hnative : c.source.format.isNative = true
  · exact (if_pos hnative).symm ▸ rfl
  · exact (if_neg hnative).symm ▸ SampleBuffer.values_swapTo _ _

theorem values_encode_integers (hc : c.Plain) (hnative : b.format.isNative = true)
    (hinteger : b.format.type.isFloat = false) :
    ∃ b', c.encode (.integers b) = .ok b' ∧ b'.format.type = c.target.format.type ∧
      b'.values = b.values.map (b.format.type.recoded c.target.format.type) := by
  by_cases htoggled : b.format.type.toggledSign = some c.target.format.type
  · obtain ⟨b', htoggle, htype, hvalues⟩ := SampleBuffer.values_toggleSign hnative htoggled
    refine ⟨b', (if_pos htoggled).trans htoggle, htype, ?_⟩
    rw [hvalues, SampleType.recoded_of_kept (.inr htoggled), List.map_id]
  by_cases hsame : b.format.type = c.target.format.type
  · refine ⟨b, (if_neg htoggled).trans (if_pos hsame), hsame, ?_⟩
    rw [SampleType.recoded_of_kept (.inl hsame), List.map_id]
  · obtain ⟨b', hquantise, htype, hvalues⟩ :=
      SampleBuffer.values_quantise (b.values.map b.format.type.decode) hc.target
    refine ⟨b', (if_neg htoggled).trans ((if_neg hsame).trans ?_), htype, ?_⟩
    · rw [SampleBuffer.decode_eq_map hnative hinteger]
      exact hquantise
    · rw [hvalues, List.map_map, SampleType.recoded_of_changed (not_or.2 ⟨hsame, htoggled⟩)]
      rfl

theorem values_encode_floats (hc : c.Plain) (xs : List Binary32) :
    ∃ b, c.encode (.floats xs) = .ok b ∧ b.format.type = c.target.format.type ∧
      b.values = xs.map c.target.format.type.quantise := by
  obtain ⟨b, hquantise, htype, hvalues⟩ := SampleBuffer.values_quantise xs hc.target
  refine ⟨b, ?_, htype, hvalues⟩
  simp only [encode, hc.target, Bool.false_eq_true, if_false]
  exact hquantise

/-- What the stages after the truncation make of a buffer. -/
theorem exists_encoded (hc : c.Plain) {input : List UInt8} (hb : c.normalise input = b)
    (hnative : b.format.isNative = true) (hinteger : b.format.type.isFloat = false) :
    ∃ s b', c.load input = .ok s ∧ c.foldFloats s = .ok s ∧ c.encode s = .ok b' ∧
      b'.format.type = c.target.format.type ∧
      b'.values = b.values.map (b.format.type.recoded c.target.format.type) := by
  have hneeds : c.needsFloats b.format = !b.format.sameWidth c.target.format := by
    simp [needsFloats, hc.rates, hc.floatDownmix, hc.target]
  by_cases hwidth : b.format.sameWidth c.target.format = true
  · obtain ⟨b', hencode, htype, hvalues⟩ := values_encode_integers hc hnative hinteger
    refine ⟨.integers b, b', ?_, rfl, hencode, htype, hvalues⟩
    simp [load, hb, hinteger, hneeds, hwidth]
  · obtain ⟨b', hencode, htype, hvalues⟩ :=
      values_encode_floats hc (b.values.map b.format.type.decode)
    refine ⟨_, b', ?_, foldFloats_eq_self hc.floatDownmix _, hencode, htype, ?_⟩
    · simp [load, hb, hinteger, hneeds, hwidth, SampleBuffer.decode_eq_map hnative hinteger]
    · -- What keeps its values keeps its width.
      have hchanged : ¬(b.format.type = c.target.format.type ∨
          b.format.type.toggledSign = some c.target.format.type) := by
        rintro (hsame | htoggled)
        · exact hwidth (by simp [SampleFormat.sameWidth, hsame])
        · exact hwidth (by
            simp [SampleFormat.sameWidth, SampleType.bytes_toggledSign htoggled])
      rw [hvalues, List.map_map, SampleType.recoded_of_changed hchanged]
      rfl

/-- The truncation, if there is one, is all that is done to the values. -/
theorem exists_normalised (hc : c.Plain) (input : List UInt8) :
    (c.normalise input).format.isNative = true ∧
      (c.normalise input).format.type.isFloat = false ∧
      (c.normalise input).values.map
          ((c.normalise input).format.type.recoded c.target.format.type) =
        (c.source.format.values input).map
          (c.source.format.type.converted c.target.format.type) := by
  obtain ⟨hnative, htype⟩ := format_native c input
  have hvalues := values_native c input
  cases hnarrowing : c.narrowing with
  | none =>
      rw [normalise_of_none hnarrowing, hvalues, htype,
        SampleType.converted_of_none (hc.narrowing.symm.trans hnarrowing)]
      exact ⟨hnative, hc.source, rfl⟩
  | some n =>
      have hselect : Narrowing.select c.source.format.type c.target.format.type = some n :=
        hc.narrowing.symm.trans hnarrowing
      have houtput : (n.apply (c.native input)).format.type = n.outputType c.source.format.type :=
        congrArg n.outputType htype
      have hhas := Narrowing.hasByteOrder_of_select hselect
      rw [← htype] at hselect hhas
      rw [normalise_of_some hnarrowing, houtput, SampleBuffer.values_apply hnative hselect, hvalues]
      rw [htype] at hselect
      have hkept := Narrowing.outputType_of_select hselect
      refine ⟨SampleBuffer.isNative_apply n hhas hnative,
        SampleType.isFloat_of_isMedium (Narrowing.widths_of_select hselect).2.1, ?_⟩
      rw [SampleType.recoded_of_kept hkept, List.map_id]
      exact List.map_congr_left fun v _ => (SampleType.converted_of_some hselect v).symm

theorem values_mix (hc : c.Plain) (b : SampleBuffer) :
    ∃ d, c.mix b = .ok d ∧ d.format = b.format ∧
      d.values = b.values.flatMap fun v => List.replicate (c.source.copies c.target) v := by
  by_cases hchannels : c.source.channels = c.target.channels
  · refine ⟨b, by simp [mix, hchannels], rfl, ?_⟩
    simp [StreamParams.copies, hchannels]
  · obtain ⟨hmono, hstereo⟩ := hc.channels.resolve_left hchannels
    refine ⟨b.monoToStereo, ?_, rfl, ?_⟩
    · simp [mix, hc.floatDownmix, hmono, hstereo, SampleBuffer.remap]
    · rw [SampleBuffer.values_monoToStereo, StreamParams.copies, if_neg hchannels]
      rfl

/-- The last stages repeat the values of what was encoded. -/
theorem values_finish (hc : c.Plain) {s : Samples} (hfold : c.foldFloats s = .ok s)
    (hencode : c.encode s = .ok b) (htype : b.format.type = c.target.format.type) :
    ∃ out, c.finish s = .ok out ∧ c.target.format.values out =
      b.values.flatMap fun v => List.replicate (c.source.copies c.target) v := by
  obtain ⟨d, hmix, hformat, hvalues⟩ := values_mix hc b
  refine ⟨(d.swapTo c.target.format.order).data, finish_of_stages hfold hencode hmix, ?_⟩
  have hlabel : (d.swapTo c.target.format.order).format = c.target.format := by
    rw [SampleBuffer.swapTo, SampleFormat.withOrder, hformat, htype]
  rw [← hvalues, ← hlabel]
  exact SampleBuffer.values_swapTo d _

/-- Every value is converted on its own. -/
theorem values_convert (hc : c.Plain) (input : List UInt8) :
    ∃ out, c.convert input = (.ok out, c) ∧ c.target.format.values out =
      (c.source.format.values input).flatMap fun v => List.replicate (c.source.copies c.target)
        (c.source.format.type.converted c.target.format.type v) := by
  obtain ⟨hnative, hinteger, hconverted⟩ := exists_normalised hc input
  obtain ⟨s, b, hload, hfold, hencode, htype, hvalues⟩ := exists_encoded hc rfl hnative hinteger
  obtain ⟨out, hfinish, hout⟩ := values_finish hc hfold hencode htype
  refine ⟨out, ?_, ?_⟩
  · rw [convert_of_none hc.resampler, hload]
    simp only [bind, Except.bind, hfinish, liftFault]
  · rw [hout, hvalues, hconverted, List.flatMap_map]

/-! ## From the streams alone -/

variable {source target : StreamParams} {P : RateProvider σ} {settings : Settings}

theorem plain_of_create (h : create P settings source target = .ok c)
    (hrates : source.rate = target.rate)
    (hchannels : source.channels = target.channels ∨ source.channels = 1 ∧ target.channels = 2)
    (hsource : source.format.type.isFloat = false) (htarget : target.format.type.isFloat = false) :
    c.Plain := by
  obtain ⟨-, -, resampler, rfl, ⟨-, rfl⟩ | ⟨hdiffer, -⟩⟩ := create_eq_ok h
  case inr => exact absurd hrates hdiffer
  have hfold : foldsFloats source target = false := by
    -- Six channels are neither one nor, where they are kept, two.
    by_contra hfolds
    simp only [foldsFloats, Bool.not_eq_false, Bool.and_eq_true, decide_eq_true_eq] at hfolds
    obtain ⟨⟨hsix, htwo⟩, -⟩ := hfolds
    rw [hsix, htwo] at hchannels
    exact absurd hchannels (by decide)
  exact {
    rates := hrates
    channels := hchannels
    source := hsource
    target := htarget
    resampler := rfl
    floatDownmix := hfold
    narrowing := by simp [planned, hrates, hfold, SampleFormat.resolved] }

/-- Values through a conversion, by the streams that it was set up for. -/
theorem converted_of_create (h : create P settings source target = .ok c)
    (hrates : source.rate = target.rate)
    (hchannels : source.channels = target.channels ∨ source.channels = 1 ∧ target.channels = 2)
    (hsource : source.format.type.isFloat = false) (htarget : target.format.type.isFloat = false)
    (input : List UInt8) :
    ∃ out, c.convert input = (.ok out, c) ∧ target.format.values out =
      (source.format.values input).flatMap fun v => List.replicate (source.copies target)
        (source.format.type.converted target.format.type v) := by
  obtain ⟨hfrom, hto⟩ := streams_of_create h
  have hconvert := values_convert (plain_of_create h hrates hchannels hsource htarget) input
  rw [hfrom, hto] at hconvert
  simp only [SampleFormat.values_resolved, SampleFormat.type_resolved] at hconvert
  exact hconvert

/-- Where the channels are kept there is one sample for each. -/
theorem converted_of_create_of_channels (h : create P settings source target = .ok c)
    (hrates : source.rate = target.rate) (hchannels : source.channels = target.channels)
    (hsource : source.format.type.isFloat = false) (htarget : target.format.type.isFloat = false)
    (input : List UInt8) :
    ∃ out, c.convert input = (.ok out, c) ∧ target.format.values out =
      (source.format.values input).map (source.format.type.converted target.format.type) := by
  obtain ⟨out, hconvert, hvalues⟩ :=
    converted_of_create h hrates (.inl hchannels) hsource htarget input
  refine ⟨out, hconvert, ?_⟩
  rw [hvalues, StreamParams.copies, if_pos hchannels]
  exact List.map_eq_flatMap.symm

end Conversion

end PcmConversion
