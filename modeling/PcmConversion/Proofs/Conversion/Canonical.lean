import PcmConversion.Proofs.Conversion.Safety
import PcmConversion.Proofs.Sample.Containers
import PcmConversion.Rate.Standard

/-!
# Containers come out canonical or flipped

A conversion into a 24-bit container writes the free byte of each word in one of two ways.  What was
quantised, truncated or copied is canonical.  What was only changed between signed and unsigned in
the end is flipped, because a toggle leaves the free byte alone (`containers_of_results`); so not all
words are canonical (`exists_not_canonical`).
-/

namespace PcmConversion

theorem Narrowing.select_container {source target : SampleType}
    (htarget : target.isContainer = true) :
    select source target = if source = .u32 ∨ source = .s32 then some bits32To24 else none := by
  revert htarget
  cases source <;> cases target <;> simp [select, SampleType.isContainer]

theorem Narrowing.outputType_bits32To24 {t : SampleType} (ht : t = .u32 ∨ t = .s32) :
    (bits32To24.outputType t).isContainer = true ∧ (bits32To24.outputType t).bytes = t.bytes ∧
      (bits32To24.outputType t).isFloat = t.isFloat ∧
      (bits32To24.outputType t).isSigned = t.isSigned := by
  rcases ht with rfl | rfl <;> decide

/-- Containers of one signedness are of one type. -/
theorem SampleType.container_ext {t u : SampleType} (ht : t.isContainer = true)
    (hu : u.isContainer = true) :
    (t = u ↔ t.isSigned = u.isSigned) ∧
      (t.toggledSign = some u ↔ t.isSigned ≠ u.isSigned) := by
  revert ht hu
  cases t <;> cases u <;> decide

namespace Conversion

variable {σ : Type} {source target : StreamParams} {resampler : Option (RunningResampler σ)}

/-- Whether a conversion between two streams, the second of containers, changes the sign of words in
its last stages: the words are read as four-byte integers of the other signedness, and neither a
change of rate nor a fold of channels makes floats of them. -/
def flipsSign (source target : StreamParams) : Bool :=
  source.rate = target.rate && !foldsFloats source target &&
    source.format.type.bytes = 4 && !source.format.type.isFloat &&
      source.format.type.isSigned != target.format.type.isSigned

/-! ## Reading -/

theorem each_native {c : Conversion σ} {P : List UInt8 → Prop} {input : List UInt8}
    (h : c.source.format.Each P input) : (c.native input).format.Each P (c.native input).data := by
  unfold native
  by_cases hnative : c.source.format.isNative = true
  · exact (if_pos hnative).symm ▸ h
  · exact (if_neg hnative).symm ▸ SampleBuffer.each_swapTo (b := ⟨input, c.source.format⟩) h _

theorem narrowing_container (source : StreamParams) (resampler : Option (RunningResampler σ))
    (htarget : target.format.type.isContainer = true) :
    (planned source target resampler).narrowing =
      if source.rate = target.rate ∧ foldsFloats source target = false ∧
        (source.format.type = .u32 ∨ source.format.type = .s32) then some .bits32To24 else none := by
  rw [planned, Narrowing.select_container htarget]
  by_cases hrates : source.rate = target.rate <;> cases hfold : foldsFloats source target <;>
    simp [hrates]

/-- Before anything becomes floats, samples keep their length and their signedness. -/
theorem layout_normalise (source : StreamParams) (resampler : Option (RunningResampler σ))
    (htarget : target.format.type.isContainer = true) (input : List UInt8) :
    let b := (planned source target resampler).normalise input
    b.format.isNative = true ∧ b.format.type.bytes = source.format.type.bytes ∧
      b.format.type.isFloat = source.format.type.isFloat ∧
        b.format.type.isSigned = source.format.type.isSigned := by
  intro b
  obtain ⟨hnative, htype⟩ := format_native (planned source target resampler) input
  have hnarrowing := narrowing_container source resampler htarget
  split_ifs at hnarrowing with hwide
  · have hwide' : ((planned source target resampler).native input).format.type = .u32 ∨
        ((planned source target resampler).native input).format.type = .s32 := htype ▸ hwide.2.2
    obtain ⟨-, hlayout⟩ := Narrowing.outputType_bits32To24 hwide'
    have hb : b = Narrowing.bits32To24.apply ((planned source target resampler).native input) :=
      normalise_of_some hnarrowing input
    rw [hb, show source.format.type = _ from htype.symm]
    exact ⟨(SampleBuffer.each_apply_bits32To24 hnative hwide').1, hlayout⟩
  · have hb : b = (planned source target resampler).native input :=
      normalise_of_none hnarrowing input
    rw [hb, htype]
    exact ⟨hnative, rfl, rfl, rfl⟩

/-- Words whose sign is to change stay integers. -/
theorem load_of_flipsSign (htarget : target.format.type.isContainer = true)
    (hflips : flipsSign source target = true) (input : List UInt8) :
    (planned source target resampler).load input =
      .ok (.integers ((planned source target resampler).normalise input)) := by
  obtain ⟨-, hbytes, hfloat, -⟩ :=
    layout_normalise source resampler htarget input
  simp only [flipsSign, Bool.and_eq_true, decide_eq_true_eq, Bool.not_eq_true'] at hflips
  obtain ⟨⟨⟨⟨hrates, hfold⟩, hfour⟩, hinteger⟩, -⟩ := hflips
  have hlayout := SampleType.layout_container htarget
  have hneeds : (planned source target resampler).needsFloats
      ((planned source target resampler).normalise input).format = false := by
    simp only [needsFloats, SampleFormat.sameWidth, hbytes, hfour]
    simp [planned, SampleFormat.resolved, hrates, hfold, hlayout]
  simp [load, hfloat, hinteger, hneeds]

/-- Words that stay integers are canonical before the last stages. -/
theorem container_of_load {input : List UInt8} {b : SampleBuffer}
    (htarget : target.format.type.isContainer = true)
    (hinput : source.format.type.isContainer = true →
      source.format.Each source.format.type.Canonical input)
    (hload : (planned source target resampler).load input = .ok (.integers b)) :
    b.format.isNative = true ∧ b.format.type.isContainer = true ∧
      b.format.Each b.format.type.Canonical b.data ∧
      flipsSign source target = (b.format.type.isSigned != target.format.type.isSigned) := by
  obtain ⟨rfl, hinteger, hneeds⟩ := load_eq_integers hload
  obtain ⟨hnative, hbytes, hfloat, hsigned⟩ :=
    layout_normalise source resampler htarget input
  simp only [needsFloats, SampleFormat.sameWidth, Bool.or_eq_false_iff, bne_eq_false_iff_eq,
    Bool.not_eq_false', decide_eq_true_eq] at hneeds
  obtain ⟨⟨⟨hrates, hfold⟩, -⟩, hwidth⟩ := hneeds
  replace hrates : source.rate = target.rate := hrates
  replace hfold : foldsFloats source target = false := hfold
  rw [hfloat] at hinteger
  have hsource : source.format.type.bytes = 4 := by
    rw [← hbytes, hwidth]
    exact (SampleType.layout_container htarget).1
  have hkept : flipsSign source target =
      (((planned source target resampler).normalise input).format.type.isSigned !=
        target.format.type.isSigned) := by
    simp [flipsSign, hrates, hfold, hsource, hinteger, hsigned]
  have hnarrowing := narrowing_container source resampler htarget
  obtain ⟨hnative', htype⟩ := format_native (planned source target resampler) input
  split_ifs at hnarrowing with hwide
  · have hwide' : ((planned source target resampler).native input).format.type = .u32 ∨
        ((planned source target resampler).native input).format.type = .s32 := htype ▸ hwide.2.2
    refine ⟨hnative, ?_, ?_, hkept⟩
    · rw [normalise_of_some hnarrowing]
      exact (Narrowing.outputType_bits32To24 hwide').1
    · rw [normalise_of_some hnarrowing]
      exact (SampleBuffer.each_apply_bits32To24 hnative' hwide').2
  · -- What is four bytes long and is not truncated was a container before.
    have hcontainer : source.format.type.isContainer = true := by
      have hnarrow : ¬(source.format.type = .u32 ∨ source.format.type = .s32) :=
        fun hwide' => hwide ⟨hrates, hfold, hwide'⟩
      revert hnarrow hsource hinteger
      cases source.format.type <;> decide
    have heach := each_native (c := planned source target resampler) (hinput hcontainer)
    rw [normalise_of_none hnarrowing] at hkept ⊢
    rw [htype] at hkept ⊢
    exact ⟨hnative', hcontainer, heach, hkept⟩

/-! ## Writing -/

section Writing

variable {c : Conversion σ} {s t : Samples} {b b' : SampleBuffer}

theorem each_encode_floats (hcontainer : c.target.format.type.isContainer = true)
    {xs : List Binary32} (h : c.encode (.floats xs) = .ok b) :
    b.format.Each c.target.format.type.Canonical b.data := by
  have hinteger := (SampleType.layout_container hcontainer).2
  simp only [encode, hinteger, Bool.false_eq_true, if_false] at h
  exact (SampleBuffer.each_quantise h).2

/-- Of canonical words those that change their sign are flipped, and the others stay. -/
theorem each_encode_integers (hcontainer : c.target.format.type.isContainer = true)
    (hnative : b.format.isNative = true) (hb : b.format.type.isContainer = true)
    (hcanonical : b.format.Each b.format.type.Canonical b.data)
    (h : c.encode (.integers b) = .ok b') :
    b'.format.Each (if b.format.type.isSigned != c.target.format.type.isSigned then
      c.target.format.type.Flipped else c.target.format.type.Canonical) b'.data := by
  obtain ⟨hsame, htoggled⟩ := SampleType.container_ext hb hcontainer
  by_cases hsign : b.format.type.isSigned = c.target.format.type.isSigned
  · have htype := hsame.2 hsign
    have hkept : ¬b.format.type.toggledSign = some c.target.format.type :=
      fun htoggle => htoggled.1 htoggle hsign
    obtain rfl : b = b' := Except.ok.inj (((if_neg hkept).trans (if_pos htype)).symm.trans h)
    simpa [hsign, htype] using hcanonical
  · have htoggle := htoggled.2 hsign
    simp only [encode, htoggle, if_true] at h
    simpa [hsign] using SampleBuffer.each_toggleSign hnative htoggle h hcanonical

/-- A change of channels repeats words, since containers are not folded in their own width. -/
theorem each_mix {P : List UInt8 → Prop} (hcontainer : b.format.type.isContainer = true)
    (hb : b.format.Each P b.data) (h : c.mix b = .ok b') : b'.format.Each P b'.data := by
  unfold mix SampleBuffer.remap at h
  split_ifs at h with hmix hmono hfold
  · obtain rfl := Except.ok.inj h
    exact SampleBuffer.each_monoToStereo hb
  · simp only [SampleBuffer.downmix, SampleType.downmix_container hcontainer] at h
    cases h
  · obtain rfl := Except.ok.inj h
    exact hb

theorem each_finish {P : List UInt8 → Prop} {out : List UInt8}
    (hcontainer : c.target.format.type.isContainer = true)
    (hencode : ∀ t b, c.foldFloats s = .ok t → c.encode t = .ok b → b.format.Each P b.data)
    (h : c.finish s = .ok out) : c.target.format.Each P out := by
  obtain ⟨t, b, b', hfold, hencoded, hmix, rfl⟩ := finish_eq_ok h
  have htype := type_encode hencoded
  have hmixed := each_mix (htype ▸ hcontainer) (hencode t b hfold hencoded) hmix
  have hformat : (b'.swapTo c.target.format.order).format = c.target.format := by
    rw [SampleBuffer.swapTo, SampleFormat.withOrder, format_mix hmix, htype]
  rw [← hformat]
  exact SampleBuffer.each_swapTo hmixed c.target.format.order

end Writing

variable {P : RateProvider σ} {settings : Settings} {c₀ : Conversion σ} {requests : List Request}
  {out : List UInt8}

/-- **What containers come out as.**  A new conversion writes 24-bit containers, and is sent any
requests; if it also reads containers, the words that it is sent are canonical.  Then every word of
its answers

* is canonical, unless the sign of words changes in the last stages;
* is otherwise flipped, that is, the word with bit 23 flipped is canonical for the type of the other
  signedness; the word itself is canonical only if its value is not negative. -/
theorem containers_of_results (hcreate : create P settings source target = .ok c₀)
    (htarget : target.format.type.isContainer = true)
    (hinput : source.format.type.isContainer = true → ∀ input, .chunk input ∈ requests →
      source.format.Each source.format.type.Canonical input)
    (hout : .ok out ∈ results perform c₀ requests) :
    (flipsSign source target = false →
      target.format.Each target.format.type.Canonical out) ∧
    (flipsSign source target = true →
      target.format.Each target.format.type.Flipped out ∧
      ∀ word ∈ wholeGroups 4 out,
        (target.format.type.Canonical (target.format.toHost word) ↔
          0 ≤ target.format.read word)) := by
  have hwritten : target.format.Each (if flipsSign source target then
      target.format.type.Flipped else target.format.type.Canonical) out := by
    rcases finish_of_mem_results hout with rfl | ⟨s, hhanded, hfinish⟩
    · exact SampleFormat.each_nil
    have hrates := (accepted_of_create hcreate).rates
    obtain ⟨-, -, resampler, rfl, -⟩ := create_eq_ok hcreate
    rw [← SampleFormat.each_resolved]
    refine each_finish (c := planned source target resampler) htarget ?_ hfinish
    intro t b hfold hencode
    cases s with
    | integers b₀ =>
        -- Integers are handed on by a chunk that stays as it is.
        rcases hhanded with ⟨-, xs, ⟨⟩⟩ | ⟨input, hchunk, hload⟩
        obtain ⟨hnative, hb₀, hcanonical, hflips⟩ :=
          container_of_load htarget (fun h => hinput h input hchunk) hload
        obtain rfl := Except.ok.inj hfold
        rw [hflips]
        exact each_encode_integers htarget hnative hb₀ hcanonical hencode
    | floats xs =>
        have hkept : flipsSign source target = false := by
          by_contra hflips
          rw [Bool.not_eq_false] at hflips
          rcases hhanded with ⟨hsome, -⟩ | ⟨input, -, hload⟩
          · simp only [flipsSign, Bool.and_eq_true, decide_eq_true_eq] at hflips
            exact hrates hsome hflips.1.1.1.1
          · rw [load_of_flipsSign htarget hflips] at hload
            cases hload
        obtain ⟨ys, hys⟩ := exists_foldFloats (planned source target resampler) xs
        obtain rfl := Except.ok.inj (hys.symm.trans hfold)
        rw [hkept]
        exact each_encode_floats htarget hencode
  constructor
  · intro hkept
    simpa [hkept] using hwritten
  · intro hflips
    simp only [hflips, if_true] at hwritten
    refine ⟨hwritten, ?_⟩
    intro word hword
    have hbytes := (SampleType.layout_container htarget).1
    rw [← hbytes] at hword
    refine (hwritten word hword).canonical_iff htarget ?_
    rw [SampleFormat.length_toHost, length_of_mem_wholeGroups hword, hbytes]

/-- The values -1 and 1, in big-endian signed containers, become unsigned and stereo. -/
theorem containers_of_results_stereo :
    ∃ c₀ : Conversion StandardBackend,
      create .standard {} ⟨44100, 1, ⟨.s24, .big⟩⟩ ⟨44100, 2, ⟨.u24, .little⟩⟩ = .ok c₀ ∧
      results perform c₀ [.chunk [0xff, 0xff, 0xff, 0xff, 0x00, 0x00, 0x00, 0x01], .flush] =
        [.ok [0xff, 0xff, 0x7f, 0xff, 0xff, 0xff, 0x7f, 0xff, 0x01, 0x00, 0x80, 0x00,
          0x01, 0x00, 0x80, 0x00], .ok []] ∧
      (SampleFormat.mk .u24 .little).Each SampleType.u24.Flipped
        [0xff, 0xff, 0x7f, 0xff, 0xff, 0xff, 0x7f, 0xff, 0x01, 0x00, 0x80, 0x00,
          0x01, 0x00, 0x80, 0x00] := by
  obtain ⟨c₀, hcreate, hresults⟩ : ∃ c₀ : Conversion StandardBackend,
      create .standard {} ⟨44100, 1, ⟨.s24, .big⟩⟩ ⟨44100, 2, ⟨.u24, .little⟩⟩ = .ok c₀ ∧
      results perform c₀ [.chunk [0xff, 0xff, 0xff, 0xff, 0x00, 0x00, 0x00, 0x01], .flush] =
        [.ok [0xff, 0xff, 0x7f, 0xff, 0xff, 0xff, 0x7f, 0xff, 0x01, 0x00, 0x80, 0x00,
          0x01, 0x00, 0x80, 0x00], .ok []] := ⟨_, rfl, rfl⟩
  refine ⟨c₀, hcreate, hresults, ?_⟩
  have hcanonical : ∀ input, Request.chunk input ∈
      [.chunk [0xff, 0xff, 0xff, 0xff, 0x00, 0x00, 0x00, 0x01], .flush] →
        (SampleFormat.mk .s24 .big).Each SampleType.s24.Canonical input := by
    intro input hinput
    simp only [List.mem_cons, Request.chunk.injEq, reduceCtorEq, List.not_mem_nil, or_false]
      at hinput
    rw [hinput]
    decide
  exact ((containers_of_results hcreate rfl (fun _ => hcanonical)
    (hresults ▸ List.mem_cons_self ..)).2 rfl).1

/-- The value -1, in a signed container, becomes an unsigned one whose high byte is not zero. -/
theorem exists_not_canonical :
    ∃ c₀ : Conversion StandardBackend,
      create .standard {} ⟨44100, 1, ⟨.s24, .little⟩⟩ ⟨44100, 1, ⟨.u24, .little⟩⟩ = .ok c₀ ∧
      (SampleFormat.mk .s24 .little).Each SampleType.s24.Canonical [0xff, 0xff, 0xff, 0xff] ∧
      results perform c₀ [.chunk [0xff, 0xff, 0xff, 0xff]] = [.ok [0xff, 0xff, 0x7f, 0xff]] ∧
      ¬(SampleFormat.mk .u24 .little).Each SampleType.u24.Canonical [0xff, 0xff, 0x7f, 0xff] := by
  refine ⟨_, rfl, ?_, rfl, ?_⟩
  · decide
  · decide

end Conversion

end PcmConversion
