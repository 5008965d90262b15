import PcmConversion.Proofs.Conversion.Creation
import PcmConversion.Proofs.Sample.Values

/-!
# The stages of a conversion

An accepted conversion is framewise from end to end but for the resampler in the middle, and nothing
in it fails: reading a chunk (`load_streams`) and writing what was read or resampled
(`finish_floats_streams`, `finish_integers_streams`).
-/

namespace PcmConversion.Conversion

variable {σ : Type} {c : Conversion σ}

/-! ## Reading -/

/-- The bytes of a chunk in the byte order of the host. -/
def native (c : Conversion σ) (input : List UInt8) : SampleBuffer :=
  let b : SampleBuffer := ⟨input, c.source.format⟩
  if b.format.isNative then b else b.toNative

theorem native_of_isNative (hnative : c.source.format.isNative = true) (input : List UInt8) :
    c.native input = ⟨input, c.source.format⟩ := by
  unfold native
  exact if_pos hnative

theorem format_native (c : Conversion σ) (input : List UInt8) :
    (c.native input).format.isNative = true ∧
      (c.native input).format.type = c.source.format.type := by
  unfold native
  by_cases hnative : c.source.format.isNative = true
  · exact (if_pos hnative).symm ▸ ⟨hnative, rfl⟩
  · exact (if_neg hnative).symm ▸ ⟨SampleFormat.isNative_host _, rfl⟩

theorem normalise_of_none (h : c.narrowing = none) (input : List UInt8) :
    c.normalise input = c.native input := by
  simp only [normalise, h]
  rfl

theorem normalise_of_some {n : Narrowing} (h : c.narrowing = some n) (input : List UInt8) :
    c.normalise input = n.apply (c.native input) := by
  simp only [normalise, h]
  rfl

theorem native_streams (c : Conversion σ) :
    ∃ F f, F.type = c.source.format.type ∧ Framewise F.type.bytes F.type.bytes f ∧
      ∀ x, c.native x = .ofFormat F (f x) := by
  by_cases hhost : c.source.format.isNative = true
  · refine ⟨c.source.format, id, rfl, .id, fun x => ?_⟩
    simp only [native, hhost, if_true]
    rfl
  · refine ⟨c.source.format.withOrder ByteOrder.host, _, rfl,
      SampleBuffer.framewise_swapTo c.source.format ByteOrder.host, fun x => ?_⟩
    simp only [native, hhost]
    rfl

/-- Source samples in host order, and truncated, are of one format. -/
theorem normalise_streams (hc : c.Accepted) :
    ∃ F f, Framewise c.source.format.type.bytes F.type.bytes f ∧
      ∀ x, c.normalise x = .ofFormat F (f x) := by
  obtain ⟨F, f, hF, hf, hnative⟩ := native_streams c
  rw [← hF]
  cases hnarrowing : c.narrowing with
  | none =>
      refine ⟨F, f, hf, fun x => ?_⟩
      rw [normalise_of_none hnarrowing]
      exact hnative x
  | some n =>
      have hbytes : F.type.bytes = 4 := by
        rw [hF]
        exact hc.narrowing n hnarrowing
      rw [hbytes] at hf ⊢
      refine ⟨F.withType (n.outputType F.type), _, (n.framewise_apply F).comp hf (by decide),
        fun x => ?_⟩
      rw [normalise_of_some hnarrowing]
      exact congrArg n.apply (hnative x)

/-- Samples that stay integers are those of the normalised chunk, and no later stage needs floats. -/
theorem load_eq_integers {input : List UInt8} {b : SampleBuffer}
    (h : c.load input = .ok (.integers b)) :
    b = c.normalise input ∧ b.format.type.isFloat = false ∧ c.needsFloats b.format = false := by
  unfold load at h
  simp only at h
  split_ifs at h with hfloat hneeds
  · cases hfloats : (c.normalise input).toFloats <;> rw [hfloats] at h <;> cases h
  · cases hdecode : (c.normalise input).decode <;> rw [hdecode] at h <;> cases h
  · obtain rfl := Samples.integers.inj (Except.ok.inj h)
    exact ⟨rfl, by simpa using hfloat, by simpa using hneeds⟩

theorem load_streams (hc : c.Accepted) :
    Streams c.source.format.type.bytes 1 id c.load .floats ∨
      ∃ F, F.type.isFloat = false ∧ c.target.format.type.isFloat = false ∧
        c.floatDownmix = false ∧ c.source.rate = c.target.rate ∧
        Streams c.source.format.type.bytes F.type.bytes id c.load
          fun x => .integers (.ofFormat F x) := by
  obtain ⟨F, f, hf, hformat⟩ := normalise_streams hc
  -- Floats are read as they are; integers become floats if a later stage needs them so.
  by_cases hfloat : F.type.isFloat = true
  · left
    obtain ⟨g, hg, hfloats⟩ := SampleBuffer.toFloats_streams F hfloat
    refine ⟨fun x => g (f x), hg.comp hf F.type.bytes_pos, fun x => ?_⟩
    simp only [load, hformat, SampleBuffer.format_ofFormat, hfloat, if_true, hfloats, id]
    rfl
  have hinteger : F.type.isFloat = false := by simpa using hfloat
  by_cases hneeds : c.needsFloats F = true
  · left
    obtain ⟨g, hg, hdecode⟩ := SampleBuffer.decode_streams F hinteger
    refine ⟨fun x => g (f x), hg.comp hf F.type.bytes_pos, fun x => ?_⟩
    simp only [load, hformat, SampleBuffer.format_ofFormat, hfloat, hneeds, if_true, if_false,
      Bool.false_eq_true, hdecode, id]
    rfl
  · right
    have hkept := hneeds
    simp only [needsFloats, Bool.or_eq_true, bne_iff_ne, ne_eq, not_or, not_not,
      Bool.not_eq_true] at hkept
    obtain ⟨⟨⟨hrate, hdownmix⟩, htarget⟩, -⟩ := hkept
    refine ⟨F, hinteger, htarget, hdownmix, hrate, f, hf, fun x => ?_⟩
    simp only [load, hformat, SampleBuffer.format_ofFormat, hfloat, hneeds, Bool.false_eq_true,
      if_false, id]

/-! ## Writing -/

/-- The channels that the buffer stage changes. -/
def mix (c : Conversion σ) (b : SampleBuffer) : Except Fault SampleBuffer :=
  if c.source.channels != c.target.channels && !c.floatDownmix then
    b.remap c.source.channels c.target.channels
  else .ok b

/-- The byte order of the target. -/
def order (c : Conversion σ) (b : SampleBuffer) : Except Fault (List UInt8) :=
  .ok (b.swapTo c.target.format.order).data

theorem finish_eq (c : Conversion σ) :
    c.finish = fun s => ((c.foldFloats s >>= c.encode) >>= c.mix) >>= c.order := by
  funext s
  unfold finish
  cases hfold : c.foldFloats s with
  | error fault => rfl
  | ok t =>
      simp only [bind, Except.bind]
      cases hencode : c.encode t with
      | error fault => rfl
      | ok b =>
          simp only [mix]
          split
          · cases b.remap c.source.channels c.target.channels <;> rfl
          · rfl

/-- What the last stages hand on when they succeed. -/
theorem finish_eq_ok {s : Samples} {out : List UInt8} (h : c.finish s = .ok out) :
    ∃ t b b', c.foldFloats s = .ok t ∧ c.encode t = .ok b ∧ c.mix b = .ok b' ∧
      out = (b'.swapTo c.target.format.order).data := by
  rw [finish_eq] at h
  obtain ⟨b', hmixed, hout⟩ := bind_eq_ok h
  obtain ⟨b, hencoded, hmix⟩ := bind_eq_ok hmixed
  obtain ⟨t, hfold, hencode⟩ := bind_eq_ok hencoded
  exact ⟨t, b, b', hfold, hencode, hmix, (Except.ok.inj hout).symm⟩

theorem finish_of_stages {s t : Samples} {b d : SampleBuffer} (hfold : c.foldFloats s = .ok t)
    (hencode : c.encode t = .ok b) (hmix : c.mix b = .ok d) :
    c.finish s = .ok (d.swapTo c.target.format.order).data := by
  rw [finish_eq]
  simp only [hfold, hencode, hmix, bind, Except.bind]
  rfl

theorem ofFloats_eq (xs : List Binary32) :
    SampleBuffer.ofFloats xs =
      .ofFormat ⟨.f32, ByteOrder.host⟩ (SampleBuffer.ofFloats xs).data := rfl

theorem foldFloats_streams (hfold : c.floatDownmix = true) :
    Streams 6 2 Samples.floats c.foldFloats .floats := by
  have hbytes := SampleBuffer.framewise_ofFloats.scale (c := 6) (by decide)
  obtain ⟨f, hf, hdownmix⟩ := SampleBuffer.downmix_streams ⟨.f32, ByteOrder.host⟩ rfl
  obtain ⟨g, hg, hfloats⟩ :=
    (SampleBuffer.toFloats_streams ⟨.f32, ByteOrder.host⟩ rfl).scale (c := 2) (by decide)
  refine ⟨_, (hg.comp hf (by decide)).comp hbytes (by decide), fun xs => ?_⟩
  simp only [foldFloats, hfold, if_true, bind, Except.bind]
  rw [ofFloats_eq, hdownmix]
  simp only
  rw [hfloats]
  rfl

theorem foldFloats_eq_self (hfold : c.floatDownmix = false) (s : Samples) :
    c.foldFloats s = .ok s := by
  cases s <;> simp [foldFloats, hfold]

theorem foldFloats_streams_id (hfold : c.floatDownmix = false) :
    Streams 1 1 Samples.floats c.foldFloats .floats :=
  .of_eq .id fun xs => foldFloats_eq_self hfold (.floats xs)

/-- Floats stay floats, however many channels they are folded into. -/
theorem exists_foldFloats (c : Conversion σ) (xs : List Binary32) :
    ∃ ys, c.foldFloats (.floats xs) = .ok (.floats ys) := by
  cases hfold : c.floatDownmix with
  | true =>
      obtain ⟨f, -, heq⟩ := foldFloats_streams hfold
      exact ⟨f xs, heq xs⟩
  | false =>
      obtain ⟨f, -, heq⟩ := foldFloats_streams_id hfold
      exact ⟨f xs, heq xs⟩

theorem encode_floats_streams (c : Conversion σ) :
    Streams 1 c.target.format.type.bytes Samples.floats c.encode
      (.ofFormat ⟨c.target.format.type, ByteOrder.host⟩) := by
  cases htarget : c.target.format.type.isFloat with
  | true =>
      have htype : c.target.format.type = .f32 := by
        revert htarget
        cases c.target.format.type <;> simp [SampleType.isFloat]
      rw [htype]
      refine .of_eq SampleBuffer.framewise_ofFloats fun xs => ?_
      simp only [encode, htarget, if_true]
      rfl
  | false =>
      obtain ⟨f, hf, hquantise⟩ := SampleBuffer.quantise_streams htarget
      refine ⟨f, hf, fun xs => ?_⟩
      simp only [encode, htarget, Bool.false_eq_true, if_false]
      exact hquantise xs

theorem encode_integers_streams {F : SampleFormat} (hinteger : F.type.isFloat = false)
    (htarget : c.target.format.type.isFloat = false) :
    ∃ G, G.type = c.target.format.type ∧
      Streams F.type.bytes G.type.bytes (fun x => .integers (.ofFormat F x)) c.encode
        (.ofFormat G) := by
  by_cases htoggled : F.type.toggledSign = some c.target.format.type
  · obtain ⟨f, hf, htoggle⟩ := SampleBuffer.toggleSign_streams F htoggled
    refine ⟨F.withType c.target.format.type, rfl, f, ?_, fun xs => ?_⟩
    · rwa [SampleFormat.withType, ← SampleType.bytes_toggledSign htoggled]
    · exact (if_pos htoggled).trans (htoggle xs)
  by_cases hsame : F.type = c.target.format.type
  · refine ⟨F, hsame, .of_eq .id fun xs => ?_⟩
    exact (if_neg htoggled).trans (if_pos hsame)
  · obtain ⟨f, hf, hdecode⟩ := SampleBuffer.decode_streams F hinteger
    obtain ⟨g, hg, hquantise⟩ := SampleBuffer.quantise_streams htarget
    refine ⟨⟨c.target.format.type, ByteOrder.host⟩, rfl, _, hg.comp hf (by decide), fun xs => ?_⟩
    refine ((if_neg htoggled).trans (if_neg hsame)).trans ?_
    simp only [bind, Except.bind]
    rw [hdecode]
    exact hquantise (f xs)

/-- The buffer stage that changes channels, where the floats were not folded. -/
theorem mix_streams (hc : c.Accepted) (hfold : c.floatDownmix = false) {F : SampleFormat}
    (hF : F.type = c.target.format.type) :
    Streams (F.type.bytes * c.source.channels.toNat) (F.type.bytes * c.target.channels.toNat)
      (.ofFormat F) c.mix (.ofFormat F) := by
  by_cases hsame : c.source.channels = c.target.channels
  · rw [hsame]
    refine .of_eq .id fun xs => ?_
    simp [mix, hsame]
  have hmix : ∀ b, c.mix b = b.remap c.source.channels c.target.channels := by
    intro b
    simp [mix, hsame, hfold]
  have hpair := hc.remapSupported
  simp only [PcmConversion.remapSupported, hsame, Bool.or_eq_true, Bool.and_eq_true,
    decide_eq_true_eq, false_or] at hpair
  rcases hpair with ⟨hsource, htarget⟩ | ⟨hsource, htarget⟩
  · obtain ⟨f, hf, hmono⟩ := SampleBuffer.monoToStereo_streams F
    refine ⟨f, ?_, fun xs => ?_⟩
    · rw [hsource, htarget]
      show Framewise (F.type.bytes * 1) (F.type.bytes * 2) f
      rwa [Nat.mul_one, Nat.mul_comm]
    · rw [hmix, hsource, htarget]
      exact hmono xs
  · -- A type that cannot be folded in its own width was folded on the floats.
    have hsupported : Downmix.supports F.type = true := by
      by_contra hnone
      rw [hF, Bool.not_eq_true] at hnone
      rw [hc.floatDownmix.2 ⟨hsource, htarget, hnone⟩] at hfold
      cases hfold
    obtain ⟨f, hf, hdownmix⟩ := SampleBuffer.downmix_streams F hsupported
    refine ⟨f, ?_, fun xs => ?_⟩
    · rw [hsource, htarget]
      show Framewise (F.type.bytes * 6) (F.type.bytes * 2) f
      rwa [Nat.mul_comm _ 6, Nat.mul_comm _ 2]
    · rw [hmix, hsource, htarget]
      exact hdownmix xs

theorem order_streams (c : Conversion σ) {F : SampleFormat} (hF : F.type = c.target.format.type) :
    Streams c.target.format.type.bytes c.target.format.type.bytes (.ofFormat F) c.order id := by
  rw [← hF]
  exact .of_eq (SampleBuffer.framewise_swapTo F c.target.format.order) fun _ => rfl

theorem Accepted.target_channels_pos (hc : c.Accepted) : 0 < c.target.channels.toNat := by
  have hpair := hc.remapSupported
  simp only [PcmConversion.remapSupported, Bool.or_eq_true, Bool.and_eq_true, decide_eq_true_eq]
    at hpair
  rcases hpair with (hsame | ⟨-, htarget⟩) | ⟨-, htarget⟩
  · rw [← hsame]
    exact hc.channels_pos
  · rw [htarget]
    decide
  · rw [htarget]
    decide

/-- Resampled floats become whole target frames. -/
theorem finish_floats_streams (hc : c.Accepted) :
    Streams c.source.channels.toNat c.target.frameBytes Samples.floats c.finish id := by
  obtain ⟨F, hF, hencode⟩ : ∃ F : SampleFormat, F.type = c.target.format.type ∧
      Streams 1 F.type.bytes Samples.floats c.encode (.ofFormat F) :=
    ⟨⟨c.target.format.type, ByteOrder.host⟩, rfl, encode_floats_streams c⟩
  have hbytes : 0 < F.type.bytes := F.type.bytes_pos
  have horder := (order_streams c hF).scale hc.target_channels_pos
  rw [finish_eq, StreamParams.frameBytes]
  cases hfold : c.floatDownmix with
  | true =>
      -- Six channels are folded first, so the later stages run on frames of two.
      obtain ⟨hsource, htarget, -⟩ := hc.floatDownmix.1 hfold
      rw [htarget] at horder ⊢
      rw [hsource]
      have hmix : Streams (F.type.bytes * 2) (F.type.bytes * 2) (.ofFormat F) c.mix
          (.ofFormat F) := .of_eq .id fun xs => by simp [mix, hfold]
      have hmixed := ((foldFloats_streams hfold).bind (hencode.scale (c := 2) (by decide))
        (by decide)).bind hmix (Nat.mul_pos hbytes (by decide))
      rw [hF] at hmixed
      exact hmixed.bind horder (Nat.mul_pos (hF ▸ hbytes) (by decide))
  | false =>
      have hfloats := (foldFloats_streams_id hfold).scale hc.channels_pos
      have hmixed := (hfloats.bind (hencode.scale hc.channels_pos)
        (Nat.mul_pos one_pos hc.channels_pos)).bind (mix_streams hc hfold hF)
          (Nat.mul_pos hbytes hc.channels_pos)
      rw [hF, Nat.one_mul] at hmixed
      exact hmixed.bind horder (Nat.mul_pos (hF ▸ hbytes) hc.target_channels_pos)

/-- Integers of a type that needs no floats become whole target frames. -/
theorem finish_integers_streams (hc : c.Accepted) {F : SampleFormat}
    (hinteger : F.type.isFloat = false) (htarget : c.target.format.type.isFloat = false)
    (hfold : c.floatDownmix = false) :
    Streams (F.type.bytes * c.source.channels.toNat) c.target.frameBytes
      (fun x => .integers (.ofFormat F x)) c.finish id := by
  obtain ⟨G, hG, hencode⟩ := encode_integers_streams hinteger htarget
  have hbytes : 0 < G.type.bytes := G.type.bytes_pos
  have horder := (order_streams c hG).scale hc.target_channels_pos
  have hkept : Streams F.type.bytes F.type.bytes (fun x => Samples.integers (.ofFormat F x))
      c.foldFloats fun x => .integers (.ofFormat F x) := .of_eq .id fun _ => rfl
  rw [finish_eq, StreamParams.frameBytes]
  have hmixed := ((hkept.bind hencode F.type.bytes_pos).scale hc.channels_pos).bind
    (mix_streams hc hfold hG) (Nat.mul_pos hbytes hc.channels_pos)
  rw [hG] at hmixed
  exact hmixed.bind horder (Nat.mul_pos (hG ▸ hbytes) hc.target_channels_pos)

end PcmConversion.Conversion
