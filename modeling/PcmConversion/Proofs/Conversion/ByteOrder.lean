import PcmConversion.Proofs.Conversion.Requests
import PcmConversion.Proofs.Sample.ByteOrder
import PcmConversion.Rate.Standard

/-!
# Byte order is transparent

Two conversions whose streams differ only in the labels of their byte orders do the same work: if
the second is sent what the first is, each sample in the order of the second's source, it answers
what the first does, each sample in the order of its own target (`results_reordered`).  Between
reading and writing the two hold the same samples under labels that may differ (`ReadAlike`).
-/

namespace PcmConversion

/-- The same stream with another byte order. -/
def StreamParams.ordered (p : StreamParams) (order : ByteOrder) : StreamParams :=
  { p with format := p.format.withOrder order }

namespace Conversion

variable {σ : Type} {c : Conversion σ} {source target : StreamParams}
  {resampler : Option (RunningResampler σ)} {order order' : ByteOrder}

/-- The same conversion between streams in other byte orders. -/
def ordered (c : Conversion σ) (order order' : ByteOrder) : Conversion σ :=
  { c with source := c.source.ordered order, target := c.target.ordered order' }

theorem planned_ordered :
    planned (source.ordered order) (target.ordered order') resampler =
      (planned source target resampler).ordered order order'.resolve := rfl

theorem hasByteOrder_of_narrowing (n : Narrowing)
    (hn : (planned source target resampler).narrowing = some n) :
    source.format.type.hasByteOrder = true := by
  simp only [planned] at hn
  split at hn
  · exact Narrowing.hasByteOrder_of_select hn
  · cases hn

/-- What two conversions have read: the same floats, or the same integers under labels that may
differ, where no later stage needs floats. -/
inductive ReadAlike (c : Conversion σ) : Samples → Samples → Prop
  | floats (xs : List Binary32) : ReadAlike c (.floats xs) (.floats xs)
  | integers {b b' : SampleBuffer} (halike : b.Alike b')
      (hinteger : b.format.type.isFloat = false) (hkept : c.needsFloats b.format = false) :
      ReadAlike c (.integers b) (.integers b')

theorem ReadAlike.self {s s' : Samples} (h : c.ReadAlike s s') : c.ReadAlike s s := by
  cases h with
  | floats xs => exact .floats xs
  | integers halike hinteger hkept => exact .integers (.refl halike.isNative) hinteger hkept

/-! ## Reading -/

theorem data_native (c : Conversion σ) (input : List UInt8) :
    (c.native input).data =
      c.source.format.reorder (c.source.format.withOrder ByteOrder.host) input := by
  unfold native
  by_cases hnative : c.source.format.isNative = true
  · have hstays : c.source.format.needsSwapTo (c.source.format.withOrder ByteOrder.host) = false := by
      rw [SampleFormat.needsSwapTo_host, hnative]
      rfl
    rw [SampleFormat.reorder_of_not_needsSwapTo hstays]
    exact (if_pos hnative).symm ▸ rfl
  · exact (if_neg hnative).symm ▸ rfl

theorem alike_native (c : Conversion σ) (order order' : ByteOrder) (input : List UInt8) :
    (c.native input).Alike ((c.ordered order order').native
      (c.source.format.reorder (c.source.format.withOrder order) input)) := by
  obtain ⟨hnative, htype⟩ := format_native c input
  obtain ⟨hnative', htype'⟩ := format_native (c.ordered order order')
    (c.source.format.reorder (c.source.format.withOrder order) input)
  refine ⟨?_, htype'.trans htype.symm, hnative, hnative'⟩
  rw [data_native, data_native]
  exact SampleFormat.reorder_reorder c.source.format (c.source.format.withOrder order) _ rfl input

theorem alike_normalise
    (hnarrowing : ∀ n, c.narrowing = some n → c.source.format.type.hasByteOrder = true)
    (order order' : ByteOrder) (input : List UInt8) :
    (c.normalise input).Alike ((c.ordered order order').normalise
      (c.source.format.reorder (c.source.format.withOrder order) input)) := by
  have halike := alike_native c order order' input
  cases hn : c.narrowing with
  | none =>
      rw [normalise_of_none hn, normalise_of_none (c := c.ordered order order') hn]
      exact halike
  | some n =>
      rw [normalise_of_some hn, normalise_of_some (c := c.ordered order order') hn]
      exact halike.apply n ((format_native c input).2 ▸ hnarrowing n hn)

theorem exists_load_ordered
    (hnarrowing : ∀ n, c.narrowing = some n → c.source.format.type.hasByteOrder = true)
    (order order' : ByteOrder) (input : List UInt8) :
    ∃ s s', c.load input = .ok s ∧
      (c.ordered order order').load
        (c.source.format.reorder (c.source.format.withOrder order) input) = .ok s' ∧
      c.ReadAlike s s' := by
  have halike := alike_normalise hnarrowing order order' input
  simp only [load]
  generalize c.normalise input = b at halike ⊢
  generalize (c.ordered order order').normalise
    (c.source.format.reorder (c.source.format.withOrder order) input) = b' at halike ⊢
  have hneeds : (c.ordered order order').needsFloats b'.format = c.needsFloats b.format := by
    simp only [needsFloats, SampleFormat.sameWidth, halike.type]
    rfl
  rw [hneeds, halike.type]
  cases hfloat : b.format.type.isFloat with
  | true =>
      obtain ⟨xs, hxs, hxs'⟩ := halike.toFloats hfloat
      exact ⟨_, _, by rw [hxs]; rfl, by rw [hxs']; rfl, .floats xs⟩
  | false =>
      cases hkept : c.needsFloats b.format with
      | true =>
          obtain ⟨xs, hxs, hxs'⟩ := halike.decode hfloat
          exact ⟨_, _, by rw [hxs]; rfl, by rw [hxs']; rfl, .floats xs⟩
      | false => exact ⟨_, _, rfl, rfl, .integers halike hfloat hkept⟩

/-! ## Writing -/

theorem exists_encode_integers {b b' : SampleBuffer} (h : b.Alike b')
    (hinteger : b.format.type.isFloat = false) (htarget : c.target.format.type.isFloat = false)
    (order order' : ByteOrder) :
    ∃ d d', c.encode (.integers b) = .ok d ∧
      (c.ordered order order').encode (.integers b') = .ok d' ∧ d.Alike d' ∧
      d.format.type = c.target.format.type := by
  -- Only the type of the buffer decides what is done with it.
  have htype : b'.format.type = b.format.type := h.type
  by_cases htoggled : b.format.type.toggledSign = some c.target.format.type
  · obtain ⟨d, d', htoggle, htoggle', hwritten, hd⟩ := h.toggleSign htoggled
    exact ⟨d, d', (if_pos htoggled).trans htoggle,
      (if_pos (htype ▸ htoggled)).trans htoggle', hwritten, hd⟩
  have htoggled' : ¬b'.format.type.toggledSign = some c.target.format.type := htype ▸ htoggled
  by_cases hsame : b.format.type = c.target.format.type
  · exact ⟨b, b', (if_neg htoggled).trans (if_pos hsame),
      (if_neg htoggled').trans (if_pos (htype.trans hsame)), h, hsame⟩
  · obtain ⟨xs, hxs, hxs'⟩ := h.decode hinteger
    obtain ⟨f, -, hquantise⟩ := SampleBuffer.quantise_streams htarget
    let d := SampleBuffer.ofFormat ⟨c.target.format.type, ByteOrder.host⟩ (f xs)
    refine ⟨d, d, ?_, ?_, .refl (SampleFormat.isNative_host _), rfl⟩
    · refine ((if_neg htoggled).trans (if_neg hsame)).trans ?_
      rw [hxs]
      exact hquantise xs
    · refine ((if_neg htoggled').trans (if_neg fun h' => hsame (htype.symm.trans h'))).trans ?_
      rw [hxs']
      exact hquantise xs

theorem exists_encode_ordered {s s' : Samples} (h : c.ReadAlike s s') (order order' : ByteOrder) :
    ∃ t t' b b', c.foldFloats s = .ok t ∧ (c.ordered order order').foldFloats s' = .ok t' ∧
      c.encode t = .ok b ∧ (c.ordered order order').encode t' = .ok b' ∧ b.Alike b' ∧
      b.format.type = c.target.format.type := by
  cases h with
  | floats xs =>
      obtain ⟨ys, hfold⟩ := exists_foldFloats c xs
      obtain ⟨f, -, hencode⟩ := encode_floats_streams c
      exact ⟨_, _, _, _, hfold, hfold, hencode ys, hencode ys,
        .refl (SampleFormat.isNative_host _), rfl⟩
  | @integers b b' halike hinteger hkept =>
      have htarget : c.target.format.type.isFloat = false := by
        simp only [needsFloats, Bool.or_eq_false_iff] at hkept
        exact hkept.1.2
      obtain ⟨d, d', hencode, hencode', hwritten, htype⟩ :=
        exists_encode_integers halike hinteger htarget order order'
      exact ⟨_, _, d, d', rfl, rfl, hencode, hencode', hwritten, htype⟩

/-- Channels are changed alike in alike buffers. -/
theorem exists_mix_alike (hc : c.Accepted) {b b' : SampleBuffer} (h : b.Alike b')
    (htype : b.format.type = c.target.format.type) :
    ∃ d d', c.mix b = .ok d ∧ c.mix b' = .ok d' ∧ d.Alike d' ∧
      d.format.type = c.target.format.type := by
  simp only [mix, SampleBuffer.remap]
  split_ifs with hmix hmono hfold
  · exact ⟨_, _, rfl, rfl, h.monoToStereo, htype⟩
  · simp only [Bool.and_eq_true, bne_iff_ne, ne_eq, Bool.not_eq_true'] at hmix
    have hsupported : Downmix.supports b.format.type = true := by
      by_contra hnone
      rw [htype, Bool.not_eq_true] at hnone
      rw [hc.floatDownmix.2 ⟨hfold.1, hfold.2, hnone⟩] at hmix
      cases hmix.2
    obtain ⟨d, d', hd, hd', hfolded, htype'⟩ := h.downmix hsupported
    exact ⟨d, d', hd, hd', hfolded, htype'.trans htype⟩
  · -- No other change of channels is accepted.
    exfalso
    have hpair := hc.remapSupported
    simp only [PcmConversion.remapSupported, Bool.or_eq_true, Bool.and_eq_true,
      decide_eq_true_eq] at hpair
    simp only [Bool.and_eq_true, bne_iff_ne, ne_eq] at hmix
    rcases hpair with (hsame | hone) | hsix
    · exact hmix.1 hsame
    · exact hmono hone
    · exact hfold hsix
  · exact ⟨_, _, rfl, rfl, h, htype⟩

theorem finish_ordered (hc : c.Accepted) {s s' : Samples} (h : c.ReadAlike s s')
    (order order' : ByteOrder) :
    (c.ordered order order').finish s' =
      (c.finish s).map (c.target.format.reorder (c.target.format.withOrder order')) := by
  obtain ⟨t, t', b, b', hfold, hfold', hencode, hencode', halike, htype⟩ :=
    exists_encode_ordered h order order'
  obtain ⟨d, d', hmix, hmix', hmixed, htype'⟩ := exists_mix_alike hc halike htype
  have hswap := hmixed.swapTo c.target.format.order order'
  have hlast : d.format.withOrder c.target.format.order = c.target.format := by
    rw [SampleFormat.withOrder, htype']
  have hlast' : d.format.withOrder order' = c.target.format.withOrder order' := by
    rw [SampleFormat.withOrder, htype']
    rfl
  rw [hlast, hlast'] at hswap
  have hfinish := finish_of_stages hfold hencode hmix
  have hfinish' : (c.ordered order order').finish s' = .ok (d'.swapTo order').data :=
    finish_of_stages (c := c.ordered order order') hfold' hencode' hmix'
  rw [hfinish, hfinish', hswap]
  rfl

/-! ## Sessions -/

theorem follows_ordered (hc : c.Accepted)
    (hnarrowing : ∀ n, c.narrowing = some n → c.source.format.type.hasByteOrder = true)
    (order order' : ByteOrder) :
    c.Follows (c.ordered order order')
      (c.source.format.reorder (c.source.format.withOrder order))
      (c.target.format.reorder (c.target.format.withOrder order')) c.ReadAlike where
  resampler := rfl
  load := exists_load_ordered hnarrowing order order'
  finish _ _ h := finish_ordered hc h order order'
  floats xs s' := by
    constructor
    · rintro ⟨⟩
      rfl
    · rintro rfl
      exact .floats xs
  nil := SampleFormat.reorder_nil ..

variable {P : RateProvider σ} {settings : Settings} {c' : Conversion σ}

/-- **Byte order is transparent.**  Two conversions are set up alike, but for the byte orders of
their sources and of their targets.  Whatever the first is sent, if the second is sent the same with
each whole source sample in its own order, then it gives the same answers, errors among them, with
each whole target sample in its own order. -/
theorem results_reordered (order order' : ByteOrder) (hcreate : create P settings source target = .ok c)
    (hcreate' : create P settings (source.ordered order) (target.ordered order') = .ok c')
    (requests : List Request) :
    results perform c' (requests.map
        (Request.map (source.format.reorder (source.format.withOrder order)))) =
      (results perform c requests).map
        (Except.map (target.format.reorder (target.format.withOrder order'))) := by
  have hc := accepted_of_create hcreate
  have hc' := accepted_of_create hcreate'
  obtain ⟨-, -, -, resampler, hresampler, rfl⟩ := create_eq_ok_iff.1 hcreate
  obtain ⟨-, -, -, resampler', hresampler', rfl⟩ := create_eq_ok_iff.1 hcreate'
  -- The resampler is built for the rates and the channels only.
  obtain rfl : resampler = resampler' := Except.ok.inj (hresampler.symm.trans hresampler')
  rw [planned_ordered] at hc' ⊢
  have hresults :=
    (follows_ordered hc hasByteOrder_of_narrowing order order'.resolve).results hc hc' requests
  have htarget : target.format.resolved.reorder
      (target.format.resolved.withOrder order'.resolve) =
        target.format.reorder (target.format.withOrder order') :=
    SampleFormat.reorder_congr rfl fun _ =>
      ⟨ByteOrder.resolve_resolve _, ByteOrder.resolve_resolve _⟩
  rw [← htarget]
  exact hresults

/-- A sample and a half, at twice the rate, with both byte orders changed. -/
theorem results_reordered_standard :
    ∃ c c' : Conversion StandardBackend,
      create .standard { method := .zeroOrderHold } ⟨24000, 1, ⟨.u16, .big⟩⟩
        ⟨48000, 1, ⟨.s24Packed, .native⟩⟩ = .ok c ∧
      create .standard { method := .zeroOrderHold } ⟨24000, 1, ⟨.u16, .little⟩⟩
        ⟨48000, 1, ⟨.s24Packed, .big⟩⟩ = .ok c' ∧
      results perform c' [.chunk [0x34, 0x12, 0x56], .flush] =
        (results perform c [.chunk [0x12, 0x34, 0x56], .flush]).map
          (Except.map ((SampleFormat.mk .s24Packed .native).reorder ⟨.s24Packed, .big⟩)) := by
  obtain ⟨c, hcreate⟩ := exists_eq_ok (x := create .standard { method := .zeroOrderHold }
    ⟨24000, 1, ⟨.u16, .big⟩⟩ ⟨48000, 1, ⟨.s24Packed, .native⟩⟩) (by decide +kernel)
  obtain ⟨c', hcreate'⟩ := exists_eq_ok (x := create .standard { method := .zeroOrderHold }
    ⟨24000, 1, ⟨.u16, .little⟩⟩ ⟨48000, 1, ⟨.s24Packed, .big⟩⟩) (by decide +kernel)
  exact ⟨c, c', hcreate, hcreate',
    results_reordered .little .big hcreate hcreate'
      [.chunk [0x12, 0x34, 0x56], .flush]⟩

end Conversion

end PcmConversion
