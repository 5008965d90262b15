import PcmConversion.Proofs.Sample.Values

/-!
# Byte order as a label

`SampleFormat.reorder` brings data from one byte order into another; orders may be passed through on
the way (`reorder_reorder`).  Stages work in host order, where a buffer may still be labelled in more
than one way: the host's order has two names, and samples without a byte order keep whatever label
they came with.  Two buffers that differ in such a label only are *alike*, and every stage makes
alike buffers of alike buffers.
-/

namespace PcmConversion

theorem ByteOrder.resolve_eq (order : ByteOrder) :
    order.resolve = .little ∨ order.resolve = .big := by
  cases order <;> decide

namespace SampleFormat

variable {F G : SampleFormat} {data : List UInt8}

/-- The samples of data in the format `F`, brought into the byte order of `G`. -/
def reorder (F G : SampleFormat) (data : List UInt8) : List UInt8 :=
  if F.needsSwapTo G then mapGroups F.type.bytes List.reverse data else data

theorem needsSwapTo_host (F : SampleFormat) :
    F.needsSwapTo (F.withOrder ByteOrder.host) = !F.isNative := by
  obtain ⟨t, order⟩ := F
  cases order <;> simp [needsSwapTo, withOrder, isNative, ByteOrder.resolve, ByteOrder.host]

theorem reorder_of_not_needsSwapTo (h : F.needsSwapTo G = false) : F.reorder G data = data :=
  if_neg (by simp [h])

theorem reorder_nil (F G : SampleFormat) : F.reorder G [] = [] := by
  rw [reorder]
  split
  · exact (framewise_mapGroups F.type.bytes_pos fun g hg => by rw [List.length_reverse, hg]).nil
  · rfl

/-- Orders may be passed through on the way. -/
theorem reorder_reorder (F G H : SampleFormat) (hG : G.type = F.type) (data : List UInt8) :
    G.reorder H (F.reorder G data) = F.reorder H data := by
  by_cases horder : F.type.hasByteOrder = true
  case neg =>
    -- Where samples have no byte order nothing is ever reversed.
    simp only [reorder, needsSwapTo, hG, horder, Bool.false_and, Bool.false_eq_true, if_false]
  have htwice : mapGroups F.type.bytes List.reverse (mapGroups F.type.bytes List.reverse data) =
      data := by
    have hlength : ∀ g : List UInt8, g.length = F.type.bytes → g.reverse.length = F.type.bytes :=
      fun g hg => by rw [List.length_reverse, hg]
    rw [mapGroups_mapGroups F.type.bytes_pos hlength, List.reverse_involutive.comp_self, mapGroups_id]
  simp only [reorder, needsSwapTo, hG, horder, Bool.true_and, bne_iff_ne, ne_eq]
  -- Of three concrete orders two are the same.
  rcases F.order.resolve_eq with hF | hF <;> rcases G.order.resolve_eq with hG' | hG' <;>
    rcases H.order.resolve_eq with hH | hH <;> simp [hF, hG', hH, htwice]

/-- Only what the labels stand for matters. -/
theorem reorder_congr {F' G' : SampleFormat} (htype : F'.type = F.type)
    (horder : F.type.hasByteOrder = true →
      F'.order.resolve = F.order.resolve ∧ G'.order.resolve = G.order.resolve) :
    F'.reorder G' = F.reorder G := by
  have hswap : F'.needsSwapTo G' = F.needsSwapTo G := by
    rw [needsSwapTo, needsSwapTo, htype]
    cases hhas : F.type.hasByteOrder with
    | false => rfl
    | true => rw [(horder hhas).1, (horder hhas).2]
  funext data
  rw [reorder, reorder, hswap, htype]

end SampleFormat

namespace SampleBuffer

variable {b b' : SampleBuffer}

theorem data_swapTo (b : SampleBuffer) (order : ByteOrder) :
    (b.swapTo order).data = b.format.reorder (b.format.withOrder order) b.data := rfl

theorem data_swapTo_resolve (b : SampleBuffer) (order : ByteOrder) :
    (b.swapTo order.resolve).data = (b.swapTo order).data := by
  have hsame : b.format.reorder (b.format.withOrder order.resolve) =
      b.format.reorder (b.format.withOrder order) :=
    SampleFormat.reorder_congr rfl fun _ => ⟨rfl, ByteOrder.resolve_resolve order⟩
  rw [data_swapTo, data_swapTo, hsame]

theorem toggleSign_of_toggled {toggled : SampleType}
    (htoggled : b.format.type.toggledSign = some toggled) :
    b.toggleSign = .ok
      ⟨mapGroups b.format.type.bytes (toggleTopBit b.format.type b.format.order) b.data,
        b.format.withType toggled⟩ := by
  rw [toggleSign, htoggled]

/-- The same samples in host order, under labels that may differ. -/
structure Alike (b b' : SampleBuffer) : Prop where
  data : b'.data = b.data
  type : b'.format.type = b.format.type
  isNative : b.format.isNative = true
  isNative' : b'.format.isNative = true

namespace Alike

theorem refl (hnative : b.format.isNative = true) : b.Alike b :=
  ⟨rfl, rfl, hnative, hnative⟩

/-- Alike buffers that are brought into two orders differ by the one from the other. -/
theorem swapTo (h : b.Alike b') (order order' : ByteOrder) :
    (b'.swapTo order').data =
      (b.format.withOrder order).reorder (b.format.withOrder order') (b.swapTo order).data := by
  have hsame : b'.format.reorder (b'.format.withOrder order') =
      b.format.reorder (b.format.withOrder order') := by
    refine SampleFormat.reorder_congr h.type fun hhas => ⟨?_, rfl⟩
    have hhost := h.isNative
    have hhost' := h.isNative'
    rw [SampleFormat.isNative, h.type] at hhost'
    rw [SampleFormat.isNative] at hhost
    simp only [hhas, Bool.not_true, Bool.false_or, decide_eq_true_eq] at hhost hhost'
    rw [hhost, hhost']
  rw [data_swapTo, data_swapTo,
    SampleFormat.reorder_reorder b.format (b.format.withOrder order) _ rfl, hsame, h.data]

theorem apply (h : b.Alike b') (n : Narrowing) (hhas : b.format.type.hasByteOrder = true) :
    (n.apply b).Alike (n.apply b') := by
  refine ⟨?_, ?_, isNative_apply n hhas h.isNative, isNative_apply n (h.type ▸ hhas) h.isNative'⟩
  · simp only [Narrowing.apply, h.data, h.type]
  · simp only [Narrowing.apply, h.type]
    rfl

theorem toFloats (h : b.Alike b') (hfloat : b.format.type.isFloat = true) :
    ∃ xs, b.toFloats = .ok xs ∧ b'.toFloats = .ok xs := by
  refine ⟨_, if_pos hfloat, ?_⟩
  rw [SampleBuffer.toFloats, h.type, h.data]
  exact if_pos hfloat

theorem decode (h : b.Alike b') (hinteger : b.format.type.isFloat = false) :
    ∃ xs, b.decode = .ok xs ∧ b'.decode = .ok xs := by
  refine ⟨_, if_neg (by simp [hinteger]), ?_⟩
  rw [SampleBuffer.decode, h.type, h.data]
  exact if_neg (by simp [hinteger])

theorem toggleSign {toggled : SampleType} (h : b.Alike b')
    (htoggled : b.format.type.toggledSign = some toggled) :
    ∃ d d', b.toggleSign = .ok d ∧ b'.toggleSign = .ok d' ∧ d.Alike d' ∧
      d.format.type = toggled := by
  have htoggled' : b'.format.type.toggledSign = some toggled := h.type ▸ htoggled
  have hinteger := SampleType.isFloat_of_toggledSign htoggled
  have hflip : toggleTopBit b'.format.type b'.format.order =
      toggleTopBit b.format.type b.format.order := by
    funext sample
    rw [toggleTopBit_of_isNative hinteger h.isNative,
      toggleTopBit_of_isNative (h.type ▸ hinteger) h.isNative', h.type]
  refine ⟨_, _, toggleSign_of_toggled htoggled, toggleSign_of_toggled htoggled', ⟨?_, rfl,
    SampleFormat.isNative_toggled htoggled h.isNative,
    SampleFormat.isNative_toggled htoggled' h.isNative'⟩, rfl⟩
  show mapGroups _ (toggleTopBit b'.format.type b'.format.order) _ = _
  rw [hflip, h.data, h.type]

theorem monoToStereo (h : b.Alike b') : b.monoToStereo.Alike b'.monoToStereo := by
  refine ⟨?_, h.type, h.isNative, h.isNative'⟩
  simp only [SampleBuffer.monoToStereo, h.data, h.type]

theorem downmix (h : b.Alike b') (hsupported : Downmix.supports b.format.type = true) :
    ∃ d d', b.downmix = .ok d ∧ b'.downmix = .ok d' ∧ d.Alike d' ∧
      d.format.type = b.format.type := by
  refine ⟨_, _, if_pos hsupported, if_pos (h.type ▸ hsupported), ⟨?_, h.type, h.isNative,
    h.isNative'⟩, rfl⟩
  simp only [h.data, h.type]

end Alike

end SampleBuffer

end PcmConversion
