import PcmConversion.Proofs.Conversion.ByteOrder
import PcmConversion.Proofs.Sample.Containers

/-!
# A change of channels factors out

A conversion that changes the number of channels answers what one that keeps it answers, remapped
(`remapping_factors`): mono samples are repeated, and six channels are folded either in the target
type or, where that type is not folded in its own width, on floats that are written as the target
type afterwards.  The two conversions of each case read alike, and with the same resampler; only
their last stages differ.
-/

namespace PcmConversion

/-- The same stream in floats. -/
def StreamParams.inFloats (p : StreamParams) : StreamParams :=
  { p with format := p.format.withType .f32 }

theorem Downmix.supports_iff {t : SampleType} :
    supports t = true ↔ t ∈ [SampleType.s16, .s32, .f32] := by
  cases t <;> decide

namespace SampleBuffer

variable {b b' : SampleBuffer}

theorem Alike.swapTo_self (h : b.Alike b') (order : ByteOrder) :
    (b'.swapTo order).data = (b.swapTo order).data := by
  rw [h.swapTo order order]
  exact SampleFormat.reorder_of_not_needsSwapTo (by simp [SampleFormat.needsSwapTo])

/-- What is in host order already stays so. -/
theorem data_toNative (hnative : b.format.isNative = true) : b.toNative.data = b.data := by
  rw [toNative, data_swapTo]
  exact SampleFormat.reorder_of_not_needsSwapTo (by
    rw [SampleFormat.needsSwapTo_host, hnative]
    rfl)

/-- Samples may be repeated after they were brought into another order. -/
theorem swapTo_monoToStereo (b : SampleBuffer) (order : ByteOrder) :
    (b.monoToStereo.swapTo order).data =
      (wholeGroups b.format.type.bytes (b.swapTo order).data).flatMap fun sample =>
        sample ++ sample := by
  have hlength : ∀ g : List UInt8, g.length = b.format.type.bytes →
      g.reverse.length = b.format.type.bytes := fun g hg => by rw [List.length_reverse, hg]
  by_cases hswap : b.format.needsSwapTo (b.format.withOrder order) = true
  · have hmono : (b.monoToStereo.swapTo order).data =
        mapGroups b.format.type.bytes List.reverse b.monoToStereo.data := if_pos hswap
    have hdata : (b.swapTo order).data = mapGroups b.format.type.bytes List.reverse b.data :=
      if_pos hswap
    rw [hmono, hdata, mapGroups, leftover_monoToStereo, wholeGroups_monoToStereo,
      wholeGroups_mapGroups b.format.type.bytes_pos hlength]
    simp [List.flatMap_assoc, List.flatMap_map]
  · have hmono : (b.monoToStereo.swapTo order).data = b.monoToStereo.data := if_neg hswap
    have hdata : (b.swapTo order).data = b.data := if_neg hswap
    rw [hmono, hdata]
    rfl

end SampleBuffer

namespace Conversion

variable {σ : Type} {c : Conversion σ} {source target : StreamParams}
  {resampler : Option (RunningResampler σ)}

/-- The same conversion into another number of channels and another byte order. -/
def redirected (c : Conversion σ) (channels : UInt16) (order : ByteOrder) : Conversion σ :=
  { c with target := { c.target with channels, format := c.target.format.withOrder order } }

theorem planned_redirected (resampler : Option (RunningResampler σ)) {channels : UInt16}
    (order : ByteOrder)
    (hfold : foldsFloats source { target with channels } = foldsFloats source target) :
    planned source { target with channels, format := target.format.withOrder order } resampler =
      (planned source target resampler).redirected channels order.resolve := by
  have hfold' : foldsFloats source
      { target with channels, format := target.format.withOrder order } =
        foldsFloats source target := hfold
  simp only [planned, hfold', redirected]
  rfl

/-! ## What is read and what is encoded -/

theorem exists_read
    (hnarrowing : ∀ n, c.narrowing = some n → c.source.format.type.hasByteOrder = true)
    (input : List UInt8) : ∃ s, c.load input = .ok s ∧ c.ReadAlike s s := by
  obtain ⟨s, _, hload, -, halike⟩ :=
    exists_load_ordered hnarrowing c.source.format.order c.target.format.order input
  exact ⟨s, hload, halike.self⟩

/-- What is encoded is of the target type, and in host order. -/
theorem exists_written {s : Samples} (h : c.ReadAlike s s) :
    ∃ t b, c.foldFloats s = .ok t ∧ c.encode t = .ok b ∧ b.format.isNative = true ∧
      b.format.type = c.target.format.type := by
  obtain ⟨t, _, b, _, hfold, -, hencode, -, halike, htype⟩ :=
    exists_encode_ordered h c.source.format.order c.target.format.order
  exact ⟨t, b, hfold, hencode, halike.isNative, htype⟩

theorem mix_of_channels_eq (hchannels : c.source.channels = c.target.channels) (b : SampleBuffer) :
    c.mix b = .ok b := by
  simp [mix, hchannels]

theorem mix_of_folded (hfold : c.floatDownmix = true) (b : SampleBuffer) : c.mix b = .ok b := by
  simp [mix, hfold]

/-- Where the mix of `c` does to a buffer what `φ` does to its bytes in another order, `c` follows
the conversion that keeps the channels and writes in that order. -/
theorem follows_redirected {order : ByteOrder} (φ : List UInt8 → List UInt8)
    (hnarrowing : ∀ n, c.narrowing = some n → c.source.format.type.hasByteOrder = true)
    (hnil : φ [] = [])
    (hmix : ∀ b, b.format.isNative = true → b.format.type = c.target.format.type →
      ∃ d, c.mix b = .ok d ∧ (d.swapTo c.target.format.order).data = φ (b.swapTo order).data) :
    (c.redirected c.source.channels order).Follows c id φ
      fun s s' => s' = s ∧ c.ReadAlike s s := by
  refine .of_same_read rfl (fun input => ?_) (fun s halike => ?_) .floats hnil
  · obtain ⟨s, hload, halike⟩ := exists_read hnarrowing input
    exact ⟨s, hload, hload, halike⟩
  · obtain ⟨t, b, hfold, hencode, hnative, htype⟩ := exists_written halike
    obtain ⟨d, hmixed, hdata⟩ := hmix b hnative htype
    have hkept : (c.redirected c.source.channels order).finish s = .ok (b.swapTo order).data :=
      finish_of_stages (c := c.redirected c.source.channels order) hfold hencode
        (mix_of_channels_eq rfl b)
    rw [finish_of_stages hfold hencode hmixed, hkept, hdata]
    rfl

/-! ## The three ways to change the channels -/

variable {P : RateProvider σ} {settings : Settings}

/-- A conversion that changes the channels of buffers, and the one that keeps them. -/
theorem exists_kept (hcreate : create P settings source target = .ok c)
    (hfold : foldsFloats source target = false) (order : ByteOrder) (φ : List UInt8 → List UInt8)
    (hnil : φ [] = [])
    (hmix : ∀ b : SampleBuffer, b.format.isNative = true →
      b.format.type = target.format.type → ∃ d, c.mix b = .ok d ∧
        (d.swapTo target.format.order).data = φ (b.swapTo order).data)
    (requests : List Request) :
    ∃ kept, create P settings source { target with
        channels := source.channels, format := target.format.withOrder order } = .ok kept ∧
      results perform c requests = (results perform kept requests).map (Except.map φ) := by
  obtain ⟨hvalid, hvalid', -, resampler, hresampler, rfl⟩ := create_eq_ok_iff.1 hcreate
  have hfold' : foldsFloats source { target with channels := source.channels } = false := by
    by_cases hsix : source.channels = 6 <;> simp [foldsFloats, hsix]
  have hplanned := planned_redirected resampler order (hfold'.trans hfold.symm)
  have hkept : create P settings source { target with
      channels := source.channels, format := target.format.withOrder order } =
        .ok ((planned source target resampler).redirected source.channels order.resolve) := by
    refine create_eq_ok_iff.2 ⟨hvalid, ?_, by simp [remapSupported], resampler, hresampler,
      hplanned.symm⟩
    simp only [StreamParams.isValid, Bool.and_eq_true] at hvalid hvalid' ⊢
    exact ⟨hvalid'.1, hvalid.2⟩
  have hfollows := follows_redirected (c := planned source target resampler) φ
    hasByteOrder_of_narrowing hnil fun b hnative htype => by
      obtain ⟨d, hmixed, hdata⟩ := hmix b hnative htype
      rw [← b.data_swapTo_resolve, ← d.data_swapTo_resolve] at hdata
      exact ⟨d, hmixed, hdata⟩
  exact ⟨_, hkept, results_of_follows hfollows (accepted_of_create hkept)
    (accepted_of_create hcreate) requests⟩

/-- From mono to stereo every sample of the mono conversion is repeated. -/
theorem results_repeated (hcreate : create P settings source target = .ok c)
    (hsource : source.channels = 1) (htarget : target.channels = 2) (requests : List Request) :
    ∃ mono, create P settings source { target with channels := 1 } = .ok mono ∧
      results perform c requests = (results perform mono requests).map
        (Except.map fun out =>
          (wholeGroups target.format.type.bytes out).flatMap fun sample => sample ++ sample) := by
  have hfold : foldsFloats source target = false := by simp [foldsFloats, hsource]
  rw [← hsource]
  refine exists_kept hcreate hfold target.format.order _ ?_ ?_ requests
  · exact (framewise_groups target.format.type.bytes_pos (f := fun sample => sample ++ sample)
      fun g hg => by rw [List.length_append, hg]).nil
  · intro b _ htype
    obtain ⟨-, -, resampler, rfl, -⟩ := create_eq_ok hcreate
    refine ⟨b.monoToStereo, ?_, ?_⟩
    · simp [mix, planned, hsource, htarget, hfold, SampleBuffer.remap]
    · rw [SampleBuffer.swapTo_monoToStereo, htype]

/-- From 5.1 to stereo, into a type that is folded in its own width, the frames of the conversion
that keeps six channels are folded. -/
theorem results_folded (hcreate : create P settings source target = .ok c)
    (hsource : source.channels = 6) (htarget : target.channels = 2)
    (hsupported : Downmix.supports target.format.type = true) (requests : List Request) :
    ∃ six, create P settings source
        { target with channels := 6, format := target.format.withOrder .native } = .ok six ∧
      results perform c requests = (results perform six requests).map fun answer =>
        answer.bind fun out =>
          liftFault ((SampleBuffer.mk out (target.format.withOrder .native)).downmix.map
            fun stereo => (stereo.swapTo target.format.order).data) := by
  have hfold : foldsFloats source target = false := by simp [foldsFloats, hsupported]
  -- What the fold makes of bytes in host order, in the order of the target.
  obtain ⟨f, hf, hdownmix⟩ :=
    SampleBuffer.downmix_streams (target.format.withOrder .native) hsupported
  let φ (out : List UInt8) : List UInt8 :=
    ((SampleBuffer.ofFormat (target.format.withOrder .native) (f out)).swapTo
      target.format.order).data
  have hkept := exists_kept hcreate hfold .native φ ?_ ?_ requests
  · rw [hsource] at hkept
    obtain ⟨six, hsix, hresults⟩ := hkept
    refine ⟨six, hsix, hresults.trans ?_⟩
    refine List.map_congr_left fun answer _ => ?_
    cases answer with
    | error failure => rfl
    | ok out =>
        show _ = liftFault ((SampleBuffer.downmix (.ofFormat _ out)).map _)
        rw [hdownmix]
        rfl
  · show ((SampleBuffer.ofFormat _ (f [])).swapTo _).data = []
    rw [hf.nil]
    exact SampleFormat.reorder_nil ..
  · intro b hnative htype
    obtain ⟨-, -, resampler, rfl, -⟩ := create_eq_ok hcreate
    have halike : b.Alike (.ofFormat (target.format.withOrder .native) b.data) :=
      ⟨rfl, htype.symm, hnative, by
        simp [SampleFormat.isNative, SampleFormat.withOrder, ByteOrder.resolve, ByteOrder.host]⟩
    obtain ⟨d, d', hd, hd', hfolded, -⟩ := halike.downmix (htype.symm ▸ hsupported)
    obtain rfl := Except.ok.inj ((hdownmix b.data).symm.trans hd')
    refine ⟨d, ?_, ?_⟩
    · simp [mix, planned, hsource, htarget, hfold, SampleBuffer.remap, hd]
    · have hhost : (b.swapTo .native).data = b.data := SampleBuffer.data_toNative hnative
      rw [hhost]
      exact (hfolded.swapTo_self _).symm

/-! ### Folding on floats -/

theorem load_congr (c c' : Conversion σ) (hsource : c'.source = c.source)
    (hnarrowing : c'.narrowing = c.narrowing)
    (hneeds : ∀ F, c'.needsFloats F = c.needsFloats F) (input : List UInt8) :
    c'.load input = c.load input := by
  have hnormalise : c'.normalise input = c.normalise input := by
    simp only [normalise, hsource, hnarrowing]
  simp only [load, hnormalise, hneeds]

theorem exists_load_floats (hnarrowing : c.narrowing = none)
    (hneeds : ∀ F, c.needsFloats F = true) (input : List UInt8) :
    ∃ xs, c.load input = .ok (.floats xs) := by
  obtain ⟨s, hload, -⟩ := exists_read (c := c) (fun n hn => by simp [hnarrowing] at hn) input
  cases s with
  | floats xs => exact ⟨xs, hload⟩
  | integers b => exact absurd (load_eq_integers hload).2.2 (by simp [hneeds])

/-- The conversion of floats into the target type, with nothing else to do. -/
def fromFloats (target : StreamParams) : Conversion σ :=
  planned target.inFloats target none

section Floats

variable (source target) (resampler)

theorem narrowing_inFloats : (planned source target.inFloats resampler).narrowing = none := by
  have hselect : ∀ t, Narrowing.select t .f32 = none := fun t => by cases t <;> rfl
  show (if _ then Narrowing.select _ SampleType.f32 else none) = none
  rw [hselect, ite_self]

theorem narrowing_fromFloats : (fromFloats target : Conversion σ).narrowing = none := by
  have hselect : ∀ t, Narrowing.select .f32 t = none := fun t => by cases t <;> rfl
  show (if _ then Narrowing.select SampleType.f32 _ else none) = none
  rw [hselect, ite_self]

theorem floatDownmix_inFloats :
    (planned source target.inFloats resampler).floatDownmix = false := by
  simp [planned, foldsFloats, StreamParams.inFloats, SampleFormat.withType, Downmix.supports]

end Floats

/-- Whether floats are folded before the target type is made or afterwards, they are what is read. -/
theorem exists_load_folded (hfold : foldsFloats source target = true) (input : List UInt8) :
    ∃ xs, (planned source target resampler).load input = .ok (.floats xs) ∧
      (planned source target.inFloats resampler).load input = .ok (.floats xs) := by
  have hnarrowing : (planned source target resampler).narrowing = none := by
    simp [planned, hfold]
  have hneeds : ∀ F, (planned source target resampler).needsFloats F = true := fun F => by
    simp [needsFloats, planned, hfold]
  have hneeds' : ∀ F, (planned source target.inFloats resampler).needsFloats F = true :=
    fun F => by
      have hfloat : (planned source target.inFloats resampler).target.format.type.isFloat = true :=
        rfl
      simp [needsFloats, hfloat]
  obtain ⟨xs, hload⟩ := exists_load_floats hnarrowing hneeds input
  have hsame := load_congr (planned source target resampler)
    (planned source target.inFloats resampler) rfl
    ((narrowing_inFloats source target resampler).trans hnarrowing.symm)
    (fun F => (hneeds' F).trans (hneeds F).symm) input
  exact ⟨xs, hload, hsame.trans hload⟩

/-- Folded floats are written as their bytes. -/
theorem finish_inFloats (hsource : source.channels = 6) (htarget : target.channels = 2)
    {xs : List Binary32} {d : SampleBuffer} (hdownmix : (SampleBuffer.ofFloats xs).downmix = .ok d)
    (hfloat : d.format.type = .f32) :
    (planned source target.inFloats resampler).finish (.floats xs) = .ok d.data := by
  have hfold := floatDownmix_inFloats source target resampler
  have hmix : (planned source target.inFloats resampler).mix (.ofFloats xs) = .ok d := by
    have hsource' : (planned source target.inFloats resampler).source.channels = 6 := hsource
    have htarget' : (planned source target.inFloats resampler).target.channels = 2 := htarget
    simp [mix, hfold, hsource', htarget', SampleBuffer.remap, hdownmix]
  rw [finish_of_stages (foldFloats_eq_self hfold _) rfl hmix, SampleBuffer.data_swapTo,
    SampleFormat.reorder_of_not_needsSwapTo]
  rw [SampleFormat.needsSwapTo, hfloat]
  rfl

/-- The bytes of floats are read as these floats. -/
theorem load_fromFloats {b : SampleBuffer} {ys : List Binary32} (hfloat : b.format.type = .f32)
    (hread : b.toFloats = .ok ys) :
    (fromFloats target : Conversion σ).load b.data = .ok (.floats ys) := by
  have hnormalise : (fromFloats target : Conversion σ).normalise b.data =
      ⟨b.data, target.format.withType .f32⟩ := by
    rw [normalise_of_none (narrowing_fromFloats target)]
    exact native_of_isNative rfl b.data
  have hread' : (SampleBuffer.mk b.data (target.format.withType .f32)).toFloats = .ok ys := by
    rw [← hread]
    simp only [SampleBuffer.toFloats, hfloat]
    rfl
  simp only [load, hnormalise]
  rw [hread']
  rfl

/-- To fold floats and write them in another type is to write the folded floats, and these bytes
again in that type. -/
theorem exists_finish_folded (hsource : source.channels = 6) (htarget : target.channels = 2)
    (hfold : foldsFloats source target = true) (xs : List Binary32) :
    ∃ out, (planned source target.inFloats resampler).finish (.floats xs) = .ok out ∧
      (planned source target resampler).finish (.floats xs) =
        (fromFloats target : Conversion σ).load out >>= (fromFloats target : Conversion σ).finish := by
  obtain ⟨d, hdownmix, hfloat⟩ : ∃ d, (SampleBuffer.ofFloats xs).downmix = .ok d ∧
      d.format.type = .f32 := ⟨_, rfl, rfl⟩
  obtain ⟨ys, hread⟩ : ∃ ys, d.toFloats = .ok ys := ⟨_, if_pos (by rw [hfloat]; rfl)⟩
  obtain ⟨b, hencode⟩ : ∃ b, (planned source target resampler).encode (.floats ys) = .ok b := by
    obtain ⟨f, -, hencode⟩ := encode_floats_streams (planned source target resampler)
    exact ⟨_, hencode ys⟩
  refine ⟨d.data, finish_inFloats hsource htarget hdownmix hfloat, ?_⟩
  -- Both ways the folded floats are encoded, and nothing is mixed any more.
  have hfolded : (planned source target resampler).foldFloats (.floats xs) =
      .ok (.floats ys) := by
    simp only [foldFloats, planned, hfold, if_true, hdownmix, bind, Except.bind, hread]
    rfl
  have hunfolded : (fromFloats target : Conversion σ).floatDownmix = false := by
    simp [fromFloats, planned, foldsFloats, StreamParams.inFloats, htarget]
  have hagain : (fromFloats target : Conversion σ).finish (.floats ys) =
      .ok (b.swapTo target.format.order.resolve).data :=
    finish_of_stages (c := fromFloats target) (foldFloats_eq_self hunfolded _) hencode
      (mix_of_channels_eq rfl b)
  rw [load_fromFloats hfloat hread, finish_of_stages hfolded hencode (mix_of_folded hfold b)]
  exact hagain.symm

/-- A conversion that folds floats follows the one into floats, by what `φ` makes of the bytes of the
folded floats. -/
theorem follows_inFloats (resampler : Option (RunningResampler σ))
    {φ : List UInt8 → List UInt8} (hsource : source.channels = 6)
    (htarget : target.channels = 2) (hfold : foldsFloats source target = true) (hnil : φ [] = [])
    (hlast : ∀ out, (fromFloats target : Conversion σ).load out >>=
      (fromFloats target : Conversion σ).finish = .ok (φ out)) :
    (planned source target.inFloats resampler).Follows (planned source target resampler) id φ
      fun s s' => s' = s ∧ ∃ xs, s = .floats xs := by
  refine .of_same_read rfl (fun input => ?_) ?_ (fun xs => ⟨xs, rfl⟩) hnil
  · obtain ⟨xs, hload, hload'⟩ := exists_load_folded hfold input
    exact ⟨_, hload', hload, xs, rfl⟩
  · rintro _ ⟨xs, rfl⟩
    obtain ⟨out, hout, hfinish⟩ := exists_finish_folded hsource htarget hfold xs
    rw [hfinish, hout, hlast]
    rfl

/-- From 5.1 to stereo, into a type that is not folded in its own width, floats are folded and then
written as that type. -/
theorem results_folded_floats (hcreate : create P settings source target = .ok c)
    (hsource : source.channels = 6) (htarget : target.channels = 2)
    (hsupported : Downmix.supports target.format.type = false) (requests : List Request) :
    ∃ floats last, create P settings source target.inFloats = .ok floats ∧
      create P settings target.inFloats target = .ok last ∧
      results perform c requests = (results perform floats requests).map fun answer =>
        answer.bind fun out => (last.convert out).1 := by
  have hfold : foldsFloats source target = true := by
    simp [foldsFloats, hsource, htarget, hsupported]
  obtain ⟨hvalid, hvalid', hremap, resampler, hresampler, rfl⟩ := create_eq_ok_iff.1 hcreate
  have hfloats : create P settings source target.inFloats =
      .ok (planned source target.inFloats resampler) :=
    create_eq_ok_iff.2 ⟨hvalid, hvalid', hremap, resampler, hresampler, rfl⟩
  have hlast : create P settings target.inFloats target = .ok (fromFloats target) :=
    create_eq_ok_iff.2 ⟨hvalid', hvalid', by simp [remapSupported, StreamParams.inFloats], none,
      if_pos rfl, rfl⟩
  obtain ⟨f, hf, hconvert⟩ := exists_convert_of_none (accepted_of_create hlast) rfl
  have hfollows := follows_inFloats resampler hsource htarget hfold hf.nil
    fun out => by
      have hanswer := congrArg Prod.fst (hconvert out)
      rw [convert_of_none rfl] at hanswer
      exact liftFault_eq_ok hanswer
  have hresults := results_of_follows hfollows (accepted_of_create hfloats)
    (accepted_of_create hcreate) requests
  refine ⟨_, _, hfloats, hlast, hresults.trans (List.map_congr_left fun answer _ => ?_)⟩
  cases answer with
  | error failure => rfl
  | ok out => exact (congrArg Prod.fst (hconvert out)).symm

/-! ## Every change of channels -/

/-- **A change of channels factors out.**  A conversion between streams of different channels gives
to every session the answers of another conversion, remapped:

* from mono to stereo, those of the mono conversion with every whole sample repeated;
* from 5.1 to stereo into `s16`, `s32` or `f32`, those of the conversion that keeps six channels, in
  host order, folded and brought into the target's order;
* from 5.1 to stereo into any other type, those of the conversion into floats, each converted from
  floats to that type at one rate. -/
theorem remapping_factors (hcreate : create P settings source target = .ok c)
    (hdiffer : source.channels ≠ target.channels) (requests : List Request) :
    (source.channels = 1 ∧ target.channels = 2 ∧
      ∃ mono, create P settings source { target with channels := 1 } = .ok mono ∧
        results perform c requests = (results perform mono requests).map
          (Except.map fun out =>
            (wholeGroups target.format.type.bytes out).flatMap fun sample => sample ++ sample)) ∨
    (source.channels = 6 ∧ target.channels = 2 ∧
      target.format.type ∈ [SampleType.s16, .s32, .f32] ∧
      ∃ six, create P settings source
          { target with channels := 6, format := target.format.withOrder .native } = .ok six ∧
        results perform c requests = (results perform six requests).map fun answer =>
          answer.bind fun out =>
            liftFault ((SampleBuffer.mk out (target.format.withOrder .native)).downmix.map
              fun stereo => (stereo.swapTo target.format.order).data)) ∨
    (source.channels = 6 ∧ target.channels = 2 ∧
      target.format.type ∉ [SampleType.s16, .s32, .f32] ∧
      ∃ floats last, create P settings source target.inFloats = .ok floats ∧
        create P settings target.inFloats target = .ok last ∧
        results perform c requests = (results perform floats requests).map fun answer =>
          answer.bind fun out => (last.convert out).1) := by
  obtain ⟨-, -, hremap, -⟩ := create_eq_ok_iff.1 hcreate
  simp only [remapSupported, hdiffer, Bool.or_eq_true, Bool.and_eq_true, decide_eq_true_eq,
    false_or] at hremap
  rcases hremap with ⟨hsource, htarget⟩ | ⟨hsource, htarget⟩
  · exact .inl ⟨hsource, htarget, results_repeated hcreate hsource htarget requests⟩
  by_cases hsupported : Downmix.supports target.format.type = true
  · exact .inr (.inl ⟨hsource, htarget, Downmix.supports_iff.1 hsupported,
      results_folded hcreate hsource htarget hsupported requests⟩)
  · exact .inr (.inr ⟨hsource, htarget, fun hmem => hsupported (Downmix.supports_iff.2 hmem),
      results_folded_floats hcreate hsource htarget (Bool.not_eq_true _ ▸ hsupported) requests⟩)

/-- A frame and a sample of 5.1 at twice the rate, into packed 24 bits: floats are folded first. -/
theorem remapping_factors_standard :
    ∃ c floats last : Conversion StandardBackend,
      create .standard { method := .zeroOrderHold } ⟨24000, 6, ⟨.u8, .native⟩⟩
        ⟨48000, 2, ⟨.s24Packed, .big⟩⟩ = .ok c ∧
      create .standard { method := .zeroOrderHold } ⟨24000, 6, ⟨.u8, .native⟩⟩
        ⟨48000, 2, ⟨.f32, .big⟩⟩ = .ok floats ∧
      create .standard { method := .zeroOrderHold } ⟨48000, 2, ⟨.f32, .big⟩⟩
        ⟨48000, 2, ⟨.s24Packed, .big⟩⟩ = .ok last ∧
      results perform c [.chunk [1, 2, 3, 4, 5, 6, 7], .flush] =
        (results perform floats [.chunk [1, 2, 3, 4, 5, 6, 7], .flush]).map fun answer =>
          answer.bind fun out => (last.convert out).1 := by
  obtain ⟨c, hcreate⟩ := exists_eq_ok (x := create .standard { method := .zeroOrderHold }
    ⟨24000, 6, ⟨.u8, .native⟩⟩ ⟨48000, 2, ⟨.s24Packed, .big⟩⟩) (by decide +kernel)
  rcases remapping_factors hcreate (by decide) [.chunk [1, 2, 3, 4, 5, 6, 7], .flush] with
    ⟨hmono, -⟩ | ⟨-, -, hsupported, -⟩ | ⟨-, -, -, floats, last, hfloats, hlast, hresults⟩
  · exact absurd hmono (by decide)
  · exact absurd hsupported (by decide)
  · exact ⟨c, floats, last, hcreate, hfloats, hlast, hresults⟩

end Conversion

end PcmConversion
