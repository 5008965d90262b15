import PcmConversion.Proofs.Conversion.Safety
import PcmConversion.Proofs.Sample.FreeBytes
import PcmConversion.Rate.Standard

/-!
# Free bytes do not reach the audio

A conversion that reads containers of 24 bits does not listen to their free bytes.  What it reads of
a blanked chunk is what it reads of the chunk itself, blanked at most (`load_blanked`), and so is what
it writes (`finish_blanked`).  Hence two sessions whose chunks differ in free bytes only have answers
of the same lengths and values, and the same answers unless containers are written
(`results_of_blanked_eq`).
-/

namespace PcmConversion

/-- Of containers only a truncation to 16 bits is made. -/
theorem Narrowing.select_of_isContainer {current target : SampleType} {n : Narrowing}
    (hcurrent : current.isContainer = true) (h : select current target = some n) :
    n = bits24To16 := by
  revert h hcurrent
  cases current <;> cases target <;> simp [select, SampleType.isContainer, eq_comm]

/-- Samples whose buffer is blanked, where they are in one. -/
def Samples.blanked : Samples → Samples
  | .integers b => .integers b.blanked
  | .floats xs => .floats xs

namespace Conversion

variable {σ : Type} {c : Conversion σ}

/-! ## Reading -/

theorem native_blanked (c : Conversion σ) (input : List UInt8) :
    c.native (c.source.format.blanked input) = (c.native input).blanked := by
  by_cases hnative : c.source.format.isNative = true
  · rw [native_of_isNative hnative, native_of_isNative hnative]
    rfl
  · have hswapped : ∀ data, c.native data =
        (SampleBuffer.mk data c.source.format).swapTo ByteOrder.host := fun _ => if_neg hnative
    rw [hswapped, hswapped, ← SampleBuffer.swapTo_blanked]
    rfl

theorem normalise_blanked (hsource : c.source.format.type.isContainer = true)
    (hnarrowing : ∀ n, c.narrowing = some n → n = .bits24To16) (input : List UInt8) :
    c.normalise (c.source.format.blanked input) = (c.normalise input).blanked := by
  obtain ⟨hnative, htype⟩ := format_native c input
  cases hn : c.narrowing with
  | none => rw [normalise_of_none hn, normalise_of_none hn, native_blanked]
  | some n =>
      obtain rfl := hnarrowing n hn
      have hcontainer : (c.native input).format.type.isContainer = true := htype ▸ hsource
      -- What is truncated is no container any more.
      have hnone : (Narrowing.bits24To16.apply (c.native input)).format.type.isContainer = false := by
        show (Narrowing.bits24To16.outputType (c.native input).format.type).isContainer = false
        revert hcontainer
        cases (c.native input).format.type <;> decide
      rw [normalise_of_some hn, normalise_of_some hn, native_blanked,
        SampleBuffer.apply_bits24To16_blanked hcontainer hnative,
        SampleBuffer.blanked_of_not_isContainer hnone]

/-- A truncated container is an integer in host order, and so is one that is not truncated. -/
theorem normalise_container (hsource : c.source.format.type.isContainer = true)
    (hnarrowing : ∀ n, c.narrowing = some n → n = .bits24To16) (input : List UInt8) :
    (c.normalise input).format.isNative = true ∧
      (c.normalise input).format.type.isFloat = false := by
  obtain ⟨hnative, htype⟩ := format_native c input
  have hcontainer : (c.native input).format.type.isContainer = true := htype ▸ hsource
  cases hn : c.narrowing with
  | none =>
      rw [normalise_of_none hn]
      exact ⟨hnative, (SampleType.layout_container hcontainer).2⟩
  | some n =>
      obtain rfl := hnarrowing n hn
      have hhas : (c.native input).format.type.hasByteOrder = true := by
        revert hcontainer
        cases (c.native input).format.type <;> decide
      rw [normalise_of_some hn]
      refine ⟨SampleBuffer.isNative_apply _ hhas hnative, ?_⟩
      show (Narrowing.bits24To16.outputType (c.native input).format.type).isFloat = false
      revert hcontainer
      cases (c.native input).format.type <;> decide

/-- A blanked chunk is read as the chunk itself, blanked at most. -/
theorem load_blanked (hsource : c.source.format.type.isContainer = true)
    (hnarrowing : ∀ n, c.narrowing = some n → n = .bits24To16) (input : List UInt8) :
    c.load (c.source.format.blanked input) = (c.load input).map Samples.blanked := by
  obtain ⟨hnative, hinteger⟩ := normalise_container hsource hnarrowing input
  simp only [load, normalise_blanked hsource hnarrowing, SampleBuffer.format_blanked, hinteger,
    Bool.false_eq_true, if_false]
  generalize c.normalise input = b at hnative hinteger ⊢
  split_ifs with hneeds
  · rw [SampleBuffer.decode_blanked hnative hinteger]
    cases b.decode <;> rfl
  · rfl

/-! ## Writing -/

section Writing

variable {b : SampleBuffer}

/-- Containers are written as containers only by keeping them or by toggling their sign. -/
theorem encode_blanked (hcontainer : b.format.type.isContainer = true)
    (hnative : b.format.isNative = true) :
    c.encode (.integers b.blanked) = (c.encode (.integers b)).map SampleBuffer.blanked := by
  have hinteger := (SampleType.layout_container hcontainer).2
  by_cases htoggled : b.format.type.toggledSign = some c.target.format.type
  · have htoggle : ∀ d : SampleBuffer, d.format = b.format → c.encode (.integers d) = d.toggleSign :=
      fun d hd => if_pos (hd ▸ htoggled)
    rw [htoggle b.blanked rfl, htoggle b rfl, SampleBuffer.toggleSign_blanked hcontainer]
  by_cases hsame : b.format.type = c.target.format.type
  · have hkept : ∀ d : SampleBuffer, d.format = b.format → c.encode (.integers d) = .ok d :=
      fun d hd => (if_neg (hd ▸ htoggled)).trans (if_pos (hd ▸ hsame))
    rw [hkept b.blanked rfl, hkept b rfl]
    rfl
  · have hquantised : ∀ d : SampleBuffer, d.format = b.format →
        c.encode (.integers d) = d.decode >>= (SampleBuffer.quantise · c.target.format.type) :=
      fun d hd => (if_neg (hd ▸ htoggled)).trans (if_neg (hd ▸ hsame))
    have hnone : c.target.format.type.isContainer = false := by
      revert hcontainer htoggled hsame
      cases b.format.type <;> cases c.target.format.type <;> decide
    rw [hquantised b.blanked rfl, hquantised b rfl, SampleBuffer.decode_blanked hnative hinteger]
    cases hencoded : b.decode >>= (SampleBuffer.quantise · c.target.format.type) with
    | error fault => rfl
    | ok d =>
        have htype : d.format.type = c.target.format.type :=
          type_encode ((hquantised b rfl).trans hencoded)
        exact congrArg Except.ok (SampleBuffer.blanked_of_not_isContainer (htype ▸ hnone)).symm

theorem mix_blanked (b : SampleBuffer) :
    c.mix b.blanked = (c.mix b).map SampleBuffer.blanked := by
  cases hcontainer : b.format.type.isContainer with
  | true =>
      unfold mix
      split_ifs
      · exact SampleBuffer.remap_blanked hcontainer _ _
      · rfl
  | false =>
      rw [SampleBuffer.blanked_of_not_isContainer hcontainer]
      cases hmixed : c.mix b with
      | error fault => rfl
      | ok d =>
          have hformat := format_mix hmixed
          exact congrArg Except.ok
            (SampleBuffer.blanked_of_not_isContainer (hformat ▸ hcontainer)).symm

/-- Of blanked containers the last stages make what they make of the containers, blanked. -/
theorem finish_blanked (hcontainer : b.format.type.isContainer = true)
    (hnative : b.format.isNative = true) :
    c.finish (.integers b.blanked) =
      (c.finish (.integers b)).map c.target.format.blanked := by
  rw [finish_eq]
  show ((c.encode (.integers b.blanked)) >>= c.mix) >>= c.order =
    (((c.encode (.integers b)) >>= c.mix) >>= c.order).map c.target.format.blanked
  rw [encode_blanked hcontainer hnative]
  cases hencoded : c.encode (.integers b) with
  | error fault => rfl
  | ok d =>
      show (c.mix d.blanked) >>= c.order = ((c.mix d) >>= c.order).map c.target.format.blanked
      rw [mix_blanked]
      cases hmixed : c.mix d with
      | error fault => rfl
      | ok d' =>
          have hformat : (d'.swapTo c.target.format.order).format = c.target.format := by
            rw [SampleBuffer.swapTo, SampleFormat.withOrder, format_mix hmixed,
              type_encode hencoded]
          show Except.ok (d'.blanked.swapTo c.target.format.order).data = _
          rw [SampleBuffer.swapTo_blanked, SampleBuffer.blanked_data, hformat]
          rfl

end Writing

/-! ## Sessions -/

section Sessions

variable {β : Type} {f : List UInt8 → β} (hsource : c.source.format.type.isContainer = true)
  (hnarrowing : ∀ n, c.narrowing = some n → n = .bits24To16)

include hsource hnarrowing

/-- Who does not look at the free bytes of an answer cannot tell whether those of the chunk were
set to zero. -/
theorem answer_blanked (hf : ∀ out, f (c.target.format.blanked out) = f out) (request : Request) :
    (c.answer (request.map c.source.format.blanked)).map f = (c.answer request).map f := by
  cases request with
  | flush => rfl
  | chunk input =>
      have hload := load_blanked hsource hnarrowing input
      simp only [answer, Request.map, hload]
      cases hread : c.load input with
      | error fault => rfl
      | ok s =>
          cases s with
          | floats xs => rfl
          | integers b =>
              show (liftFault (c.finish (.integers b.blanked))).map f =
                (liftFault (c.finish (.integers b))).map f
              cases hcontainer : b.format.type.isContainer with
              | false => rw [SampleBuffer.blanked_of_not_isContainer hcontainer]
              | true =>
                  obtain rfl := (load_eq_integers hread).1
                  have hnative := (normalise_container hsource hnarrowing input).1
                  rw [finish_blanked hcontainer hnative]
                  cases c.finish (.integers (c.normalise input)) with
                  | error fault => rfl
                  | ok out => exact congrArg Except.ok (hf out)

theorem results_blanked (hc : c.Accepted) (hf : ∀ out, f (c.target.format.blanked out) = f out)
    (requests : List Request) :
    (results perform c (requests.map (Request.map c.source.format.blanked))).map (Except.map f) =
      (results perform c requests).map (Except.map f) := by
  cases hresampler : c.resampler with
  | none =>
      rw [results_of_none hresampler, results_of_none hresampler]
      simp only [List.map_map]
      exact List.map_congr_left fun request _ => answer_blanked hsource hnarrowing hf request
  | some r =>
      -- The resampler is fed the same floats.
      obtain ⟨g, w, -, hw, hread, hwrite⟩ := exists_stages hc (by rw [hresampler]; rfl)
      have hfed : ∀ input, g (c.source.format.blanked input) = g input := by
        intro input
        have hload := load_blanked hsource hnarrowing input
        rw [hread, hread] at hload
        exact Samples.floats.inj (Except.ok.inj hload)
      have hrequests : (requests.map (Request.map c.source.format.blanked)).map
          (Request.forResampler g) = requests.map (Request.forResampler g) := by
        rw [List.map_map]
        refine List.map_congr_left fun request _ => ?_
        cases request with
        | chunk input => exact congrArg Resampler.Request.chunk (hfed input)
        | flush => rfl
      have hresults := results_of_some (r := r) hread hwrite hw.nil r.state
      rw [withState_self hresampler] at hresults
      rw [hresults, hresults, hrequests]

end Sessions

variable {source target : StreamParams} {P : RateProvider σ} {settings : Settings}

/-- **Free bytes do not reach the audio.**  A new conversion reads containers of 24 bits, and is sent
two lists of requests that are the same once the free byte of every container, in the byte order of
the source, is set to zero.  Then the answers to the two are

* of the same lengths, and of the same values, where they succeed, and the same errors otherwise;
* the same byte for byte, unless the target is a container itself. -/
theorem results_of_blanked_eq (hcreate : create P settings source target = .ok c)
    (hsource : source.format.type.isContainer = true) {requests requests' : List Request}
    (hsame : requests.map (Request.map source.format.blanked) =
      requests'.map (Request.map source.format.blanked)) :
    (results perform c requests).map (Except.map List.length) =
        (results perform c requests').map (Except.map List.length) ∧
      (results perform c requests).map (Except.map target.format.values) =
        (results perform c requests').map (Except.map target.format.values) ∧
      (target.format.type.isContainer = false →
        results perform c requests = results perform c requests') := by
  have hc := accepted_of_create hcreate
  obtain ⟨-, -, resampler, rfl, -⟩ := create_eq_ok hcreate
  have hnarrowing : ∀ n, (planned source target resampler).narrowing = some n →
      n = .bits24To16 := by
    intro n hn
    simp only [planned] at hn
    split at hn
    · exact Narrowing.select_of_isContainer hsource hn
    · cases hn
  have hobserved : ∀ {β : Type} {f : List UInt8 → β},
      (∀ out, f (target.format.resolved.blanked out) = f out) →
        (results perform (planned source target resampler) requests).map (Except.map f) =
          (results perform (planned source target resampler) requests').map (Except.map f) := by
    intro β f hf
    have hfirst := results_blanked (c := planned source target resampler) hsource hnarrowing hc hf
      requests
    have hsecond := results_blanked (c := planned source target resampler) hsource hnarrowing hc hf
      requests'
    rw [← hfirst, ← hsecond]
    exact congrArg (fun rs => (results perform _ rs).map (Except.map f)) hsame
  refine ⟨hobserved (SampleFormat.length_blanked _), hobserved fun out => ?_, fun htarget => ?_⟩
  · rw [← SampleFormat.values_resolved, SampleFormat.values_blanked]
  · have hall := hobserved (f := id) (SampleFormat.blanked_of_not_isContainer htarget)
    have hid : (Except.map id : Except Failure (List UInt8) → _) = id := by
      funext answer
      cases answer <;> rfl
    rwa [hid, List.map_id, List.map_id] at hall

/-- The value -1, in big-endian containers whose high bytes differ, becomes unsigned and stereo. -/
theorem results_of_blanked_eq_stereo :
    ∃ c : Conversion StandardBackend,
      create .standard {} ⟨44100, 1, ⟨.s24, .big⟩⟩ ⟨44100, 2, ⟨.u24, .little⟩⟩ = .ok c ∧
      results perform c [.chunk [0x12, 0xff, 0xff, 0xff], .flush] =
        [.ok [0xff, 0xff, 0x7f, 0x12, 0xff, 0xff, 0x7f, 0x12], .ok []] ∧
      (results perform c [.chunk [0x34, 0xff, 0xff, 0xff], .flush]).map
        (Except.map (SampleFormat.mk .u24 .little).values) = [.ok [-1, -1], .ok []] := by
  obtain ⟨c, hcreate, hresults⟩ : ∃ c : Conversion StandardBackend,
      create .standard {} ⟨44100, 1, ⟨.s24, .big⟩⟩ ⟨44100, 2, ⟨.u24, .little⟩⟩ = .ok c ∧
      results perform c [.chunk [0x12, 0xff, 0xff, 0xff], .flush] =
        [.ok [0xff, 0xff, 0x7f, 0x12, 0xff, 0xff, 0x7f, 0x12], .ok []] := ⟨_, rfl, rfl⟩
  have hsame : [Request.chunk [0x34, 0xff, 0xff, 0xff], .flush].map
        (Request.map (SampleFormat.mk .s24 .big).blanked) =
      [Request.chunk [0x12, 0xff, 0xff, 0xff], .flush].map
        (Request.map (SampleFormat.mk .s24 .big).blanked) := rfl
  obtain ⟨-, hvalues, -⟩ := results_of_blanked_eq hcreate rfl hsame
  refine ⟨c, hcreate, hresults, hvalues.trans ?_⟩
  rw [hresults]
  rfl

end Conversion

end PcmConversion
