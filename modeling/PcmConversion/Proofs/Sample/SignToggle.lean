import PcmConversion.Proofs.Sample.ByteOrder
import PcmConversion.Proofs.Sample.Containers

/-!
# Toggling the sign against decoding and quantising

A sign toggle flips one bit of each sample, while decoding and quantising a type of either signedness
add or subtract half the range.  Both ways lead to the same floats and to the same values
(`SampleBuffer.toggleSign_agrees`), since a type is decoded and quantised by its width alone.  Where
no byte of a sample is free its value determines its bytes (`SampleType.canonical_of_full`), so both
ways lead to the same bytes too.
-/

namespace PcmConversion

namespace SampleType

variable {t toggled : SampleType} {sample : List UInt8}

theorem decode_toggledSign (h : t.toggledSign = some toggled) : toggled.decode = t.decode := by
  funext v
  rw [decode, decode, bits_toggledSign h]

theorem quantise_toggledSign (h : t.toggledSign = some toggled) :
    toggled.quantise = t.quantise := by
  funext x
  rw [quantise, quantise, bits_toggledSign h]

theorem isContainer_toggledSign (h : t.toggledSign = some toggled) :
    toggled.isContainer = t.isContainer := by
  revert h
  cases t <;> cases toggled <;> simp [toggledSign, isContainer]

/-- An integer type without a free byte writes every sample. -/
theorem canonical_of_full (hinteger : t.isFloat = false) (hfull : t.isContainer = false)
    (hlength : sample.length = t.bytes) : t.Canonical sample := by
  rw [canonical_iff hlength, read]
  have hword := Word.ofBytes_lt sample
  rw [hlength] at hword
  generalize Word.ofBytes sample = w at hword ⊢
  cases t
  case f32 => cases hinteger
  case u24 => cases hfull
  case s24 => cases hfull
  all_goals
    simp only [word, value, half, isSigned, bits, bytes, Int.bmod, Nat.reduceMul, Nat.reduceSub,
      Nat.reduceShiftLeft, Bool.false_eq_true, if_true, if_false] at hword ⊢
    omega

/-- The toggled sample is what the other type writes for the same value. -/
theorem toggleTopBit_write (htoggled : t.toggledSign = some toggled) (hfull : t.isContainer = false)
    {v : Int} (hv : t.Holds v) : toggleTopBit t ByteOrder.host (t.write v) = toggled.write v := by
  have hlength : (toggleTopBit t ByteOrder.host (t.write v)).length = toggled.bytes := by
    rw [toggleTopBit, List.length_modify, length_write, bytes_toggledSign htoggled]
  have hvalue : toggled.read (toggleTopBit t ByteOrder.host (t.write v)) = v := by
    have hread := read_toggleTopBit (F := ⟨t, ByteOrder.host⟩) (SampleFormat.isNative_host t)
      htoggled (length_write t v)
    exact hread.trans (read_write hv)
  have hcanonical := canonical_of_full (isFloat_toggledSign htoggled)
    ((isContainer_toggledSign htoggled).trans hfull) hlength
  rw [Canonical, hvalue] at hcanonical
  exact hcanonical.symm

end SampleType

namespace SampleBuffer

variable {t toggled : SampleType} {b : SampleBuffer}

/-- Toggling before decoding changes nothing. -/
theorem decode_toggleSign (hnative : b.format.isNative = true)
    (htoggled : b.format.type.toggledSign = some toggled) :
    ∃ b' xs, b.toggleSign = .ok b' ∧ b'.format = b.format.withType toggled ∧
      b.decode = .ok xs ∧ b'.decode = .ok xs := by
  obtain ⟨b', htoggle, -, hvalues⟩ := values_toggleSign hnative htoggled
  have hformat : b'.format = b.format.withType toggled := by
    rw [toggleSign_of_toggled htoggled] at htoggle
    exact Except.ok.inj htoggle ▸ rfl
  have hdecode : b'.decode = .ok (b'.values.map b'.format.type.decode) := by
    refine decode_eq_map ?_ ?_
    · rw [hformat]
      exact SampleFormat.isNative_toggled htoggled hnative
    · rw [hformat]
      exact SampleType.isFloat_toggledSign htoggled
  refine ⟨b', _, htoggle, hformat,
    decode_eq_map hnative (SampleType.isFloat_of_toggledSign htoggled), ?_⟩
  rw [hdecode, hvalues, hformat, ← SampleType.decode_toggledSign htoggled]
  rfl

theorem exists_quantise (hinteger : t.isFloat = false) (xs : List Binary32) :
    ∃ b, quantise xs t = .ok b ∧ b.format = ⟨t, ByteOrder.host⟩ ∧
      b.data = xs.flatMap (fun x => t.write (t.quantise x)) ∧ b.values = xs.map t.quantise := by
  obtain ⟨b, hquantise, -, hvalues⟩ := values_quantise xs hinteger
  have hbuffer := Except.ok.inj ((if_neg (by simp [hinteger])).symm.trans hquantise)
  exact ⟨b, hquantise, hbuffer ▸ rfl, hbuffer ▸ rfl, hvalues⟩

/-- Toggling after quantising leads to the buffer that is quantised to the other type, except for the
free bytes of containers. -/
theorem toggleSign_quantise (htoggled : t.toggledSign = some toggled) (xs : List Binary32) :
    ∃ b b' b'', quantise xs t = .ok b ∧ b.toggleSign = .ok b' ∧ quantise xs toggled = .ok b'' ∧
      b'.format = b''.format ∧ b'.values = b''.values ∧ (t.isContainer = false → b' = b'') := by
  obtain ⟨b, hb, hformat, hdata, hvalues⟩ :=
    exists_quantise (SampleType.isFloat_of_toggledSign htoggled) xs
  obtain ⟨b'', hb'', hformat'', hdata'', hvalues''⟩ :=
    exists_quantise (SampleType.isFloat_toggledSign htoggled) xs
  have hnative : b.format.isNative = true := hformat ▸ SampleFormat.isNative_host t
  have htoggled' : b.format.type.toggledSign = some toggled := hformat ▸ htoggled
  obtain ⟨b', hb', -, hkept⟩ := values_toggleSign hnative htoggled'
  have hbuffer : b' =
      ⟨mapGroups t.bytes (toggleTopBit t ByteOrder.host) b.data, ⟨toggled, ByteOrder.host⟩⟩ := by
    rw [toggleSign_of_toggled htoggled', hformat] at hb'
    exact (Except.ok.inj hb').symm
  refine ⟨b, b', b'', hb, hb', hb'', ?_, ?_, fun hfull => ?_⟩
  · rw [hformat'', hbuffer]
  · rw [hkept, hvalues, hvalues'', SampleType.quantise_toggledSign htoggled]
  · have hsample : ∀ x, toggleTopBit t ByteOrder.host (t.write (t.quantise x)) =
        toggled.write (toggled.quantise x) := by
      intro x
      rw [SampleType.quantise_toggledSign htoggled]
      exact SampleType.toggleTopBit_write htoggled hfull (SampleType.holds_quantise t x)
    have hbytes : b'.data = b''.data := by
      rw [hbuffer, hdata, hdata'', mapGroups_flatMap t.bytes_pos fun x => t.length_write _]
      simp only [hsample]
    obtain ⟨data'', format''⟩ := b''
    rw [hbuffer] at hbytes ⊢
    cases hformat''
    exact congrArg (SampleBuffer.mk · _) hbytes

/-- The sign toggle agrees with decoding and with quantising. -/
theorem toggleSign_agrees (hinteger : t.isFloat = false) :
    ∃ toggled, t.toggledSign = some toggled ∧
      (∀ b : SampleBuffer, b.format.type = t → b.format.isNative = true →
        ∃ b' xs, b.toggleSign = .ok b' ∧ b'.format = b.format.withType toggled ∧
          b.decode = .ok xs ∧ b'.decode = .ok xs) ∧
      ∀ xs, ∃ b b' b'', quantise xs t = .ok b ∧ b.toggleSign = .ok b' ∧
        quantise xs toggled = .ok b'' ∧ b'.format = b''.format ∧ b'.values = b''.values ∧
        (t.isContainer = false → b' = b'') := by
  obtain ⟨toggled, htoggled⟩ := SampleType.exists_toggledSign hinteger
  refine ⟨toggled, htoggled, fun b htype hnative => ?_, toggleSign_quantise htoggled⟩
  subst htype
  exact decode_toggleSign hnative htoggled

/-- A buffer with a byte left over, and floats of which one is undefined and one infinite. -/
theorem toggleSign_agrees_s16 :
    (∃ b' xs, toggleSign ⟨[1, 0x80, 0xff, 0x7f, 9], ⟨.s16, .native⟩⟩ = .ok b' ∧
      decode ⟨[1, 0x80, 0xff, 0x7f, 9], ⟨.s16, .native⟩⟩ = .ok xs ∧ b'.decode = .ok xs) ∧
    ∃ b b', quantise [⟨0x7fc00000⟩, ⟨0xff800000⟩, ⟨0x3f000000⟩] .s16 = .ok b ∧
      b.toggleSign = .ok b' ∧ quantise [⟨0x7fc00000⟩, ⟨0xff800000⟩, ⟨0x3f000000⟩] .u16 = .ok b' := by
  obtain ⟨_, ⟨⟩, hdecode, hquantise⟩ := toggleSign_agrees (t := .s16) rfl
  constructor
  · obtain ⟨b', xs, htoggle, -, hxs, hxs'⟩ :=
      hdecode ⟨[1, 0x80, 0xff, 0x7f, 9], ⟨.s16, .native⟩⟩ rfl rfl
    exact ⟨b', xs, htoggle, hxs, hxs'⟩
  · obtain ⟨b, b', _, hb, hb', hother, -, -, hsame⟩ :=
      hquantise [⟨0x7fc00000⟩, ⟨0xff800000⟩, ⟨0x3f000000⟩]
    exact ⟨b, b', hb, hb', hsame rfl ▸ hother⟩

end SampleBuffer

end PcmConversion
