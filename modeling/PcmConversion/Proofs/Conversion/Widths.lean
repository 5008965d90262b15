import PcmConversion.Proofs.Conversion.Values
import PcmConversion.Proofs.Sample.Truncation
import PcmConversion.Rate.Standard

/-!
# Fewer bits and more bits

At one rate a conversion into fewer bits that truncates divides every value by a power of two and
rounds down, whatever the signedness and the byte orders are and whether or not the channels are
doubled (`values_convert_narrower`).  A conversion into at least as many bits multiplies instead, if
the target has 8, 16 or 32 bits, and nothing is lost: converting back restores every value
(`values_convert_wider`).
-/

namespace PcmConversion

/-- A power of two may be moved from an integer to the scale. -/
theorem Binary32.ofScaled_mul_two_pow (v : Int) (k : Nat) (e : Int) :
    ofScaled (v * 2 ^ k) e = ofScaled v (k + e) := by
  have hpower : (0 : Int) < 2 ^ k := by positivity
  have hsign : decide (v * 2 ^ k < 0) = decide (v < 0) :=
    decide_eq_decide.2 ⟨fun h => neg_of_mul_neg_left h hpower.le,
      fun h => Int.mul_neg_of_neg_of_pos h hpower⟩
  rw [ofScaled, ofScaled, BinaryFormat.ofScaled, BinaryFormat.ofScaled, hsign]
  congr 1
  rcases eq_or_ne v 0 with rfl | hne
  · rw [zero_mul, Int.natAbs_zero, BinaryFormat.nearest_zero, BinaryFormat.nearest_zero]
  · refine BinaryFormat.nearest_congr _ ?_ one_pos (Int.natAbs_pos.2 hne) one_pos ?_
    · exact Int.natAbs_pos.2 (mul_ne_zero hne hpower.ne')
    · rw [Int.natAbs_mul, Int.natAbs_pow, zpow_add₀ two_ne_zero, zpow_natCast]
      push_cast
      ring

/-! ## One value -/

namespace SampleType

variable {source target : SampleType} {v : Int}

/-- Types between which samples are cut: integers of 32 bits into 24 or 16, and containers of 24 bits
into 16. -/
def CutTo (source target : SampleType) : Prop :=
  source.bits = 32 ∧ source.isFloat = false ∧ (target.bits = 24 ∨ target.bits = 16) ∨
    source.isContainer = true ∧ target.bits = 16

instance (source target : SampleType) : Decidable (source.CutTo target) :=
  inferInstanceAs (Decidable (_ ∨ _))

theorem isSome_select_iff : (Narrowing.select source target).isSome = true ↔ source.CutTo target := by
  cases source <;> cases target <;> decide

theorem bits_pos (t : SampleType) : 0 < t.bits := by
  cases t <;> decide

/-- Nothing is cut off where the target has room. -/
theorem select_of_bits_le (hwidth : source.bits ≤ target.bits) :
    Narrowing.select source target = none := by
  revert hwidth
  cases source <;> cases target <;> simp [Narrowing.select, bits]

theorem shift_of_select {n : Narrowing} (h : Narrowing.select source target = some n) :
    n.shift = source.bits - target.bits := by
  obtain ⟨-, -, hwidth⟩ := Narrowing.widths_of_select h
  have hbits : (n.outputType source).bits = target.bits := by
    rcases Narrowing.outputType_of_select h with hsame | htoggled
    · rw [hsame]
    · exact (bits_toggledSign htoggled).symm
  omega

theorem bits_of_kept (h : source = target ∨ source.toggledSign = some target) :
    target.bits = source.bits := by
  rcases h with rfl | htoggled
  · rfl
  · exact bits_toggledSign htoggled

/-- Integers of 32 bits differ in their signedness alone. -/
theorem isMedium_of_changed (hsource : source.isFloat = false) (htarget : target.isFloat = false)
    (hchanged : ¬(source = target ∨ source.toggledSign = some target))
    (hwidth : source.bits ≤ target.bits) : source.isMedium = true := by
  revert hsource htarget hchanged hwidth
  cases source <;> cases target <;> decide

/-- A value in a wider type stands for the same fraction of the range. -/
theorem decode_widened (hwidth : source.bits ≤ target.bits) (v : Int) :
    target.decode (v * 2 ^ (target.bits - source.bits)) = source.decode v := by
  have hsource := source.bits_pos
  rw [decode, Binary32.ofScaled_mul_two_pow, decode]
  congr 1
  omega

/-- Quantising to more bits appends zeros. -/
theorem quantise_widened (hsource : source.isMedium = true) (htarget : target.bits ≠ 24)
    (hwidth : source.bits ≤ target.bits) (hv : source.Holds v) :
    target.quantise (source.decode v) = v * 2 ^ (target.bits - source.bits) := by
  obtain ⟨hlow, hhigh⟩ := hv.bounds hsource
  have hmost : target.bits ≤ 32 := by cases target <;> decide
  have hmedium : source.bits ≤ 24 := by
    rcases bits_of_isMedium hsource with hbits | hbits | hbits <;> omega
  have hpowers : (2 : Int) ^ (24 - source.bits) * 2 ^ 8 =
      2 ^ (target.bits - source.bits) * 2 ^ (32 - target.bits) := by
    rw [← pow_add, ← pow_add]
    congr 1
    omega
  have hscaled : v * 2 ^ (24 - source.bits) * 256 =
      v * 2 ^ (target.bits - source.bits) * 2 ^ (32 - target.bits) := by
    rw [mul_assoc, mul_assoc, ← hpowers]
    norm_num
  rw [quantise, if_neg htarget, (hv.decode_stands hsource).quantise_wide hlow hhigh, hscaled,
    natCast_one_shiftLeft]
  exact Int.mul_fdiv_cancel _ (by positivity)

/-- Into at least as many bits, if they are not 24, values are multiplied. -/
theorem converted_widened (hsource : source.isFloat = false) (htarget : target.isFloat = false)
    (hbits : target.bits ≠ 24) (hwidth : source.bits ≤ target.bits) (hv : source.Holds v) :
    converted source target v = v * 2 ^ (target.bits - source.bits) := by
  rw [converted_of_none (select_of_bits_le hwidth)]
  by_cases hkept : source = target ∨ source.toggledSign = some target
  · rw [recoded_of_kept hkept, bits_of_kept hkept, Nat.sub_self, pow_zero, mul_one]
    rfl
  · rw [recoded_of_changed hkept]
    exact quantise_widened (isMedium_of_changed hsource htarget hkept hwidth) hbits hwidth hv

/-- The way back undoes the multiplication. -/
theorem converted_of_widened (hsource : source.isFloat = false) (htarget : target.isFloat = false)
    (hbits : target.bits ≠ 24) (hwidth : source.bits ≤ target.bits) (hv : source.Holds v) :
    converted target source (v * 2 ^ (target.bits - source.bits)) = v := by
  cases hselect : Narrowing.select target source with
  | some n =>
      rw [converted_of_some hselect, shift_of_select hselect, natCast_one_shiftLeft]
      exact Int.mul_fdiv_cancel _ (by positivity)
  | none =>
      rw [converted_of_none hselect]
      by_cases hkept : target = source ∨ target.toggledSign = some source
      · rw [recoded_of_kept hkept, bits_of_kept hkept, Nat.sub_self, pow_zero, mul_one]
        rfl
      · have hchanged : ¬(source = target ∨ source.toggledSign = some target) := by
          rwa [toggledSign_comm, eq_comm]
        have hmedium := isMedium_of_changed hsource htarget hchanged hwidth
        -- Into 24 bits the way back is a truncation.
        have hnarrow : source.bits ≠ 24 := by
          intro hnarrow
          have hcut : target.CutTo source := .inl ⟨?_, htarget, .inl hnarrow⟩
          · rw [← isSome_select_iff, hselect] at hcut
            cases hcut
          · revert htarget hbits hwidth
            rw [hnarrow]
            cases target <;> decide
        rw [recoded_of_changed hkept]
        show source.quantise (target.decode _) = v
        rw [decode_widened hwidth, quantise_decode_self hmedium hv, if_neg hnarrow]

end SampleType

/-! ## Conversions -/

namespace Conversion

variable {σ : Type} {c : Conversion σ} {source target : StreamParams} {P : RateProvider σ}
  {settings : Settings}

/-- **Truncation end to end.**  At one rate and with channels that are kept or doubled, every sample
becomes the quotient of its value by a power of two, rounded down, once or twice. -/
theorem values_convert_narrower (h : create P settings source target = .ok c)
    (hrates : source.rate = target.rate)
    (hchannels : source.channels = target.channels ∨ source.channels = 1 ∧ target.channels = 2)
    (hcut : source.format.type.CutTo target.format.type) (input : List UInt8) :
    c.narrowing.isSome = true ∧ ∃ out, c.convert input = (.ok out, c) ∧
      target.format.values out =
        (source.format.values input).flatMap fun v => List.replicate (source.copies target)
          (v.fdiv (2 ^ (source.format.type.bits - target.format.type.bits))) := by
  obtain ⟨n, hselect⟩ := Option.isSome_iff_exists.1 (SampleType.isSome_select_iff.2 hcut)
  obtain ⟨hsource, htarget⟩ := Narrowing.isFloat_of_select hselect
  have hplain := plain_of_create h hrates hchannels hsource htarget
  obtain ⟨hfrom, hto⟩ := streams_of_create h
  obtain ⟨out, hconvert, hvalues⟩ :=
    converted_of_create h hrates hchannels hsource htarget input
  have hquotient : ∀ v, SampleType.converted source.format.type target.format.type v =
      v.fdiv (2 ^ (source.format.type.bits - target.format.type.bits)) := by
    intro v
    rw [SampleType.converted_of_some hselect, SampleType.shift_of_select hselect,
      natCast_one_shiftLeft]
  refine ⟨?_, out, hconvert, ?_⟩
  · rw [hplain.narrowing, hfrom, hto]
    exact SampleType.isSome_select_iff.2 hcut
  · simp only [hvalues, hquotient]

/-- A container with a stray high byte, mono and most significant byte first, into stereo: of a
negative value the quotient is rounded down. -/
theorem values_convert_narrower_container :
    ∃ (c : Conversion StandardBackend) (out : List UInt8),
      create .standard {} ⟨44100, 1, ⟨.s24, .big⟩⟩ ⟨44100, 2, ⟨.u16, .little⟩⟩ = .ok c ∧
        SampleType.s24.CutTo .u16 ∧
        (SampleFormat.mk .s24 .big).values [0x7f, 0xff, 0x80, 0x01] = [-32767] ∧
        c.convert [0x7f, 0xff, 0x80, 0x01] = (.ok out, c) ∧
        (SampleFormat.mk .u16 .little).values out = [-128, -128] := by
  have hcreate : create .standard {} ⟨44100, 1, ⟨.s24, .big⟩⟩ ⟨44100, 2, ⟨.u16, .little⟩⟩ =
      .ok _ := rfl
  obtain ⟨-, out, hconvert, hvalues⟩ := values_convert_narrower hcreate rfl (.inr ⟨rfl, rfl⟩)
    (by decide) [0x7f, 0xff, 0x80, 0x01]
  exact ⟨_, out, hcreate, by decide, by decide +kernel, hconvert, hvalues.trans (by decide +kernel)⟩

/-- Two valid streams of one rate whose channels match can be converted. -/
theorem create_of_rates_eq (hsource : source.isValid = true) (htarget : target.isValid = true)
    (hrates : source.rate = target.rate) (hchannels : source.channels = target.channels) :
    create P settings source target = .ok (planned source target none) :=
  create_eq_ok_iff.2 ⟨hsource, htarget, by simp [remapSupported, hchannels], none, if_pos hrates, rfl⟩

/-- **Widening is exact.**  Into at least as many bits, if they are 8, 16 or 32, every value is
multiplied by the power of two between the widths, and converting back restores it, whichever byte
order and settings the way back has. -/
theorem values_convert_wider (h : create P settings source target = .ok c)
    (hrates : source.rate = target.rate) (hchannels : source.channels = target.channels)
    (hsource : source.format.type.isFloat = false) (htarget : target.format.type.isFloat = false)
    (hbits : target.format.type.bits ≠ 24)
    (hwidth : source.format.type.bits ≤ target.format.type.bits) (input : List UInt8) :
    ∃ out, c.convert input = (.ok out, c) ∧
      target.format.values out = (source.format.values input).map
        (· * 2 ^ (target.format.type.bits - source.format.type.bits)) ∧
      ∀ {τ : Type} (Q : RateProvider τ) (settings' : Settings) (order : ByteOrder),
        ∃ (back : Conversion τ) (result : List UInt8),
          create Q settings' target { source with format := source.format.withOrder order } =
            .ok back ∧
          back.convert out = (.ok result, back) ∧
          (source.format.withOrder order).values result = source.format.values input := by
  obtain ⟨out, hconvert, hvalues⟩ :=
    converted_of_create_of_channels h hrates hchannels hsource htarget input
  have hwidened : target.format.values out = (source.format.values input).map
      (· * 2 ^ (target.format.type.bits - source.format.type.bits)) := by
    rw [hvalues]
    refine List.map_congr_left fun v hv => ?_
    exact SampleType.converted_widened hsource htarget hbits hwidth
      (SampleFormat.holds_of_mem_values hv)
  refine ⟨out, hconvert, hwidened, fun Q settings' order => ?_⟩
  obtain ⟨hvalid, hvalid'⟩ := isValid_of_create h
  have hback : create Q settings' target { source with format := source.format.withOrder order } =
      .ok (planned target { source with format := source.format.withOrder order } none) :=
    create_of_rates_eq hvalid' hvalid hrates.symm hchannels.symm
  obtain ⟨result, hresult, hrestored⟩ :=
    converted_of_create_of_channels hback hrates.symm hchannels.symm htarget hsource out
  refine ⟨_, result, hback, hresult, ?_⟩
  have hkept : ∀ v ∈ source.format.values input,
      SampleType.converted target.format.type source.format.type
        (v * 2 ^ (target.format.type.bits - source.format.type.bits)) = v := fun v hv =>
    SampleType.converted_of_widened hsource htarget hbits hwidth
      (SampleFormat.holds_of_mem_values hv)
  rw [hrestored, hwidened, List.map_map]
  exact (List.map_congr_left hkept).trans (List.map_id _)

/-- Packed samples, the least value and minus one, into unsigned samples of 32 bits and back. -/
theorem values_convert_wider_packed :
    ∃ (c back : Conversion StandardBackend) (out result : List UInt8),
      create .standard {} ⟨44100, 2, ⟨.s24Packed, .little⟩⟩ ⟨44100, 2, ⟨.u32, .big⟩⟩ = .ok c ∧
        c.convert [0, 0, 0x80, 0xff, 0xff, 0xff] = (.ok out, c) ∧
        (SampleFormat.mk .u32 .big).values out = [-2147483648, -256] ∧
        create .standard {} ⟨44100, 2, ⟨.u32, .big⟩⟩ ⟨44100, 2, ⟨.s24Packed, .native⟩⟩ = .ok back ∧
        back.convert out = (.ok result, back) ∧
        (SampleFormat.mk .s24Packed .native).values result = [-8388608, -1] := by
  have hcreate : create .standard {} ⟨44100, 2, ⟨.s24Packed, .little⟩⟩ ⟨44100, 2, ⟨.u32, .big⟩⟩ =
      .ok _ := rfl
  obtain ⟨out, hconvert, hvalues, hreturn⟩ := values_convert_wider hcreate rfl rfl rfl rfl
    (by decide) (by decide) [0, 0, 0x80, 0xff, 0xff, 0xff]
  obtain ⟨back, result, hback, hresult, hrestored⟩ := hreturn .standard {} .native
  exact ⟨_, back, out, result, hcreate, hconvert, hvalues.trans (by decide +kernel), hback, hresult,
    hrestored.trans (by decide +kernel)⟩

end Conversion

end PcmConversion
