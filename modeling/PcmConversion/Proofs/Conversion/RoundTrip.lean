import PcmConversion.Proofs.Conversion.Values
import PcmConversion.Rate.Standard

/-!
# There and back through 24 bits

Between integer types of at most 24 bits a conversion that keeps rate and channels keeps the values
where only the way of writing changes, and transcodes each of them otherwise
(`values_convert_of_create`).  From a type of 24 bits everything comes back as `SampleType.restored` says
(`values_convert_back`), which is not always what was sent (`exists_not_restored`).
-/

namespace PcmConversion

theorem Narrowing.select_of_isMedium {source target : SampleType} {n : Narrowing}
    (hsource : source.isMedium = true) (h : select source target = some n) :
    n = bits24To16 ∧ (source = .u24 ∨ source = .s24) ∧ (target = .u16 ∨ target = .s16) := by
  revert h hsource
  cases source <;> cases target <;>
    simp [select, SampleType.isMedium, SampleType.isFloat, SampleType.bits, eq_comm]

/-- What a value becomes between types of at most 24 bits. -/
theorem SampleType.converted_eq_recast {source target : SampleType} {v : Int}
    (hsource : source.isMedium = true) (htarget : target.isMedium = true) (hv : source.Holds v) :
    converted source target v = recast source target v := by
  cases hselect : Narrowing.select source target with
  | some n =>
      obtain ⟨rfl, hwide, hnarrow⟩ := Narrowing.select_of_isMedium hsource hselect
      rw [converted_of_some hselect]
      rcases hwide with rfl | rfl <;> rcases hnarrow with rfl | rfl <;>
        simp [recast, transcoded, Narrowing.shift, toggledSign, bits]
  | none =>
      rw [converted_of_none hselect, recoded, recast]
      split_ifs
      · rfl
      · exact quantise_decode hsource htarget hv

namespace Conversion

variable {σ : Type} {c : Conversion σ} {source target : StreamParams} {P : RateProvider σ}
  {settings : Settings}

/-- Values through a conversion between types of at most 24 bits. -/
theorem values_convert_of_create (h : create P settings source target = .ok c)
    (hrates : source.rate = target.rate) (hchannels : source.channels = target.channels)
    (hsource : source.format.type.isMedium = true) (htarget : target.format.type.isMedium = true)
    (input : List UInt8) :
    ∃ out, c.convert input = (.ok out, c) ∧ target.format.values out =
      (source.format.values input).map (source.format.type.recast target.format.type) := by
  obtain ⟨out, hconvert, hvalues⟩ := converted_of_create_of_channels h hrates
    hchannels (SampleType.isFloat_of_isMedium hsource) (SampleType.isFloat_of_isMedium htarget)
    input
  refine ⟨out, hconvert, ?_⟩
  rw [hvalues]
  refine List.map_congr_left fun v hv => ?_
  exact SampleType.converted_eq_recast hsource htarget (SampleFormat.holds_of_mem_values hv)

/-- **There and back through 24 bits.**  Two conversions are accepted, from an integer type of at
most 24 bits to a type of 24 bits and from there to the first type again, in any byte orders and at
one rate and number of channels.  Then both answer any input, and every sample comes back with the
value that `restored` says: the same one where at most the signedness differs between the types;
otherwise 8- and 16-bit values from three quarters of full scale on come back one lower, and 24-bit
values are requantised twice. -/
theorem values_convert_back {τ : Type} {Q : RateProvider τ} {settings' : Settings}
    {middle : StreamParams} {there : Conversion σ} {back : Conversion τ}
    (hthere : create P settings source middle = .ok there)
    (hback : create Q settings' middle target = .ok back)
    (hrates : source.rate = middle.rate ∧ middle.rate = target.rate)
    (hchannels : source.channels = middle.channels ∧ middle.channels = target.channels)
    (hsource : source.format.type.isFloat = false ∧ source.format.type.bits ≤ 24)
    (hmiddle : middle.format.type.bits = 24) (htarget : target.format.type = source.format.type)
    (input : List UInt8) :
    ∃ out result, there.convert input = (.ok out, there) ∧ back.convert out = (.ok result, back) ∧
      target.format.values result =
        (source.format.values input).map (source.format.type.restored middle.format.type) := by
  have hmedium : source.format.type.isMedium = true := by
    simp [SampleType.isMedium, hsource]
  have hmedium' : middle.format.type.isMedium = true := by
    revert hmiddle
    cases middle.format.type <;> decide
  obtain ⟨out, hout, hvalues⟩ :=
    values_convert_of_create hthere hrates.1 hchannels.1 hmedium hmedium' input
  obtain ⟨result, hresult, hvalues'⟩ :=
    values_convert_of_create hback hrates.2 hchannels.2 hmedium' (htarget ▸ hmedium) out
  refine ⟨out, result, hout, hresult, ?_⟩
  rw [hvalues', hvalues, List.map_map, htarget]
  refine List.map_congr_left fun v hv => ?_
  exact SampleType.recast_recast hmedium hmiddle (SampleFormat.holds_of_mem_values hv)

/-- Big-endian samples of 16 bits, the values 24575, 24576 and -32768, through packed 24 bits. -/
theorem values_convert_back_packed :
    ∃ (there back : Conversion StandardBackend) (out result : List UInt8),
      create .standard {} ⟨44100, 1, ⟨.s16, .big⟩⟩ ⟨44100, 1, ⟨.u24Packed, .little⟩⟩ = .ok there ∧
        create .standard {} ⟨44100, 1, ⟨.u24Packed, .little⟩⟩ ⟨44100, 1, ⟨.s16, .native⟩⟩ =
          .ok back ∧
        there.convert [0x5f, 0xff, 0x60, 0x00, 0x80, 0x00] = (.ok out, there) ∧
        back.convert out = (.ok result, back) ∧
        (SampleFormat.mk .s16 .native).values result = [24575, 24575, -32768] := by
  have hthere : create .standard {} ⟨44100, 1, ⟨.s16, .big⟩⟩ ⟨44100, 1, ⟨.u24Packed, .little⟩⟩ =
      .ok _ := rfl
  have hback : create .standard {} ⟨44100, 1, ⟨.u24Packed, .little⟩⟩ ⟨44100, 1, ⟨.s16, .native⟩⟩ =
      .ok _ := rfl
  obtain ⟨out, result, hout, hresult, hvalues⟩ := values_convert_back hthere hback (by decide)
    (by decide) (by decide) rfl rfl [0x5f, 0xff, 0x60, 0x00, 0x80, 0x00]
  exact ⟨_, _, out, result, hthere, hback, hout, hresult, hvalues.trans (by decide +kernel)⟩

/-- The greatest 16-bit value comes back one lower from a 24-bit container. -/
theorem exists_not_restored :
    ∃ there back : Conversion StandardBackend,
      create .standard {} ⟨44100, 1, ⟨.s16, .little⟩⟩ ⟨44100, 1, ⟨.s24, .little⟩⟩ = .ok there ∧
        create .standard {} ⟨44100, 1, ⟨.s24, .little⟩⟩ ⟨44100, 1, ⟨.s16, .little⟩⟩ = .ok back ∧
        there.convert [0xff, 0x7f] = (.ok [0xff, 0xfe, 0x7f, 0x00], there) ∧
        back.convert [0xff, 0xfe, 0x7f, 0x00] = (.ok [0xfe, 0x7f], back) ∧
        (SampleFormat.mk .s16 .little).values [0xff, 0x7f] = [32767] ∧
        (SampleFormat.mk .s16 .little).values [0xfe, 0x7f] = [32766] := by
  refine ⟨_, _, rfl, rfl, Prod.ext ?_ rfl, Prod.ext ?_ rfl, ?_, ?_⟩ <;> decide +kernel

end Conversion

end PcmConversion
