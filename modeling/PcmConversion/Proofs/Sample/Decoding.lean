import PcmConversion.Proofs.Sample.Precision

/-!
# Decoding

Every sample of at most 24 bits is decoded exactly (`round_quotient_of_bits_le`).  With 32 bits the
rounding keeps the order, but the upper end of the range is not open: the last 64 values are nearer
to `1` than to the float below it (`round_single_eq_iff`), and are decoded to it.
-/

namespace PcmConversion

open BinaryFormat (single double)

/-! ## The upper end -/

/-- Halfway between the last two floats up to half the range; the even one is above. -/
theorem round_single_tie : single.round 2147483584 = 2147483648 := by
  have hstored := Binary32.at_ofScaled (v := 2147483584) (e := 0) (by norm_num)
  rw [show (Binary32.ofScaled 2147483584 0).number = .finite false 8388608 8 by decide +kernel]
    at hstored
  norm_num [Number.At, Number.level, signed] at hstored
  exact (WithBotTop.coe_injective hstored).symm

theorem round_single_below_tie : single.round 2147483583 = 2147483520 := by
  have hstored := Binary32.at_ofScaled (v := 2147483583) (e := 0) (by norm_num)
  rw [show (Binary32.ofScaled 2147483583 0).number = .finite false 16777215 7 by decide +kernel]
    at hstored
  norm_num [Number.At, Number.level, signed] at hstored
  exact (WithBotTop.coe_injective hstored).symm

theorem round_single_eq_iff {v : Int} (hv : v < 2147483648) :
    single.round v = 2147483648 ↔ 2147483584 ≤ v := by
  constructor
  · intro hround
    by_contra hless
    have hle : (v : ℚ) ≤ 2147483583 := by exact_mod_cast (show v ≤ 2147483583 by omega)
    have hmono := BinaryFormat.round_mono (F := single) (by decide) hle
    rw [hround, round_single_below_tie] at hmono
    norm_num at hmono
  · intro hlarge
    have hge : (2147483584 : ℚ) ≤ v := by exact_mod_cast hlarge
    have hle : (v : ℚ) ≤ 2147483648 := by exact_mod_cast hv.le
    have hlower := BinaryFormat.round_mono (F := single) (by decide) hge
    have hupper := BinaryFormat.round_mono (F := single) (by decide) hle
    rw [round_single_tie] at hlower
    rw [round_single_highest] at hupper
    exact le_antisymm hupper hlower

namespace SampleType

variable {t : SampleType} {v w : Int}

/-! ## Quotients -/

/-- The quotient with half the range. -/
def quotient (t : SampleType) (v : Int) : ℚ :=
  v * 2 ^ (-(t.bits - 1 : Nat) : Int)

theorem quotient_eq_div (t : SampleType) (v : Int) : t.quotient v = v / t.half := by
  rw [quotient, half_eq, zpow_neg, zpow_natCast, ← div_eq_mul_inv]
  push_cast
  rfl

theorem half_pos (t : SampleType) : 0 < t.half := by
  cases t <;> decide

theorem quotient_le_quotient : t.quotient v ≤ t.quotient w ↔ v ≤ w := by
  have hpos : (0 : ℚ) < t.half := by exact_mod_cast t.half_pos
  rw [quotient_eq_div, quotient_eq_div, div_le_div_iff_of_pos_right hpos]
  exact_mod_cast Iff.rfl

theorem quotient_lt_quotient : t.quotient v < t.quotient w ↔ v < w := by
  rw [lt_iff_not_ge, lt_iff_not_ge]
  exact not_congr quotient_le_quotient

theorem quotient_half (t : SampleType) : t.quotient t.half = 1 := by
  have hpos : (0 : ℚ) < t.half := by exact_mod_cast t.half_pos
  rw [quotient_eq_div, div_self hpos.ne']

theorem quotient_neg_half (t : SampleType) : t.quotient (-t.half) = -1 := by
  have hhalf := t.quotient_half
  rw [quotient_eq_div] at hhalf ⊢
  rw [Int.cast_neg, neg_div, hhalf]

/-- Of at most 24 bits nothing is rounded off. -/
theorem round_quotient_of_bits_le (hbits : t.bits ≤ 24) (hv : t.Holds v) :
    single.round (t.quotient v) = t.quotient v := by
  refine BinaryFormat.round_of_multiple (hv.abs_le_half.trans_lt ?_) ?_
  · exact pow_lt_pow_right₀ one_lt_two (show t.bits - 1 < 24 by omega)
  · simp only [single]
    omega

theorem round_quotient_mono (t : SampleType) (h : v ≤ w) :
    single.round (t.quotient v) ≤ single.round (t.quotient w) :=
  BinaryFormat.round_mono (by decide) (quotient_le_quotient.2 h)

theorem round_quotient_mem (hv : t.Holds v) :
    -1 ≤ single.round (t.quotient v) ∧ single.round (t.quotient v) ≤ 1 := by
  obtain ⟨hlow, hhigh⟩ := hv
  have hone : single.round 1 = 1 := by
    simpa using BinaryFormat.round_two_pow (F := single) (k := 0) (by decide) (by decide)
  have hlower := t.round_quotient_mono hlow
  have hupper := t.round_quotient_mono (hhigh.trans (show t.half - 1 ≤ t.half by omega))
  rw [lowest, quotient_neg_half, BinaryFormat.round_neg, hone] at hlower
  rw [quotient_half, hone] at hupper
  exact ⟨hlower, hupper⟩

/-- Only with 32 bits, and only at the last 64 values, the upper end is reached. -/
theorem round_quotient_eq_one_iff (hinteger : t.isFloat = false) (hv : t.Holds v) :
    single.round (t.quotient v) = 1 ↔ t.bits = 32 ∧ 2 ^ 31 - 64 ≤ v := by
  have hwidth : t.bits ≤ 24 ∨ t.bits = 32 := by
    revert hinteger
    cases t <;> decide
  rcases hwidth with hbits | hbits
  · have hless : t.quotient v < 1 := by
      rw [← t.quotient_half, quotient_lt_quotient]
      exact hv.2.trans_lt (show t.half - 1 < t.half by omega)
    rw [round_quotient_of_bits_le hbits hv]
    constructor
    · intro hone
      exact absurd hone hless.ne
    · intro hwide
      omega
  · have hscaled := round_single_quotient v
    have hquotient : t.quotient v = v * 2 ^ (-31 : Int) := by rw [quotient, hbits]; rfl
    have hreached := round_single_eq_iff (hv.bounds_of_bits32 hbits).2
    rw [← hscaled, ← hquotient] at hreached
    constructor
    · intro hone
      refine ⟨hbits, ?_⟩
      rw [hone] at hreached
      have hlarge := hreached.1 (by norm_num)
      omega
    · rintro ⟨-, hlarge⟩
      have hfull := hreached.2 (by omega)
      norm_num at hfull
      linarith

/-! ## Decoders -/

/-- A decoder of the values of a type: the quotient with half the range is rounded to 53 and to 24
significant bits, it stays within `[-1, 1]` and reaches `1` from the last 64 values of 32 bits only,
and the order of values is kept, with at most 24 bits strictly. -/
structure Decodes (t : SampleType) (f : Int → Binary32) : Prop where
  lies : ∀ v, t.Holds v →
    (f v).number.At (single.round (double.round (v * 2 ^ (-(t.bits - 1 : Nat) : Int))))
  mem : ∀ v p, t.Holds v → (f v).number.At p → -1 ≤ p ∧ p ≤ 1
  full : ∀ v p, t.Holds v → (f v).number.At p → (p = 1 ↔ t.bits = 32 ∧ 2 ^ 31 - 64 ≤ v)
  mono : ∀ v w p q, t.Holds v → t.Holds w → (f v).number.At p → (f w).number.At q → v ≤ w →
    p ≤ q
  strict : ∀ v w p q, t.Holds v → t.Holds w → (f v).number.At p → (f w).number.At q → v < w →
    t.bits ≤ 24 → p < q

theorem eq_of_decode_at {p : ℚ} (hv : t.Holds v) (hp : (t.decode v).number.At p) :
    p = single.round (t.quotient v) :=
  hp.unique (decode_at hv)

theorem decodes_decode (hinteger : t.isFloat = false) : t.Decodes t.decode where
  lies _ hv := decode_at_double hv
  mem _ _ hv hp := by
    rw [eq_of_decode_at hv hp]
    exact round_quotient_mem hv
  full _ _ hv hp := by
    rw [eq_of_decode_at hv hp]
    exact round_quotient_eq_one_iff hinteger hv
  mono _ _ _ _ hv hw hp hq hle := by
    rw [eq_of_decode_at hv hp, eq_of_decode_at hw hq]
    exact t.round_quotient_mono hle
  strict _ _ _ _ hv hw hp hq hlt hbits := by
    rw [eq_of_decode_at hv hp, eq_of_decode_at hw hq, round_quotient_of_bits_le hbits hv,
      round_quotient_of_bits_le hbits hw]
    exact quotient_lt_quotient.2 hlt

end SampleType

namespace SampleBuffer

variable {b : SampleBuffer}

/-- **Decoding keeps the range and the order.**  The samples of a host-order buffer of any integer
type are decoded value by value, in order, by a decoder of the type. -/
theorem decodes_values_decode (hnative : b.format.isNative = true)
    (hinteger : b.format.type.isFloat = false) :
    b.format.type.Decodes b.format.type.decode ∧
      b.decode = .ok (b.values.map b.format.type.decode) ∧
      ∀ v ∈ b.values, b.format.type.Holds v :=
  ⟨SampleType.decodes_decode hinteger, decode_eq_map hnative hinteger,
    fun _ => SampleFormat.holds_of_mem_values⟩

/-- The greatest value, the least one and one just below the 64 that are decoded to `1`. -/
theorem decodes_values_decode_s32 :
    let b : SampleBuffer :=
      ⟨[0xff, 0xff, 0xff, 0x7f, 0, 0, 0, 0x80, 0xbf, 0xff, 0xff, 0x7f], ⟨.s32, .little⟩⟩
    b.format.isNative = true ∧ b.format.type.isFloat = false ∧
      SampleType.s32.Decodes SampleType.s32.decode ∧
      b.decode = .ok ([2147483647, -2147483648, 2147483583].map SampleType.s32.decode) := by
  intro b
  have hvalues : b.values = [2147483647, -2147483648, 2147483583] := by decide +kernel
  obtain ⟨hdecodes, hdecode, -⟩ := decodes_values_decode (b := b) (by decide) (by decide)
  rw [hvalues] at hdecode
  exact ⟨by decide, by decide, hdecodes, hdecode⟩

/-- The interval is not half-open: the greatest value of 32 bits is decoded to `1` itself. -/
theorem exists_decoded_to_one :
    ∃ (b : SampleBuffer) (xs : List Binary32), b.format.isNative = true ∧
      b.format.type.isFloat = false ∧ b.decode = .ok xs ∧ ∃ x ∈ xs, x.number.At 1 := by
  refine ⟨⟨[0xff, 0xff, 0xff, 0x7f], ⟨.s32, .little⟩⟩, [⟨0x3f800000⟩], by decide, by decide,
    by decide +kernel, _, List.mem_singleton_self _, ?_⟩
  rw [show (Binary32.mk 0x3f800000).number = .finite false 8388608 (-23) by decide +kernel]
  norm_num [Number.At, Number.level, signed]

end SampleBuffer

end PcmConversion
