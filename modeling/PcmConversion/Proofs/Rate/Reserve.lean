import PcmConversion.Proofs.Numeric.Order
import PcmConversion.Rate.Pacing

/-!
# Room for the output

The room that is reserved for the output of a chunk grows with the chunk, although it is worked out
in 64-bit floats (`reserve_mono`): where memory holds the output of a stream that is sent at once,
it holds the output of each of its pieces.
-/

namespace PcmConversion.Pacing

/-- As a count, a number is its size, rounded up and held within 64 bits. -/
theorem count_divCeil (v : Number) :
    count divCeil v =
      (v.size.map fun q => min 0xffffffffffffffff ⌈q⌉₊).untopD 0xffffffffffffffff := by
  rcases v with ⟨_ | _, m, e⟩ | ⟨_ | _⟩ | _
  · have hceil : divCeil (scaleFraction m 1 e).1 (scaleFraction m 1 e).2 = ⌈(m : ℚ) * 2 ^ e⌉₊ := by
      rw [divCeil_eq_ceil (scaleFraction_pos one_pos e), scaleFraction_div m one_pos, Nat.cast_one,
        div_one]
    simp only [count, Number.clamp, hceil, Number.size_finite, WithTop.map_coe,
      WithTop.untopD_coe, Bool.false_eq_true, if_false]
    omega
  · have hnegative : -(divCeil (scaleFraction m 1 e).1 (scaleFraction m 1 e).2 : Int) ≤ 0 := by
      omega
    have hsize : (Number.finite true m e).size = ((0 : ℚ) : WithTop ℚ) := rfl
    simp only [count, Number.clamp, if_true, hsize, WithTop.map_coe, WithTop.untopD_coe,
      Nat.ceil_zero]
    omega
  all_goals rfl

theorem count_mono {v w : Number} (h : v.size ≤ w.size) : count divCeil v ≤ count divCeil w := by
  rw [count_divCeil, count_divCeil]
  cases hw : w.size with
  | top =>
      cases v.size with
      | top => exact le_rfl
      | coe q => exact min_le_left _ _
  | coe r =>
      cases hv : v.size with
      | top => simp [hv, hw] at h
      | coe q =>
          rw [hv, hw, WithTop.coe_le_coe] at h
          exact min_le_min_left _ (Nat.ceil_mono h)

theorem reserve_mono (source target : Nat) : Monotone (Pacing.floating source target).reserve := by
  intro m n hle
  refine Nat.add_le_add_right (count_mono ?_) 1
  exact BinaryFormat.size_mul_mono (by decide) _ (BinaryFormat.negative_nearest ..)
    (BinaryFormat.negative_nearest ..) (BinaryFormat.size_ofNat_mono (by decide) hle)

end PcmConversion.Pacing
