import PcmConversion.Proofs.Numeric.Level
import Mathlib.Algebra.Order.Floor.Semifield

/-!
# Sums and products of floats

An integer as a float, a product and a sum lie where the exact result is rounded to, as long as it
stays far below the end of the range (`at_ofScaled`, `at_mul`, `at_add`).  What lies within `2^k` is
moved by at most half a step of the numbers there (`abs_round_sub_le_of_le`) and stays within `2^k`.
A float that is cut to an integer toward zero is moved by less than one, and the integer is a float
again (`round_towardZero`).
-/

namespace PcmConversion

/-! ## Rounding below a power of two -/

namespace BinaryFormat

variable {F : BinaryFormat} {v : ℚ} {k : Int}

theorem round_two_pow (hdigits : 0 < F.digits) (hk : F.bottom ≤ k) : F.round (2 ^ k) = 2 ^ k := by
  have hone : |(1 : Int)| < 2 ^ F.digits := by
    rw [abs_one]
    exact one_lt_pow₀ one_lt_two hdigits.ne'
  simpa using round_of_multiple hone hk

theorem abs_round_le_of_le (hdigits : 0 < F.digits) (hk : F.bottom ≤ k) (hv : |v| ≤ 2 ^ k) :
    |F.round v| ≤ 2 ^ k := by
  obtain ⟨hlow, hhigh⟩ := abs_le.1 hv
  have hpower := round_two_pow hdigits hk
  refine abs_le.2 ⟨?_, (round_mono hdigits hhigh).trans_eq hpower⟩
  rw [← hpower, ← round_neg]
  exact round_mono hdigits hlow

/-- Half a step of the numbers up to `2^k`. -/
theorem abs_round_sub_le_of_le (hdigits : 0 < F.digits) (hbottom : F.bottom ≤ k - F.digits)
    (hv : |v| ≤ 2 ^ k) : |F.round v - v| ≤ 2 ^ (k - F.digits - 1) := by
  rcases eq_or_ne v 0 with rfl | hne
  · rw [round_zero, sub_zero, abs_zero]
    positivity
  rcases hv.lt_or_eq with hless | heq
  · have hlog : Int.log 2 |v| < k := by
      rw [← Int.lt_zpow_iff_log_lt one_lt_two (abs_pos.2 hne)]
      exact_mod_cast hless
    have hulp : F.ulp |v| ≤ k - F.digits := by
      rw [ulp]
      omega
    calc |F.round v - v| ≤ 2 ^ F.ulp |v| / 2 := abs_round_sub_le v
      _ ≤ 2 ^ (k - F.digits) / 2 := by
        gcongr
        exact one_le_two
      _ = 2 ^ (k - F.digits - 1) := by rw [zpow_sub_one₀ two_ne_zero, div_eq_mul_inv]
  · -- The power of two itself is a number of the format.
    have hpower := round_two_pow (F := F) hdigits (show F.bottom ≤ k by omega)
    have hkept : F.round v = v := by
      rcases abs_choice v with hpos | hneg
      · rw [← hpos, heq, hpower]
      · rw [← neg_neg v, ← hneg, heq, round_neg, hpower]
    rw [hkept, sub_self, abs_zero]
    positivity

theorem abs_round_single_le {v : ℚ} {k : Int} (hk : -125 ≤ k) (hv : |v| ≤ 2 ^ k) :
    |single.round v| ≤ 2 ^ k :=
  abs_round_le_of_le (by decide) (show single.bottom ≤ k by simp only [single]; omega) hv

/-- Of 24 significant bits, half a step up to `2^k` is `2^(k - 25)`. -/
theorem abs_round_single_sub_le {v : ℚ} {k : Int} (hk : -125 ≤ k) (hv : |v| ≤ 2 ^ k) :
    |single.round v - v| ≤ 2 ^ (k - 25) := by
  have herror := abs_round_sub_le_of_le (F := single) (by decide)
    (show single.bottom ≤ k - single.digits by simp only [single]; omega) hv
  rwa [show k - (single.digits : Int) - 1 = k - 25 by simp only [single]; omega] at herror

end BinaryFormat

/-! ## Cutting toward zero -/

/-- The integer next to a rational on the side of zero. -/
def towardZero (q : ℚ) : Int :=
  if q < 0 then ⌈q⌉ else ⌊q⌋

theorem towardZero_intCast (n : Int) : towardZero n = n := by
  rw [towardZero, Int.ceil_intCast, Int.floor_intCast, ite_self]

theorem abs_towardZero_le (q : ℚ) : |(towardZero q : ℚ)| ≤ |q| := by
  rw [towardZero]
  split_ifs with hneg
  · have hceil : (⌈q⌉ : ℚ) ≤ 0 := by
      exact_mod_cast Int.ceil_le.2 (by exact_mod_cast hneg.le)
    rw [abs_of_nonpos hceil, abs_of_neg hneg]
    exact neg_le_neg (Int.le_ceil q)
  · have hfloor : (0 : ℚ) ≤ ⌊q⌋ := by
      exact_mod_cast Int.floor_nonneg.2 (not_lt.1 hneg)
    rw [abs_of_nonneg hfloor, abs_of_nonneg (not_lt.1 hneg)]
    exact Int.floor_le q

theorem abs_towardZero_sub_le (q : ℚ) : |(towardZero q : ℚ) - q| ≤ 1 := by
  rw [towardZero, abs_le]
  split_ifs
  · have hle := Int.le_ceil q
    have hlt := Int.ceil_lt_add_one q
    constructor <;> linarith
  · have hle := Int.floor_le q
    have hlt := Int.lt_floor_add_one q
    constructor <;> linarith

theorem towardZero_signed (negative : Bool) {q : ℚ} (hq : 0 ≤ q) :
    towardZero (signed negative q) = if negative then -(⌊q⌋₊ : Int) else ⌊q⌋₊ := by
  rw [Int.natCast_floor_eq_floor hq, towardZero]
  cases negative with
  | false => simp [signed, not_lt.2 hq]
  | true =>
      rcases hq.lt_or_eq with hpos | rfl
      · simp [signed, hpos, Int.ceil_neg]
      · simp [signed]

/-- The values of numbers of the format have no fewer bits when the fraction is cut off. -/
theorem BinaryFormat.round_towardZero {F : BinaryFormat} (hbottom : F.bottom ≤ 0) {m e : Int}
    (hm : |m| < 2 ^ F.digits) : F.round (towardZero (m * 2 ^ e)) = towardZero (m * 2 ^ e) := by
  rcases le_total 0 e with hwhole | hfraction
  · obtain ⟨k, rfl⟩ := Int.eq_ofNat_of_zero_le hwhole
    have hinteger : (m : ℚ) * 2 ^ (k : Int) = (m * 2 ^ k : Int) := by
      rw [zpow_natCast]
      push_cast
      rfl
    rw [hinteger, towardZero_intCast, ← hinteger]
    exact round_of_multiple hm (by omega)
  · have hsmall : |towardZero (m * 2 ^ e)| < 2 ^ F.digits := by
      have hshrunk : |(towardZero (m * 2 ^ e) : ℚ)| ≤ |(m : ℚ)| := by
        calc |(towardZero (m * 2 ^ e) : ℚ)| ≤ |(m : ℚ) * 2 ^ e| := abs_towardZero_le _
          _ = |(m : ℚ)| * 2 ^ e := by
            rw [abs_mul, abs_of_pos (show (0 : ℚ) < 2 ^ e by positivity)]
          _ ≤ |(m : ℚ)| :=
            mul_le_of_le_one_right (abs_nonneg _) (zpow_le_one_of_nonpos₀ one_le_two hfraction)
      exact (by exact_mod_cast hshrunk : |towardZero (m * 2 ^ e)| ≤ |m|).trans_lt hm
    simpa using round_of_multiple hsmall hbottom

/-! ## Numbers -/

namespace Number

theorem At.unique {v : Number} {p q : ℚ} (hp : v.At p) (hq : v.At q) : p = q :=
  WithBotTop.coe_injective (Option.some.inj (hp.symm.trans hq))

/-- To an integer within limits a number is cut by where it lies. -/
theorem At.clamp_divFloor {v : Number} {q : ℚ} (h : v.At q) (low high : Int) :
    v.clamp divFloor low high = max low (min high (towardZero q)) := by
  obtain ⟨negative, m, e, rfl, rfl⟩ := h.exists_finite
  have hfloor : divFloor (scaleFraction m 1 e).1 (scaleFraction m 1 e).2 =
      ⌊(m : ℚ) * 2 ^ e⌋₊ := by
    rw [divFloor, ← Nat.floor_div_eq_div (K := ℚ), scaleFraction_div m one_pos, Nat.cast_one,
      div_one]
  rw [towardZero_signed negative (by positivity), Number.clamp]
  simp only [hfloor]

end Number

namespace Binary32

open BinaryFormat (single)

variable {x y : Binary32} {p q : ℚ}

theorem at_zero (negative : Bool) : (ofNumber (.finite negative 0 single.bottom)).number.At 0 := by
  have hsilent := (is_ofNumber negative (m := 0) (e := single.bottom)
    ⟨by decide, by decide, .inl rfl, by decide +kernel⟩).at
  rwa [Nat.cast_zero, zero_mul, signed, neg_zero, ite_self] at hsilent

/-- Far below the end of the range a magnitude is stored as what it is rounded to. -/
theorem at_quotient_of_le (negative : Bool) (n : Nat) {d : Nat} (hd : 0 < d) {e : Int}
    (hle : (n : ℚ) / d * 2 ^ e ≤ 2 ^ 127) :
    (ofNumber (single.nearest negative n d e)).number.At
      (single.round (signed negative (n / d * 2 ^ e))) := by
  rcases Nat.eq_zero_or_pos n with rfl | hn
  · rw [BinaryFormat.nearest_zero, Nat.cast_zero, zero_div, zero_mul, signed, neg_zero, ite_self,
      BinaryFormat.round_zero]
    exact at_zero negative
  have hless : single.round (n / d * 2 ^ e) < 2 ^ ((single.digits : Int) + single.top) := by
    have hmost := BinaryFormat.round_mono (F := single) (by decide) hle
    have hpower := BinaryFormat.round_two_pow (F := single) (k := 127) (by decide) (by decide)
    have hend : (2 : ℚ) ^ 127 < 2 ^ ((single.digits : Int) + single.top) := by
      norm_num [single]
    exact (hmost.trans_eq (by exact_mod_cast hpower)).trans_lt hend
  have hkept := mt (BinaryFormat.beyond_iff (by decide) (by decide) hn hd e).1 (not_le.2 hless)
  have his := is_nearest negative hn hd (not_le.1 hkept)
  rw [single.mantissa_mul_ulp n hd e] at his
  rw [round_signed]
  exact his.at

theorem at_nearest_of_le (negative : Bool) {n : Nat} {e : Int} (hn : (n : ℚ) * 2 ^ e ≤ 2 ^ 127) :
    (ofNumber (single.nearest negative n 1 e)).number.At
      (single.round (signed negative (n * 2 ^ e))) := by
  have hone : (n : ℚ) / (1 : Nat) * 2 ^ e = n * 2 ^ e := by rw [Nat.cast_one, div_one]
  rw [← hone] at hn ⊢
  exact at_quotient_of_le negative n one_pos hn

theorem at_ofScaled {v e : Int} (hv : |(v : ℚ) * 2 ^ e| ≤ 2 ^ 127) :
    (ofScaled v e).number.At (single.round (v * 2 ^ e)) := by
  rw [← signed_natAbs]
  refine at_nearest_of_le _ ?_
  rwa [Nat.cast_natAbs, Int.cast_abs, ← abs_of_pos (show (0 : ℚ) < 2 ^ e by positivity), ← abs_mul]

theorem at_mul (hx : x.number.At p) (hy : y.number.At q) (h : |p * q| ≤ 2 ^ 127) :
    (x * y).number.At (single.round (p * q)) := by
  obtain ⟨s, m, e, hxn, rfl⟩ := hx.exists_finite
  obtain ⟨t, n, f, hyn, rfl⟩ := hy.exists_finite
  have hmul : x * y = ofNumber (single.nearest (s != t) (m * n) 1 (e + f)) := by
    show ofNumber (single.mul x.number y.number) = _
    rw [hxn, hyn]
    rfl
  have hvalue : signed s (m * 2 ^ e) * signed t (n * 2 ^ f) =
      signed (s != t) ((m * n : Nat) * 2 ^ (e + f)) := by
    rw [zpow_add₀ two_ne_zero]
    push_cast
    cases s <;> cases t <;> simp only [signed, bne_self_eq_false, Bool.false_bne, Bool.true_bne,
      Bool.not_false, if_true, if_false, Bool.false_eq_true] <;> ring
  rw [hvalue] at h ⊢
  rw [hmul]
  refine at_nearest_of_le _ ?_
  cases hsign : s != t
  · rw [hsign, signed] at h
    exact (le_abs_self _).trans h
  · rw [hsign, signed, if_pos rfl, abs_neg] at h
    exact (le_abs_self _).trans h

/-- A finite number is a multiple of every smaller power of two. -/
theorem multiple_mul_zpow (negative : Bool) (m : Nat) {e f : Int} (hle : f ≤ e) :
    (BinaryFormat.multiple negative m e f : ℚ) * 2 ^ f = signed negative (m * 2 ^ e) := by
  obtain ⟨k, hk⟩ := Int.eq_ofNat_of_zero_le (show 0 ≤ e - f by omega)
  obtain rfl : e = k + f := by omega
  rw [zpow_add₀ two_ne_zero, zpow_natCast]
  simp only [BinaryFormat.multiple, Nat.shiftLeft_eq, hk, Int.toNat_natCast, signed]
  cases negative
  · simp only [Bool.false_eq_true, if_false]
    push_cast
    ring
  · simp only [if_true]
    push_cast
    ring

theorem at_add (hx : x.number.At p) (hy : y.number.At q) (h : |p + q| ≤ 2 ^ 127) :
    (x + y).number.At (single.round (p + q)) := by
  obtain ⟨s, m, e, hxn, rfl⟩ := hx.exists_finite
  obtain ⟨t, n, f, hyn, rfl⟩ := hy.exists_finite
  have hadd : x + y = ofNumber (single.add x.number y.number) := rfl
  have hvalue : signed s (m * 2 ^ e) + signed t (n * 2 ^ f) =
      (BinaryFormat.multiple s m e (min e f) + BinaryFormat.multiple t n f (min e f) : Int) *
        2 ^ min e f := by
    rw [← multiple_mul_zpow s m (min_le_left e f), ← multiple_mul_zpow t n (min_le_right e f)]
    push_cast
    ring
  rw [hvalue] at h ⊢
  rw [hadd, hxn, hyn, BinaryFormat.add]
  split_ifs with hzero
  · rw [hzero, Int.cast_zero, zero_mul, BinaryFormat.round_zero]
    exact at_zero (s && t)
  · exact at_ofScaled h

end Binary32

end PcmConversion
