import PcmConversion.Numeric.Number
import Mathlib.Algebra.Order.Field.Power
import Mathlib.Data.Int.Log
import Mathlib.Data.Rat.Floor
import Mathlib.Tactic.FieldSimp
import Mathlib.Tactic.Linarith
import Mathlib.Tactic.Positivity
import Mathlib.Tactic.Ring

/-!
# Rounding keeps the order

The rounded quotients are monotone (`divEven_mono`), and so is the rounding of a positive value to a
floating-point format: what the mantissa of a larger fraction stands for is not smaller
(`mantissa_mono`).  Values are rationals `n * 2^e / d`; the exponent of the last bit that one of
them is rounded to is its `ulp`.
-/

namespace PcmConversion

/-! ## Quotients -/

theorem divEven_mono {a b c d : Nat} (hb : 0 < b) (hd : 0 < d) (h : a * d ≤ c * b) :
    divEven a b ≤ divEven c d := by
  have ha := Nat.div_add_mod a b
  have hc := Nat.div_add_mod c d
  have hra := Nat.mod_lt a hb
  have hrc := Nat.mod_lt c hd
  have hle : a / b ≤ c / d := by
    rw [Nat.le_div_iff_mul_le hd]
    have hquotient : a / b * b ≤ a := Nat.div_mul_le_self a b
    nlinarith
  have hupper : divEven a b ≤ a / b + 1 := by
    simp only [divEven]
    split_ifs <;> omega
  have hlower : c / d ≤ divEven c d := by
    simp only [divEven]
    split_ifs <;> omega
  rcases hle.lt_or_eq with hlt | heq
  · omega
  · -- Equal quotients: the remainders are compared as fractions.
    have hrest : (a % b) * d ≤ (c % d) * b := by
      rw [← heq] at hc
      nlinarith
    have hhalf : b ≤ 2 * (a % b) → d ≤ 2 * (c % d) := by
      intro hab
      by_contra hcd
      nlinarith
    have hmore : b < 2 * (a % b) → d < 2 * (c % d) := by
      intro hab
      by_contra hcd
      nlinarith
    simp only [divEven]
    split_ifs <;> omega

theorem divEven_le {a b q : Nat} (hb : 0 < b) (h : a ≤ q * b) : divEven a b ≤ q := by
  have hmono : divEven a b ≤ divEven q 1 := divEven_mono hb one_pos (by omega)
  have hone : divEven q 1 = q := by simp [divEven, Nat.mod_one]
  omega

theorem le_divEven {a b q : Nat} (hb : 0 < b) (h : q * b ≤ a) : q ≤ divEven a b := by
  have hmono : divEven q 1 ≤ divEven a b := divEven_mono one_pos hb (by omega)
  have hone : divEven q 1 = q := by simp [divEven, Nat.mod_one]
  omega

theorem divCeil_le_iff {a b q : Nat} (hb : 0 < b) : divCeil a b ≤ q ↔ a ≤ q * b := by
  rw [divCeil, ← Nat.lt_add_one_iff, Nat.div_lt_iff_lt_mul hb, Nat.add_mul]
  omega

/-! ## Scaled fractions -/

theorem scaleFraction_pos {n d : Nat} (hd : 0 < d) (e : Int) : 0 < (scaleFraction n d e).2 := by
  simp only [scaleFraction, Nat.shiftLeft_eq]
  positivity

theorem scaleFraction_div (n : Nat) {d : Nat} (hd : 0 < d) (e : Int) :
    ((scaleFraction n d e).1 : ℚ) / (scaleFraction n d e).2 = n / d * 2 ^ e := by
  simp only [scaleFraction, Nat.shiftLeft_eq, Nat.cast_mul, Nat.cast_pow, Nat.cast_ofNat]
  have hd' : (d : ℚ) ≠ 0 := by positivity
  rcases le_total 0 e with he | he
  · have hneg : (-e).toNat = 0 := by omega
    obtain ⟨k, rfl⟩ := Int.eq_ofNat_of_zero_le he
    rw [hneg, zpow_natCast]
    simp only [Int.toNat_natCast, pow_zero, mul_one]
    ring
  · have hnone : e.toNat = 0 := by omega
    obtain ⟨k, hk⟩ := Int.eq_ofNat_of_zero_le (show 0 ≤ -e by omega)
    obtain rfl : e = -(k : Int) := by omega
    rw [hnone, zpow_neg, zpow_natCast]
    simp only [neg_neg, Int.toNat_natCast, pow_zero, mul_one]
    field_simp

/-- Fractions in the order of their cross products. -/
theorem mul_le_mul_of_div_le {a b c d : Nat} (hb : 0 < b) (hd : 0 < d)
    (h : (a : ℚ) / b ≤ c / d) : a * d ≤ c * b := by
  rw [div_le_div_iff₀ (by positivity) (by positivity)] at h
  exact_mod_cast h

theorem zpow_log2_le {n : Nat} (hn : 0 < n) : (2 : ℚ) ^ (n.log2 : Int) ≤ n := by
  rw [zpow_natCast]
  exact_mod_cast Nat.log2_self_le hn.ne'

theorem lt_zpow_log2 (n : Nat) : (n : ℚ) < 2 ^ ((n.log2 : Int) + 1) := by
  rw [← Nat.cast_add_one, zpow_natCast]
  exact_mod_cast Nat.lt_log2_self

/-- The logarithm of a quotient is the difference of the logarithms or one less. -/
theorem log_quotient {n d : Nat} (hn : 0 < n) (hd : 0 < d) :
    (2 : ℚ) ^ ((n.log2 : Int) - d.log2 - 1) ≤ n / d ∧
      (n : ℚ) / d < 2 ^ ((n.log2 : Int) - d.log2 + 1) := by
  have hd' : (0 : ℚ) < d := by exact_mod_cast hd
  set k : Int := (n.log2 : Int) - d.log2 with hk
  constructor
  · rw [le_div_iff₀ hd']
    calc (2 : ℚ) ^ (k - 1) * d ≤ 2 ^ (k - 1) * 2 ^ ((d.log2 : Int) + 1) := by
          gcongr
          exact (lt_zpow_log2 d).le
      _ = 2 ^ (n.log2 : Int) := by
        rw [← zpow_add₀ two_ne_zero, hk]
        congr 1
        ring
      _ ≤ n := zpow_log2_le hn
  · rw [div_lt_iff₀ hd']
    calc (n : ℚ) < 2 ^ ((n.log2 : Int) + 1) := lt_zpow_log2 n
      _ = 2 ^ (k + 1) * 2 ^ (d.log2 : Int) := by
        rw [← zpow_add₀ two_ne_zero, hk]
        congr 1
        ring
      _ ≤ 2 ^ (k + 1) * d := by
        gcongr
        exact zpow_log2_le hd

theorem quotientLog2_eq_log {n d : Nat} (hn : 0 < n) (hd : 0 < d) :
    quotientLog2 n d = Int.log 2 ((n : ℚ) / d) := by
  have hq : (0 : ℚ) < n / d := by positivity
  obtain ⟨hlower, hupper⟩ := log_quotient hn hd
  have hlow := (Int.zpow_le_iff_le_log one_lt_two hq).1 hlower
  have hhigh := (Int.lt_zpow_iff_log_lt one_lt_two hq).1 hupper
  unfold quotientLog2
  simp only
  set k : Int := (n.log2 : Int) - d.log2
  -- What is left to tell is whether the quotient reaches `2 ^ k`.
  have htest : (scaleFraction n d (-k)).2 ≤ (scaleFraction n d (-k)).1 ↔ (2 : ℚ) ^ k ≤ n / d := by
    have hpos : (0 : ℚ) < (scaleFraction n d (-k)).2 := by
      exact_mod_cast scaleFraction_pos hd (-k)
    rw [← Nat.cast_le (α := ℚ), ← one_le_div hpos, scaleFraction_div n hd, zpow_neg,
      ← div_eq_mul_inv, one_le_div (by positivity)]
  split_ifs with hle
  · have hreached := (Int.zpow_le_iff_le_log one_lt_two hq).1 (htest.1 hle)
    omega
  · have hbelow := (Int.lt_zpow_iff_log_lt one_lt_two hq).1
      (not_le.1 fun hreached => hle (htest.2 hreached))
    omega

theorem log_mul_zpow {q : ℚ} (hq : 0 < q) (e : Int) :
    Int.log 2 (q * 2 ^ e) = Int.log 2 q + e := by
  have hscaled : 0 < q * 2 ^ e := by positivity
  have hiff : ∀ k : Int, k ≤ Int.log 2 (q * 2 ^ e) ↔ k - e ≤ Int.log 2 q := by
    intro k
    rw [← Int.zpow_le_iff_le_log one_lt_two hscaled, ← Int.zpow_le_iff_le_log one_lt_two hq,
      Nat.cast_ofNat, zpow_sub₀ two_ne_zero, div_le_iff₀ (by positivity)]
  have hle := (hiff _).1 le_rfl
  have hge := (hiff (Int.log 2 q + e)).2 (by omega)
  omega

/-! ## The nearest number of a format -/

namespace BinaryFormat

variable (F : BinaryFormat)

/-- The exponent of the last significant bit that a positive value is rounded to. -/
def ulp (v : ℚ) : Int :=
  max (Int.log 2 v - (F.digits - 1)) F.bottom

/-- The multiple of its last bit that a value `n * 2^e / d` is rounded to. -/
def mantissa (n d : Nat) (e : Int) : Nat :=
  divEven (scaleFraction n d (e - F.ulp (n / d * 2 ^ e))).1
    (scaleFraction n d (e - F.ulp (n / d * 2 ^ e))).2

theorem nearest_of_pos (negative : Bool) {n d : Nat} (hn : 0 < n) (hd : 0 < d) (e : Int) :
    F.nearest negative n d e =
      if F.digits + F.top ≤ F.ulp (n / d * 2 ^ e) + (F.mantissa n d e).log2 then
        .infinite negative
      else .finite negative (F.mantissa n d e) (F.ulp (n / d * 2 ^ e)) := by
  have hq : (0 : ℚ) < n / d := by positivity
  have hlog : quotientLog2 n d + e = Int.log 2 ((n : ℚ) / d * 2 ^ e) := by
    rw [quotientLog2_eq_log hn hd, log_mul_zpow hq]
  unfold nearest mantissa
  rw [if_neg hn.ne', hlog]
  rfl

variable {F} {n d n' d' : Nat} {e e' : Int} {v w : ℚ}

theorem ulp_mono (hv : 0 < v) (h : v ≤ w) : F.ulp v ≤ F.ulp w := by
  have hlog := Int.log_mono_right (b := 2) hv h
  unfold ulp
  omega

theorem lt_of_ulp (hv : 0 < v) : v < 2 ^ (F.ulp v + F.digits) := by
  have hlog : Int.log 2 v < F.ulp v + F.digits := by
    unfold ulp
    omega
  exact_mod_cast (Int.lt_zpow_iff_log_lt one_lt_two hv).2 hlog

theorem le_of_bottom_lt_ulp (hv : 0 < v) (hbottom : F.bottom < F.ulp v) :
    (2 : ℚ) ^ (F.ulp v + F.digits - 1) ≤ v := by
  have hlog : F.ulp v + F.digits - 1 ≤ Int.log 2 v := by
    unfold ulp at hbottom ⊢
    omega
  exact_mod_cast (Int.zpow_le_iff_le_log one_lt_two hv).2 hlog

/-- The fraction that is rounded to the mantissa. -/
theorem exists_mantissa_eq (F : BinaryFormat) (n : Nat) (hd : 0 < d) (e : Int) :
    ∃ a b : Nat, 0 < b ∧ (a : ℚ) / b * 2 ^ F.ulp (n / d * 2 ^ e) = n / d * 2 ^ e ∧
      F.mantissa n d e = divEven a b := by
  refine ⟨_, _, scaleFraction_pos hd _, ?_, rfl⟩
  rw [scaleFraction_div n hd, mul_assoc, ← zpow_add₀ two_ne_zero, sub_add_cancel]

theorem mantissa_le (hn : 0 < n) (hd : 0 < d) : F.mantissa n d e ≤ 2 ^ F.digits := by
  have hpos : (0 : ℚ) < n / d * 2 ^ e := by positivity
  obtain ⟨a, b, hb, hvalue, hmantissa⟩ := exists_mantissa_eq F n hd e
  have hscaled : (a : ℚ) / b * 2 ^ F.ulp (n / d * 2 ^ e) ≤
      (2 ^ F.digits : Nat) / (1 : Nat) * 2 ^ F.ulp (n / d * 2 ^ e) := by
    calc (a : ℚ) / b * 2 ^ F.ulp (n / d * 2 ^ e) = n / d * 2 ^ e := hvalue
      _ ≤ 2 ^ (F.ulp (n / d * 2 ^ e) + F.digits) := (lt_of_ulp hpos).le
      _ = (2 ^ F.digits : Nat) / (1 : Nat) * 2 ^ F.ulp (n / d * 2 ^ e) := by
        rw [zpow_add₀ two_ne_zero, mul_comm, zpow_natCast, Nat.cast_one, div_one, Nat.cast_pow,
          Nat.cast_ofNat]
  have hcross := mul_le_mul_of_div_le hb one_pos (le_of_mul_le_mul_right hscaled (by positivity))
  rw [hmantissa]
  exact divEven_le hb (by rwa [Nat.mul_one] at hcross)

theorem le_mantissa (hdigits : 0 < F.digits) (hn : 0 < n) (hd : 0 < d)
    (hbottom : F.bottom < F.ulp (n / d * 2 ^ e)) : 2 ^ (F.digits - 1) ≤ F.mantissa n d e := by
  have hpos : (0 : ℚ) < n / d * 2 ^ e := by positivity
  obtain ⟨a, b, hb, hvalue, hmantissa⟩ := exists_mantissa_eq F n hd e
  have hsub : F.ulp ((n : ℚ) / d * 2 ^ e) + F.digits - 1 =
      F.ulp ((n : ℚ) / d * 2 ^ e) + (F.digits - 1 : Nat) := by omega
  have hscaled : (2 ^ (F.digits - 1) : Nat) / (1 : Nat) * 2 ^ F.ulp (n / d * 2 ^ e) ≤
      (a : ℚ) / b * 2 ^ F.ulp (n / d * 2 ^ e) := by
    calc ((2 ^ (F.digits - 1) : Nat) : ℚ) / (1 : Nat) * 2 ^ F.ulp (n / d * 2 ^ e)
        = 2 ^ (F.ulp (n / d * 2 ^ e) + F.digits - 1) := by
          rw [hsub, zpow_add₀ two_ne_zero, mul_comm, zpow_natCast, Nat.cast_one, div_one,
            Nat.cast_pow, Nat.cast_ofNat]
      _ ≤ n / d * 2 ^ e := le_of_bottom_lt_ulp hpos hbottom
      _ = (a : ℚ) / b * 2 ^ F.ulp (n / d * 2 ^ e) := hvalue.symm
  have hcross := mul_le_mul_of_div_le one_pos hb (le_of_mul_le_mul_right hscaled (by positivity))
  rw [hmantissa]
  exact le_divEven hb (by rwa [Nat.mul_one] at hcross)

/-- The value that a mantissa stands for, in the order of the values that were rounded. -/
theorem mantissa_mono (hdigits : 0 < F.digits) (hn : 0 < n) (hd : 0 < d) (hn' : 0 < n')
    (hd' : 0 < d') (h : (n : ℚ) / d * 2 ^ e ≤ n' / d' * 2 ^ e') :
    (F.mantissa n d e : ℚ) * 2 ^ F.ulp (n / d * 2 ^ e) ≤
      F.mantissa n' d' e' * 2 ^ F.ulp (n' / d' * 2 ^ e') := by
  have hv : (0 : ℚ) < n / d * 2 ^ e := by positivity
  rcases (ulp_mono (F := F) hv h).lt_or_eq with hlt | heq
  · -- The larger value has a larger last bit, so its mantissa is at least half of the range.
    have hbottom : F.bottom < F.ulp (n' / d' * 2 ^ e') := lt_of_le_of_lt (le_max_right _ _) hlt
    have hupper : (F.mantissa n d e : ℚ) ≤ 2 ^ F.digits := by
      exact_mod_cast mantissa_le hn hd
    have hlower : (2 : ℚ) ^ (F.digits - 1) ≤ F.mantissa n' d' e' := by
      exact_mod_cast le_mantissa hdigits hn' hd' hbottom
    set k := F.ulp (n / d * 2 ^ e)
    set k' := F.ulp (n' / d' * 2 ^ e')
    calc (F.mantissa n d e : ℚ) * 2 ^ k ≤ 2 ^ F.digits * 2 ^ k := by gcongr
      _ = 2 ^ (F.digits - 1) * 2 ^ (k + 1) := by
        rw [← zpow_natCast, ← zpow_natCast, ← zpow_add₀ two_ne_zero, ← zpow_add₀ two_ne_zero]
        congr 1
        omega
      _ ≤ 2 ^ (F.digits - 1) * 2 ^ k' := by
        gcongr
        · norm_num
        · omega
      _ ≤ F.mantissa n' d' e' * 2 ^ k' := by gcongr
  · -- Equal last bits: the mantissas are rounded from fractions in the same order.
    rw [← heq]
    have hmono : F.mantissa n d e ≤ F.mantissa n' d' e' := by
      obtain ⟨a, b, hb, hvalue, hmantissa⟩ := exists_mantissa_eq F n hd e
      obtain ⟨a', b', hb', hvalue', hmantissa'⟩ := exists_mantissa_eq F n' hd' e'
      rw [← heq] at hvalue'
      rw [← hvalue, ← hvalue'] at h
      rw [hmantissa, hmantissa']
      exact divEven_mono hb hb'
        (mul_le_mul_of_div_le hb hb' (le_of_mul_le_mul_right h (by positivity)))
    gcongr

end BinaryFormat

end PcmConversion
