import PcmConversion.Proofs.Numeric.Exact
import Mathlib.Order.Monotone.Odd

/-!
# Rounding of rationals

`nearestEven` rounds a rational to an integer, `BinaryFormat.round` to the significant bits of a
format, both with its sign and without an upper end of the range.  The two are odd and monotone, are
off by at most half a step, and leave alone what has no more bits than they keep.  What
`BinaryFormat.nearest` computes on magnitudes is this rounding (`mantissa_mul_ulp`).
-/

namespace PcmConversion

/-! ## Integers -/

/-- The integer nearest to a rational; of two that are equally near, the even one. -/
def nearestEven (v : ℚ) : ℤ :=
  v.num.sign * divEven v.num.natAbs v.den

theorem nearestEven_neg (v : ℚ) : nearestEven (-v) = -nearestEven v := by
  simp [nearestEven]

theorem nearestEven_of_nonneg {v : ℚ} (hv : 0 ≤ v) :
    nearestEven v = divEven v.num.natAbs v.den := by
  rcases hv.lt_or_eq with hpos | rfl
  · rw [nearestEven, Int.sign_eq_one_of_pos (Rat.num_pos.2 hpos), one_mul]
  · decide

/-- A magnitude as a fraction. -/
theorem natAbs_num_div_den {v : ℚ} (hv : 0 ≤ v) : (v.num.natAbs : ℚ) / v.den = v := by
  rw [← Int.cast_natCast, Int.natAbs_of_nonneg (Rat.num_nonneg.2 hv), Rat.num_div_den]

theorem nearestEven_div (a : Nat) {b : Nat} (hb : 0 < b) :
    nearestEven ((a : ℚ) / b) = divEven a b := by
  have hnonneg : (0 : ℚ) ≤ a / b := by positivity
  rw [nearestEven_of_nonneg hnonneg]
  exact congrArg _ (divEven_congr (Rat.den_pos _) hb (natAbs_num_div_den hnonneg))

theorem nearestEven_mono {v w : ℚ} (h : v ≤ w) : nearestEven v ≤ nearestEven w := by
  refine monotone_of_odd_of_monotoneOn_nonneg nearestEven_neg (fun v hv w hw hle => ?_) h
  rw [nearestEven_of_nonneg hv, nearestEven_of_nonneg hw]
  refine Int.ofNat_le.2 (divEven_mono v.den_pos w.den_pos ?_)
  refine mul_le_mul_of_div_le v.den_pos w.den_pos ?_
  rwa [natAbs_num_div_den hv, natAbs_num_div_den hw]

theorem nearestEven_intCast (n : ℤ) : nearestEven n = n := by
  rw [nearestEven, Rat.num_intCast, Rat.den_intCast,
    show divEven n.natAbs 1 = n.natAbs by simpa using divEven_mul_right n.natAbs one_pos,
    Int.sign_mul_natAbs]

theorem nearestEven_le {v : ℚ} {n : ℤ} (h : v ≤ n) : nearestEven v ≤ n :=
  (nearestEven_mono h).trans_eq (nearestEven_intCast n)

theorem le_nearestEven {v : ℚ} {n : ℤ} (h : n ≤ v) : n ≤ nearestEven v :=
  (nearestEven_intCast n).symm.trans_le (nearestEven_mono h)

theorem two_mul_divEven {n d : Nat} (hd : 0 < d) :
    2 * (divEven n d * d) ≤ 2 * n + d ∧ 2 * n ≤ 2 * (divEven n d * d) + d := by
  have hn := Nat.div_add_mod n d
  have hr := Nat.mod_lt n hd
  simp only [divEven]
  generalize n / d = q at hn ⊢
  generalize n % d = r at hn hr ⊢
  subst hn
  split_ifs
  · constructor <;> linarith
  · constructor <;> linarith
  · -- A tie: either neighbour is half a step away.
    rcases Nat.mod_two_eq_zero_or_one q with hparity | hparity
    · rw [hparity]
      constructor <;> linarith
    · rw [hparity]
      constructor <;> linarith

theorem abs_nearestEven_sub_le (v : ℚ) : |nearestEven v - v| ≤ 1 / 2 := by
  have hmagnitude : ∀ w : ℚ, 0 ≤ w → |nearestEven w - w| ≤ 1 / 2 := by
    intro w hw
    have hden : (0 : ℚ) < w.den := by exact_mod_cast w.den_pos
    obtain ⟨hlow, hhigh⟩ := two_mul_divEven (n := w.num.natAbs) w.den_pos
    have hw' := natAbs_num_div_den hw
    rw [div_eq_iff hden.ne'] at hw'
    rw [nearestEven_of_nonneg hw, Int.cast_natCast]
    generalize divEven w.num.natAbs w.den = q at hlow hhigh ⊢
    have hlow' : 2 * (q * (w.den : ℚ)) ≤ 2 * (w * w.den) + w.den := by
      rw [← hw']
      exact_mod_cast hlow
    have hhigh' : 2 * (w * w.den) ≤ 2 * (q * (w.den : ℚ)) + w.den := by
      rw [← hw']
      exact_mod_cast hhigh
    rw [abs_le]
    constructor <;> nlinarith
  rcases le_total 0 v with hv | hv
  · exact hmagnitude v hv
  · have hneg := hmagnitude (-v) (by linarith)
    rw [nearestEven_neg] at hneg
    rw [← abs_neg]
    convert hneg using 2
    push_cast
    ring

/-! ## The numbers of a format -/

namespace BinaryFormat

variable {F : BinaryFormat}

/-- The rational rounded to the significant bits of the format, ties to even, as if the range had no
upper end. -/
def round (F : BinaryFormat) (v : ℚ) : ℚ :=
  nearestEven (v / 2 ^ F.ulp |v|) * 2 ^ F.ulp |v|

theorem round_neg (v : ℚ) : F.round (-v) = -F.round v := by
  rw [round, round, abs_neg, neg_div, nearestEven_neg, Int.cast_neg, neg_mul]

theorem round_zero : F.round 0 = 0 := by
  rw [round, zero_div, ← Int.cast_zero, nearestEven_intCast, Int.cast_zero, zero_mul]

/-- What a mantissa stands for is the rounded value. -/
theorem mantissa_mul_ulp (F : BinaryFormat) (n : Nat) {d : Nat} (hd : 0 < d) (e : Int) :
    (F.mantissa n d e : ℚ) * 2 ^ F.ulp (n / d * 2 ^ e) = F.round (n / d * 2 ^ e) := by
  have hnonneg : (0 : ℚ) ≤ n / d * 2 ^ e := by positivity
  obtain ⟨a, b, hb, hvalue, hmantissa⟩ := exists_mantissa_eq F n hd e
  rw [round, abs_of_nonneg hnonneg, hmantissa, ← hvalue, mul_div_assoc, hvalue,
    div_self (by positivity), mul_one, nearestEven_div a hb, Int.cast_natCast]

theorem round_mono (hdigits : 0 < F.digits) {v w : ℚ} (h : v ≤ w) : F.round v ≤ F.round w := by
  refine monotone_of_odd_of_monotoneOn_nonneg (fun _ => round_neg _) (fun v hv w hw hle => ?_) h
  rcases (Set.mem_Ici.1 hv).lt_or_eq with hpos | rfl
  · have hfraction : ∀ u : ℚ, 0 < u → ((u.num.natAbs : ℚ) / u.den * 2 ^ (0 : Int)) = u := by
      intro u hu
      rw [zpow_zero, mul_one, natAbs_num_div_den hu.le]
    have hnum : ∀ u : ℚ, 0 < u → 0 < u.num.natAbs := by
      intro u hu
      exact Int.natAbs_pos.2 (Rat.num_pos.2 hu).ne'
    have hpos' := hpos.trans_le hle
    rw [← hfraction v hpos, ← hfraction w hpos', ← mantissa_mul_ulp F _ v.den_pos,
      ← mantissa_mul_ulp F _ w.den_pos]
    refine mantissa_mono hdigits (hnum v hpos) v.den_pos (hnum w hpos') w.den_pos ?_
    rwa [hfraction v hpos, hfraction w hpos']
  · rw [round_zero, round]
    have hnearest : nearestEven 0 ≤ nearestEven (w / 2 ^ F.ulp |w|) :=
      nearestEven_mono (div_nonneg hw (by positivity))
    have hnonneg : (0 : ℚ) ≤ nearestEven (w / 2 ^ F.ulp |w|) := by
      exact_mod_cast hnearest
    positivity

/-- A multiple of a power of two that fits the significant bits is not changed. -/
theorem round_of_multiple {m k : Int} (hm : |m| < 2 ^ F.digits) (hk : F.bottom ≤ k) :
    F.round (m * 2 ^ k) = m * 2 ^ k := by
  rcases eq_or_ne m 0 with rfl | hne
  · rw [Int.cast_zero, zero_mul, round_zero]
  have hmagnitude : |(m : ℚ) * 2 ^ k| = |m| * 2 ^ k := by
    rw [abs_mul, Int.cast_abs, abs_of_pos (show (0 : ℚ) < 2 ^ k by positivity)]
  have hpos : (0 : ℚ) < |m| := by exact_mod_cast abs_pos.2 hne
  have hlog : Int.log 2 ((|m| : ℤ) : ℚ) < F.digits := by
    rw [← Int.lt_zpow_iff_log_lt one_lt_two hpos, Nat.cast_ofNat, zpow_natCast]
    exact_mod_cast hm
  have hulp : F.ulp |(m : ℚ) * 2 ^ k| ≤ k := by
    rw [hmagnitude, ulp, log_mul_zpow hpos]
    omega
  rw [round]
  generalize F.ulp |(m : ℚ) * 2 ^ k| = j at hulp
  obtain ⟨i, hi⟩ := Int.eq_ofNat_of_zero_le (show 0 ≤ k - j by omega)
  obtain rfl : k = i + j := by omega
  have hwhole : (m : ℚ) * 2 ^ ((i : Int) + j) / 2 ^ j = (m * 2 ^ i : Int) := by
    rw [zpow_add₀ two_ne_zero, ← mul_assoc, mul_div_assoc, div_self (by positivity), zpow_natCast]
    push_cast
    ring
  rw [hwhole, nearestEven_intCast, zpow_add₀ two_ne_zero, zpow_natCast]
  push_cast
  ring

/-- One bit more is not too many for a power of two. -/
theorem round_of_multiple_le (hdigits : 0 < F.digits) {m k : Int} (hm : |m| ≤ 2 ^ F.digits)
    (hk : F.bottom ≤ k) : F.round (m * 2 ^ k) = m * 2 ^ k := by
  rcases hm.lt_or_eq with hlt | heq
  · exact round_of_multiple hlt hk
  have hne : m ≠ 0 := by
    rintro rfl
    exact (Nat.two_pow_pos F.digits).ne (by exact_mod_cast heq)
  have hsplit : (m : ℚ) = m.sign * 2 ^ F.digits := by
    exact_mod_cast (heq ▸ Int.sign_mul_abs m).symm
  have hcarried : (m : ℚ) * 2 ^ k = m.sign * 2 ^ (F.digits + k) := by
    rw [zpow_add₀ two_ne_zero, zpow_natCast, ← mul_assoc, ← hsplit]
  rw [hcarried]
  refine round_of_multiple ?_ (by omega)
  rw [Int.abs_sign_of_ne_zero hne]
  exact one_lt_pow₀ one_lt_two hdigits.ne'

theorem round_intCast (hdigits : 0 < F.digits) (hbottom : F.bottom ≤ 0) {n : Int}
    (hn : |n| ≤ 2 ^ F.digits) : F.round n = n := by
  simpa using round_of_multiple_le hdigits hn hbottom

/-- What has been rounded is not changed again. -/
theorem round_round (hdigits : 0 < F.digits) (v : ℚ) : F.round (F.round v) = F.round v := by
  refine round_of_multiple_le hdigits ?_ (le_max_right _ _)
  rcases eq_or_ne v 0 with rfl | hne
  · simp [nearestEven]
  have hbound := abs_lt.1 (lt_of_ulp (F := F) (abs_pos.2 hne))
  rw [add_comm, zpow_add₀ two_ne_zero, zpow_natCast] at hbound
  refine abs_le.2 ⟨le_nearestEven ?_, nearestEven_le ?_⟩
  · rw [le_div_iff₀ (by positivity)]
    push_cast
    linarith [hbound.1]
  · rw [div_le_iff₀ (by positivity)]
    push_cast
    exact hbound.2.le

/-- An integer is rounded to an integer. -/
theorem exists_round_intCast (hdigits : 0 < F.digits) (hbottom : F.bottom ≤ 0) (v : Int) :
    ∃ n : Int, F.round v = n := by
  rcases lt_or_ge (F.ulp |(v : ℚ)|) 0 with hfine | hcoarse
  · refine ⟨v, ?_⟩
    rcases eq_or_ne v 0 with rfl | hne
    · rw [Int.cast_zero, round_zero]
    have hpos : (0 : ℚ) < |(v : ℚ)| := abs_pos.2 (by exact_mod_cast hne)
    have hsmall : |(v : ℚ)| ≤ 2 ^ F.digits := by
      calc |(v : ℚ)| ≤ 2 ^ (F.ulp |(v : ℚ)| + F.digits) := (lt_of_ulp hpos).le
        _ ≤ 2 ^ (F.digits : Int) := zpow_le_zpow_right₀ one_le_two (by omega)
        _ = 2 ^ F.digits := zpow_natCast ..
    exact round_intCast hdigits hbottom (by exact_mod_cast hsmall)
  · obtain ⟨k, hk⟩ := Int.eq_ofNat_of_zero_le hcoarse
    refine ⟨nearestEven (v / 2 ^ F.ulp |(v : ℚ)|) * 2 ^ k, ?_⟩
    rw [round, hk, zpow_natCast]
    push_cast
    rfl

theorem abs_round_sub_le (v : ℚ) : |F.round v - v| ≤ 2 ^ F.ulp |v| / 2 := by
  rw [round]
  have hstep : (0 : ℚ) < 2 ^ F.ulp |v| := by positivity
  generalize (2 : ℚ) ^ F.ulp |v| = s at hstep ⊢
  have hfactor : nearestEven (v / s) * s - v = (nearestEven (v / s) - v / s) * s := by
    rw [sub_mul, div_mul_cancel₀ v hstep.ne']
  rw [hfactor, abs_mul, abs_of_pos hstep]
  have hhalf := abs_nearestEven_sub_le (v / s)
  nlinarith

/-- Above the smallest numbers of the format rounding commutes with powers of two. -/
theorem round_mul_zpow {v : ℚ} {k : Int} (hv : v ≠ 0)
    (hlow : F.bottom ≤ Int.log 2 |v| - (F.digits - 1))
    (hlow' : F.bottom ≤ Int.log 2 |v| + k - (F.digits - 1)) :
    F.round (v * 2 ^ k) = F.round v * 2 ^ k := by
  have hulp : F.ulp |v * 2 ^ k| = F.ulp |v| + k := by
    rw [abs_mul, abs_of_pos (show (0 : ℚ) < 2 ^ k by positivity), ulp, ulp,
      log_mul_zpow (abs_pos.2 hv), max_eq_left hlow', max_eq_left hlow]
    ring
  have hsame : v * 2 ^ k / 2 ^ (F.ulp |v| + k) = v / 2 ^ F.ulp |v| := by
    rw [zpow_add₀ two_ne_zero, mul_div_mul_right _ _ (by positivity)]
  rw [round, hulp, hsame, round, zpow_add₀ two_ne_zero, mul_assoc]

end BinaryFormat

end PcmConversion
