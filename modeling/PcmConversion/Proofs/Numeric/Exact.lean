import PcmConversion.Numeric.Binary32
import PcmConversion.Proofs.Numeric.Order

/-!
# The value of a number

`Number.Is` says which sign and magnitude a finite number has.  Rounding, products and rounding to
an integer depend on the value alone (`nearest_congr`, `mul_eq_ofNumber`, `Number.Is.clamp`), a
rounded number survives being stored as a bit pattern (`is_ofNumber`), and an integer of at most 24
bits, scaled by a power of two within the range, is not changed by rounding (`is_nearest_exact`).
-/

namespace PcmConversion

/-! ## Quotients -/

/-- The nearest integer, the even one of two that are equally near. -/
theorem divEven_eq {n d q : Nat} (hd : 0 < d) (hlow : 2 * q * d ≤ 2 * n + d)
    (hhigh : 2 * n ≤ (2 * q + 1) * d)
    (htie : 2 * q * d = 2 * n + d ∨ 2 * n = (2 * q + 1) * d → q % 2 = 0) : divEven n d = q := by
  have hn := Nat.div_add_mod n d
  have hr := Nat.mod_lt n hd
  unfold divEven
  generalize n / d = a at hn ⊢
  generalize n % d = r at hn hr ⊢
  subst hn
  have hle : a ≤ q := by
    by_contra hlt
    have hstep : d * (q + 1) ≤ d * a := Nat.mul_le_mul_left _ (by omega)
    nlinarith
  have hge : q ≤ a + 1 := by
    by_contra hlt
    have hstep : d * (a + 2) ≤ d * q := Nat.mul_le_mul_left _ (by omega)
    nlinarith
  rcases hle.lt_or_eq with hlt | rfl
  · obtain rfl : q = a + 1 := by omega
    have hhalf : d ≤ 2 * r := by nlinarith
    rcases hhalf.lt_or_eq with hmore | heven
    · simp only [show ¬2 * r < d by omega, hmore, if_true, if_false]
    · have := htie (.inl (by rw [heven]; ring))
      simp only [show ¬2 * r < d by omega, show ¬d < 2 * r by omega, if_false]
      omega
  · have hhalf : 2 * r ≤ d := by nlinarith
    rcases hhalf.lt_or_eq with hless | heven
    · simp only [hless, if_true]
    · have := htie (.inr (by rw [← heven]; ring))
      simp only [show ¬2 * r < d by omega, show ¬d < 2 * r by omega, if_false]
      omega

theorem divEven_congr {a b c d : Nat} (hb : 0 < b) (hd : 0 < d) (h : (a : ℚ) / b = c / d) :
    divEven a b = divEven c d :=
  le_antisymm (divEven_mono hb hd (mul_le_mul_of_div_le hb hd h.le))
    (divEven_mono hd hb (mul_le_mul_of_div_le hd hb h.ge))

theorem log2_mul_two_pow {n : Nat} (hn : 0 < n) (k : Nat) : (n * 2 ^ k).log2 = n.log2 + k := by
  rw [Nat.log2_eq_iff (Nat.mul_pos hn (Nat.two_pow_pos k)).ne', Nat.add_right_comm, Nat.pow_add,
    Nat.pow_add]
  exact ⟨Nat.mul_le_mul_right _ (Nat.log2_self_le hn.ne'),
    Nat.mul_lt_mul_of_pos_right Nat.lt_log2_self (Nat.two_pow_pos k)⟩

/-! ## Rounding -/

namespace BinaryFormat

variable {F : BinaryFormat} {n d n' d' : Nat} {e e' : Int}

theorem mantissa_congr (hd : 0 < d) (hd' : 0 < d')
    (h : (n : ℚ) / d * 2 ^ e = n' / d' * 2 ^ e') : F.mantissa n d e = F.mantissa n' d' e' := by
  obtain ⟨a, b, hb, hvalue, hmantissa⟩ := exists_mantissa_eq F n hd e
  obtain ⟨a', b', hb', hvalue', hmantissa'⟩ := exists_mantissa_eq F n' hd' e'
  rw [hmantissa, hmantissa']
  refine divEven_congr hb hb' ?_
  rw [← h] at hvalue'
  exact mul_right_cancel₀ (by positivity) (hvalue.trans hvalue'.symm)

/-- What a value is rounded to depends on the value alone. -/
theorem nearest_congr (negative : Bool) (hn : 0 < n) (hd : 0 < d) (hn' : 0 < n') (hd' : 0 < d')
    (h : (n : ℚ) / d * 2 ^ e = n' / d' * 2 ^ e') :
    F.nearest negative n d e = F.nearest negative n' d' e' := by
  rw [F.nearest_of_pos negative hn hd, F.nearest_of_pos negative hn' hd',
    mantissa_congr hd hd' h, h]

theorem mantissa_eq_divEven {a b : Nat} (hd : 0 < d) (hb : 0 < b)
    (h : (n : ℚ) / d * 2 ^ e = a / b * 2 ^ F.ulp (n / d * 2 ^ e)) :
    F.mantissa n d e = divEven a b := by
  obtain ⟨a', b', hb', hvalue, hmantissa⟩ := exists_mantissa_eq F n hd e
  rw [hmantissa]
  exact divEven_congr hb' hb (mul_right_cancel₀ (by positivity) (hvalue.trans h))

/-- A multiple of its last bit is not changed. -/
theorem mantissa_of_multiple {m : Nat} (hd : 0 < d)
    (h : (n : ℚ) / d * 2 ^ e = m * 2 ^ F.ulp (n / d * 2 ^ e)) : F.mantissa n d e = m := by
  rw [mantissa_eq_divEven hd one_pos (by simpa using h)]
  simpa using divEven_mul_right m one_pos

/-- Mantissa and exponent as rounding to the format leaves them. -/
structure Rounded (F : BinaryFormat) (m : Nat) (e : Int) : Prop where
  mantissa : m ≤ 2 ^ F.digits
  bottom : F.bottom ≤ e
  normal : e = F.bottom ∨ 2 ^ (F.digits - 1) ≤ m
  top : e + m.log2 < F.digits + F.top

theorem rounded_mantissa (hdigits : 0 < F.digits) (hn : 0 < n) (hd : 0 < d)
    (htop : F.ulp (n / d * 2 ^ e) + (F.mantissa n d e).log2 < F.digits + F.top) :
    F.Rounded (F.mantissa n d e) (F.ulp (n / d * 2 ^ e)) where
  mantissa := mantissa_le hn hd
  bottom := le_max_right _ _
  normal := by
    rcases (le_max_right _ _ : F.bottom ≤ F.ulp (n / d * 2 ^ e)).lt_or_eq with hlt | heq
    · exact .inr (le_mantissa hdigits hn hd hlt)
    · exact .inl heq.symm
  top := htop

end BinaryFormat

/-! ## Values -/

/-- The number is finite and has this sign and magnitude. -/
def Number.Is (v : Number) (negative : Bool) (q : ℚ) : Prop :=
  ∃ m e, v = .finite negative m e ∧ (m : ℚ) * 2 ^ e = q

/-- To an integer a number is rounded by its value alone. -/
theorem Number.Is.clamp {v : Number} {negative : Bool} {a b : Nat} {low high : Int} (hb : 0 < b)
    (h : v.Is negative ((a : ℚ) / b)) :
    v.clamp divEven low high =
      max low (min high (if negative then -(divEven a b : Int) else divEven a b)) := by
  obtain ⟨m, e, rfl, hvalue⟩ := h
  have hcongr : divEven (scaleFraction m 1 e).1 (scaleFraction m 1 e).2 = divEven a b := by
    refine divEven_congr (scaleFraction_pos one_pos e) hb ?_
    rw [scaleFraction_div m one_pos, ← hvalue]
    simp
  simp only [Number.clamp, hcongr]

namespace Binary32

open BinaryFormat (single)

/-- The number of a sign, an exponent field and a fraction. -/
theorem ofPattern_single (negative : Bool) {field fraction : Nat} (hfield : field < 255)
    (hfraction : fraction < 8388608) :
    single.ofPattern ((if negative then 2147483648 else 0) + field * 8388608 + fraction) =
      if field = 0 then .finite negative fraction (-149)
      else .finite negative (fraction + 8388608) (field - 150) := by
  have hlow : ((if negative then 2147483648 else 0) + field * 8388608 + fraction) % 8388608 =
      fraction := by
    cases negative <;> simp <;> omega
  have hhigh : ((if negative then 2147483648 else 0) + field * 8388608 + fraction) / 8388608 =
      (if negative then 256 else 0) + field := by
    cases negative <;> simp <;> omega
  have hfield' : ((if negative then 256 else 0) + field) % 256 = field := by
    cases negative <;> simp <;> omega
  have hsign : decide (((if negative then 256 else 0) + field) / 256 % 2 = 1) = negative := by
    cases negative <;> simp <;> omega
  unfold BinaryFormat.ofPattern
  simp only [show (1 : Nat) <<< (single.digits - 1) = 8388608 by decide,
    show single.infinityField = 255 by decide, Nat.reduceAdd, hlow, hhigh, hfield', hsign,
    show field ≠ 255 by omega, if_false]
  split_ifs
  · rfl
  · congr 1
    simp only [single]
    omega

theorem pattern_single (negative : Bool) (m : Nat) (e : Int) :
    single.pattern (.finite negative m e) = (if negative then 2147483648 else 0) +
      (if m = 0 then 0 else (e + 149).toNat * 8388608 + m) := by
  simp only [BinaryFormat.pattern, single, BinaryFormat.infinityField, Nat.shiftLeft_eq]
  cases negative <;> simp [Nat.add_comm]

theorem number_ofNumber (negative : Bool) {v : Number} (field fraction : Nat)
    (hfield : field < 255) (hfraction : fraction < 8388608)
    (h : single.pattern v = (if negative then 2147483648 else 0) + field * 8388608 + fraction) :
    (ofNumber v).number = if field = 0 then .finite negative fraction (-149)
      else .finite negative (fraction + 8388608) (field - 150) := by
  have hword : (UInt32.ofNat (single.pattern v)).toNat = single.pattern v := by
    rw [UInt32.toNat_ofNat']
    refine Nat.mod_eq_of_lt ?_
    rw [h]
    cases negative <;> simp <;> omega
  rw [number, ofNumber, hword, h, ofPattern_single negative hfield hfraction]

/-- A rounded number survives being stored, though a carry moves its exponent. -/
theorem is_ofNumber (negative : Bool) {m : Nat} {e : Int} (h : single.Rounded m e) :
    (ofNumber (.finite negative m e)).number.Is negative (m * 2 ^ e) := by
  obtain ⟨hmantissa, hbottom, hnormal, htop⟩ := h
  simp only [single, Nat.reducePow, Nat.reduceSub] at hmantissa hbottom hnormal htop
  have hpattern := pattern_single negative m e
  obtain ⟨f, hf⟩ := Int.eq_ofNat_of_zero_le (show 0 ≤ e + 149 by omega)
  rw [hf, Int.toNat_natCast] at hpattern
  by_cases hsmall : m < 8388608
  · -- Below the normal numbers the exponent is the least one.
    obtain rfl : e = -149 := by omega
    have hzero : f = 0 := by omega
    have hmagnitude : (if m = 0 then 0 else f * 8388608 + m) = m := by
      split_ifs <;> omega
    have hnumber := number_ofNumber negative 0 m (by decide) hsmall (by
      rw [hpattern, hmagnitude]
      omega)
    exact ⟨m, -149, by rw [hnumber, if_pos rfl], rfl⟩
  have hpos : m ≠ 0 := by omega
  rw [if_neg hpos] at hpattern
  rcases hmantissa.lt_or_eq with hlt | rfl
  · have hlog : m.log2 = 23 := by
      rw [Nat.log2_eq_iff hpos]
      omega
    have hnumber := number_ofNumber negative (f + 1) (m - 8388608) (by omega) (by omega)
      (hpattern.trans (by omega))
    refine ⟨m, e, ?_, rfl⟩
    rw [hnumber, if_neg (by omega)]
    congr 1 <;> omega
  · -- The carry is the next power of two, in the next exponent.
    rw [show (16777216 : Nat).log2 = 24 by decide +kernel] at htop
    have hnumber := number_ofNumber negative (f + 2) 0 (by omega) (by omega)
      (hpattern.trans (by omega))
    refine ⟨8388608, e + 1, ?_, ?_⟩
    · rw [hnumber, if_neg (by omega)]
      congr 1
      omega
    · rw [zpow_add₀ two_ne_zero]
      push_cast
      ring

theorem is_nearest (negative : Bool) {n d : Nat} {e : Int} (hn : 0 < n) (hd : 0 < d)
    (htop : single.ulp (n / d * 2 ^ e) + (single.mantissa n d e).log2 < 128) :
    (ofNumber (single.nearest negative n d e)).number.Is negative
      (single.mantissa n d e * 2 ^ single.ulp (n / d * 2 ^ e)) := by
  have hrounded := BinaryFormat.rounded_mantissa (F := single) (by decide) hn hd htop
  rw [single.nearest_of_pos negative hn hd,
    if_neg (show ¬(single.digits : Int) + single.top ≤ _ from not_le.2 htop)]
  exact is_ofNumber negative hrounded

/-- An integer of at most 24 bits, scaled within the range, is a number of the format. -/
theorem is_nearest_exact (negative : Bool) {n : Nat} {e : Int} (hn : n < 2 ^ 24)
    (hlow : -149 ≤ e) (hhigh : e ≤ 104) :
    (ofNumber (single.nearest negative n 1 e)).number.Is negative (n * 2 ^ e) := by
  rcases Nat.eq_zero_or_pos n with rfl | hpos
  · rw [BinaryFormat.nearest_zero]
    have hzero := is_ofNumber negative (m := 0) (e := single.bottom)
      ⟨by decide, by decide, .inl rfl, by decide +kernel⟩
    simpa using hzero
  have hlog : Int.log 2 ((n : ℚ) / (1 : Nat) * 2 ^ e) = n.log2 + e := by
    rw [log_mul_zpow (by positivity), Nat.cast_one, div_one, Int.log_natCast,
      Nat.log2_eq_log_two]
  have hbits : n.log2 < 24 := (Nat.log2_lt hpos.ne').2 hn
  set k := single.ulp ((n : ℚ) / (1 : Nat) * 2 ^ e) with hk
  -- The last bit of the value is no lower than the last bit that is kept.
  have hkept : k ≤ e := by
    rw [hk, BinaryFormat.ulp, hlog]
    simp only [single]
    omega
  obtain ⟨j, hj⟩ := Int.eq_ofNat_of_zero_le (show 0 ≤ e - k by omega)
  have hvalue : (n : ℚ) / (1 : Nat) * 2 ^ e = (n * 2 ^ j : Nat) * 2 ^ k := by
    rw [show e = j + k by omega, zpow_add₀ two_ne_zero, zpow_natCast]
    push_cast
    ring
  have hmantissa := BinaryFormat.mantissa_of_multiple (F := single) one_pos hvalue
  have htop : k + (single.mantissa n 1 e).log2 < 128 := by
    rw [hmantissa, log2_mul_two_pow hpos]
    push_cast
    omega
  have his := is_nearest negative hpos one_pos htop
  rw [hmantissa, ← hk, ← hvalue] at his
  simpa using his

theorem is_ofScaled {v : Int} {e : Int} (hv : v.natAbs < 2 ^ 24) (hlow : -149 ≤ e)
    (hhigh : e ≤ 104) : (ofScaled v e).number.Is (decide (v < 0)) (v.natAbs * 2 ^ e) :=
  is_nearest_exact _ hv hlow hhigh

/-- A product is rounded by the product of the values. -/
theorem mul_eq_ofNumber {x y : Binary32} {s t : Bool} {p q : ℚ} {n : Nat} {e : Int}
    (hx : x.number.Is s p) (hy : y.number.Is t q) (h : p * q = n * 2 ^ e) :
    x * y = ofNumber (single.nearest (s != t) n 1 e) := by
  obtain ⟨m, f, hxn, rfl⟩ := hx
  obtain ⟨m', f', hyn, rfl⟩ := hy
  have hmul : x * y = ofNumber (single.nearest (s != t) (m * m') 1 (f + f')) := by
    show ofNumber (single.mul x.number y.number) = _
    rw [hxn, hyn]
    rfl
  have hvalue : ((m * m' : Nat) : ℚ) / (1 : Nat) * 2 ^ (f + f') = n / (1 : Nat) * 2 ^ e := by
    rw [zpow_add₀ two_ne_zero]
    push_cast
    linarith
  rw [hmul]
  rcases Nat.eq_zero_or_pos n with rfl | hn
  · have hnone : m * m' = 0 := by
      rw [Nat.cast_zero, zero_div, zero_mul, Nat.cast_one, div_one] at hvalue
      exact_mod_cast (mul_eq_zero_iff_right (by positivity)).1 hvalue
    rw [hnone, BinaryFormat.nearest_zero, BinaryFormat.nearest_zero]
  · have hpos : 0 < m * m' := by
      refine Nat.pos_of_ne_zero fun hnone => ?_
      rw [hnone, Nat.cast_zero, zero_div, zero_mul] at hvalue
      exact (show (0 : ℚ) < n / (1 : Nat) * 2 ^ e by positivity).ne hvalue
    rw [BinaryFormat.nearest_congr _ hpos one_pos hn one_pos hvalue]

end Binary32

end PcmConversion
