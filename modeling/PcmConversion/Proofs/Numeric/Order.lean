import PcmConversion.Proofs.Numeric.Rounding
import Mathlib.Algebra.Order.Floor.Semiring
import Mathlib.Algebra.Order.Monoid.WithTop

/-!
# The order of numbers

Numbers are compared by their size: a rational, or `⊤` for what is beyond the range.  Rounding and
products with a fixed number keep this order (`size_nearest_mono`, `size_mul_mono`).  A negative or
undefined number has size zero, as it is counted when it is cut to a natural number.
-/

namespace PcmConversion

/-- How large a number is, seen as a count. -/
def Number.size : Number → WithTop ℚ
  | .finite false m e => ((m * 2 ^ e : ℚ) : WithTop ℚ)
  | .infinite false => ⊤
  | _ => 0

/-- The sign of a number; an undefined one has none. -/
def Number.negative : Number → Bool
  | .finite negative _ _ => negative
  | .infinite negative => negative
  | .nan => false

@[simp] theorem Number.size_finite (m : Nat) (e : Int) :
    (Number.finite false m e).size = ((m * 2 ^ e : ℚ) : WithTop ℚ) := rfl

@[simp] theorem Number.size_infinite : (Number.infinite false).size = ⊤ := rfl

theorem Number.size_nonneg (v : Number) : 0 ≤ v.size := by
  rcases v with ⟨_ | _, m, e⟩ | ⟨_ | _⟩ | _
  · exact WithTop.coe_le_coe.2 (show (0 : ℚ) ≤ m * 2 ^ e by positivity)
  all_goals simp [size]

theorem Number.eq_infinite_of_size_eq_top {v : Number} (h : v.size = ⊤) : v = .infinite false := by
  rcases v with ⟨_ | _, m, e⟩ | ⟨_ | _⟩ | _
  · exact absurd h WithTop.coe_ne_top
  · exact absurd h WithTop.zero_ne_top
  · rfl
  · exact absurd h WithTop.zero_ne_top
  · exact absurd h WithTop.zero_ne_top

/-- A number that is larger than zero is finite or infinite, and not negative. -/
theorem Number.cases_of_size_pos {v : Number} (h : 0 < v.size) :
    (∃ m e, v = .finite false m e) ∨ v = .infinite false := by
  rcases v with ⟨_ | _, m, e⟩ | ⟨_ | _⟩ | _
  · exact .inl ⟨m, e, rfl⟩
  · exact absurd h (lt_irrefl _)
  · exact .inr rfl
  · exact absurd h (lt_irrefl _)
  · exact absurd h (lt_irrefl _)

theorem Number.size_of_negative {v : Number} (h : v.negative = true) : v.size = 0 := by
  rcases v with ⟨_ | _, m, e⟩ | ⟨_ | _⟩ | _
  · cases h
  · rfl
  · cases h
  · rfl
  · rfl

namespace BinaryFormat

variable {F : BinaryFormat} {n d n' d' : Nat} {e e' : Int}

theorem negative_nearest (F : BinaryFormat) (negative : Bool) (n d : Nat) (e : Int) :
    (F.nearest negative n d e).negative = negative := by
  unfold nearest
  simp only
  split_ifs <;> rfl

theorem nearest_zero (negative : Bool) :
    F.nearest negative 0 d e = .finite negative 0 F.bottom := by
  unfold nearest
  exact if_pos rfl

/-- The exponent of the first significant bit of a rounded value, in the order of the values. -/
theorem exponent_mono (hdigits : 0 < F.digits) (hn : 0 < n) (hd : 0 < d) (hn' : 0 < n')
    (hd' : 0 < d') (h : (n : ℚ) / d * 2 ^ e ≤ n' / d' * 2 ^ e') :
    F.ulp (n / d * 2 ^ e) + (F.mantissa n d e).log2 ≤
      F.ulp (n' / d' * 2 ^ e') + (F.mantissa n' d' e').log2 := by
  have hv : (0 : ℚ) < n / d * 2 ^ e := by positivity
  have hulp := ulp_mono (F := F) hv h
  have hvalue := mantissa_mono hdigits hn hd hn' hd' h
  generalize F.ulp (n / d * 2 ^ e) = k at hulp hvalue ⊢
  generalize F.ulp (n' / d' * 2 ^ e') = k' at hulp hvalue ⊢
  -- A mantissa that is not zero has its first bit at the logarithm of the rounded value.
  rcases Nat.eq_zero_or_pos (F.mantissa n d e) with hzero | hpos
  · rw [hzero, Nat.log2_zero]
    omega
  · have hpos' : 0 < F.mantissa n' d' e' := by
      by_contra hnone
      rw [Nat.eq_zero_of_not_pos hnone, Nat.cast_zero, zero_mul] at hvalue
      have : (0 : ℚ) < F.mantissa n d e * 2 ^ k := by positivity
      linarith
    have hlog := Int.log_mono_right (b := 2) (by positivity) hvalue
    rw [log_mul_zpow (by positivity), log_mul_zpow (by positivity), Int.log_natCast,
      Int.log_natCast, ← Nat.log2_eq_log_two, ← Nat.log2_eq_log_two] at hlog
    omega

theorem size_nearest_mono (hdigits : 0 < F.digits) (hd : 0 < d) (hd' : 0 < d')
    (h : (n : ℚ) / d * 2 ^ e ≤ n' / d' * 2 ^ e') :
    (F.nearest false n d e).size ≤ (F.nearest false n' d' e').size := by
  rcases Nat.eq_zero_or_pos n with rfl | hn
  · rw [nearest_zero]
    simpa using Number.size_nonneg _
  have hn' : 0 < n' := by
    by_contra hnone
    rw [Nat.eq_zero_of_not_pos hnone, Nat.cast_zero, zero_div, zero_mul] at h
    have : (0 : ℚ) < n / d * 2 ^ e := by positivity
    linarith
  rw [F.nearest_of_pos false hn hd, F.nearest_of_pos false hn' hd']
  have hexponent := exponent_mono hdigits hn hd hn' hd' h
  -- Only the larger value can be the one that is beyond the range.
  split_ifs with hout hout'
  · exact le_rfl
  · omega
  · exact le_top
  · exact WithTop.coe_le_coe.2 (mantissa_mono hdigits hn hd hn' hd' h)

/-- What lies above the smallest numbers of a format is not rounded to zero. -/
theorem size_nearest_pos {n d : Nat} {e : Int} (hdigits : 0 < F.digits) (hn : 0 < n) (hd : 0 < d)
    (hbottom : F.bottom < F.ulp (n / d * 2 ^ e)) : 0 < (F.nearest false n d e).size := by
  rw [F.nearest_of_pos false hn hd]
  split_ifs
  · exact WithTop.coe_lt_top _
  · have hmantissa : 0 < F.mantissa n d e :=
      (Nat.two_pow_pos _).trans_le (le_mantissa hdigits hn hd hbottom)
    exact WithTop.coe_lt_coe.2 (by positivity)

theorem size_ofNat_mono (hdigits : 0 < F.digits) {m n : Nat} (h : m ≤ n) :
    (F.ofNat m).size ≤ (F.ofNat n).size := by
  refine size_nearest_mono hdigits one_pos one_pos ?_
  simpa using h

/-! ## Products -/

theorem size_mul_of_negative {v x : Number} (hv : v.negative = false) (hx : x.negative = true) :
    (F.mul v x).size = 0 := by
  rcases x with ⟨t, n, f⟩ | ⟨t⟩ | _
  · obtain rfl : t = true := hx
    rcases v with ⟨s, m, e⟩ | ⟨s⟩ | _
    · obtain rfl : s = false := hv
      exact Number.size_of_negative (negative_nearest ..)
    · obtain rfl : s = false := hv
      simp only [mul]
      split_ifs <;> rfl
    · rfl
  · obtain rfl : t = true := hx
    rcases v with ⟨s, m, e⟩ | ⟨s⟩ | _
    · obtain rfl : s = false := hv
      simp only [mul]
      split_ifs <;> rfl
    · obtain rfl : s = false := hv
      rfl
    · rfl
  · exact absurd hx (by simp [Number.negative])

theorem size_mul_of_size_eq_zero {v x : Number} (hv : v.negative = false) (hsize : v.size = 0) :
    (F.mul v x).size = 0 := by
  rcases v with ⟨s, m, e⟩ | ⟨s⟩ | _
  · obtain rfl : s = false := hv
    have hm : m = 0 := by
      have hvalue : (m : ℚ) * 2 ^ e = 0 := WithTop.coe_eq_zero.1 hsize
      exact_mod_cast (mul_eq_zero_iff_right (by positivity)).1 hvalue
    subst hm
    rcases x with ⟨t, n, f⟩ | ⟨t⟩ | _
    · simp only [mul, Nat.zero_mul, nearest_zero]
      cases t <;> simp [Number.size]
    · rfl
    · rfl
  · obtain rfl : s = false := hv
    exact absurd hsize (by simp)
  · rcases x with ⟨t, n, f⟩ | ⟨t⟩ | _ <;> rfl

theorem mul_infinite {w : Number} (hpos : 0 < w.size) :
    F.mul w (.infinite false) = .infinite false := by
  rcases Number.cases_of_size_pos hpos with ⟨m, e, rfl⟩ | rfl
  · have hm : m ≠ 0 := by
      rintro rfl
      simp at hpos
    simp only [mul, if_neg hm, bne_self_eq_false]
  · rfl

/-- The order of products with a finite number is that of the exact products, before they are
rounded. -/
theorem size_mul_finite_mono (hdigits : 0 < F.digits) {m m' : Nat} (n : Nat) (f : Int)
    (h : (m : ℚ) * 2 ^ e ≤ m' * 2 ^ e') :
    (F.mul (.finite false m e) (.finite false n f)).size ≤
      (F.mul (.finite false m' e') (.finite false n f)).size := by
  refine size_nearest_mono hdigits one_pos one_pos ?_
  rw [zpow_add₀ two_ne_zero, zpow_add₀ two_ne_zero]
  push_cast
  calc (m : ℚ) * n / 1 * (2 ^ e * 2 ^ f) = m * 2 ^ e * (n * 2 ^ f) := by ring
    _ ≤ m' * 2 ^ e' * (n * 2 ^ f) := by gcongr
    _ = m' * n / 1 * (2 ^ e' * 2 ^ f) := by ring

theorem size_mul_le_infinite (m n : Nat) (e f : Int) :
    (F.mul (.finite false m e) (.finite false n f)).size ≤
      (F.mul (.infinite false) (.finite false n f)).size := by
  by_cases hn : n = 0
  · -- An infinite number times zero is undefined, and counts as zero.
    subst hn
    simp only [mul, Nat.mul_zero, nearest_zero]
    simp [Number.size]
  · simp only [mul, if_neg hn]
    exact le_top

/-- Products with a fixed number keep the order; those with a negative one all have size zero. -/
theorem size_mul_mono (hdigits : 0 < F.digits) {v w : Number} (x : Number)
    (hv : v.negative = false) (hw : w.negative = false) (h : v.size ≤ w.size) :
    (F.mul v x).size ≤ (F.mul w x).size := by
  by_cases hx : x.negative = true
  · rw [size_mul_of_negative hv hx, size_mul_of_negative hw hx]
  by_cases hzero : v.size = 0
  · rw [size_mul_of_size_eq_zero hv hzero]
    exact Number.size_nonneg _
  have hvpos : 0 < v.size := lt_of_le_of_ne v.size_nonneg (Ne.symm hzero)
  have hwpos : 0 < w.size := lt_of_lt_of_le hvpos h
  rcases x with ⟨t, n, f⟩ | ⟨t⟩ | _
  · obtain rfl : t = false := by simpa [Number.negative] using hx
    rcases Number.cases_of_size_pos hvpos with ⟨m, e, rfl⟩ | rfl
    · rcases Number.cases_of_size_pos hwpos with ⟨m', e', rfl⟩ | rfl
      · exact size_mul_finite_mono hdigits n f (WithTop.coe_le_coe.1 h)
      · exact size_mul_le_infinite m n e f
    · obtain rfl : w = .infinite false := Number.eq_infinite_of_size_eq_top (top_le_iff.1 h)
      exact le_rfl
  · obtain rfl : t = false := by simpa [Number.negative] using hx
    rw [mul_infinite hvpos, mul_infinite hwpos]
  · rcases v with ⟨s, m, e⟩ | ⟨s⟩ | _ <;> exact Number.size_nonneg _

end BinaryFormat

/-! ## Counts -/

theorem divCeil_eq_ceil {a b : Nat} (hb : 0 < b) : divCeil a b = ⌈(a : ℚ) / b⌉₊ := by
  refine eq_of_forall_ge_iff fun q => ?_
  rw [divCeil_le_iff hb, Nat.ceil_le, div_le_iff₀ (by exact_mod_cast hb)]
  exact_mod_cast Iff.rfl

theorem Number.one_le_clamp {v : Number} {high : Int} (hv : 0 < v.size) (hhigh : 1 ≤ high) :
    1 ≤ v.clamp divCeil 0 high := by
  rcases cases_of_size_pos hv with ⟨m, e, rfl⟩ | rfl
  · have hm : 0 < m := by
      refine Nat.pos_of_ne_zero ?_
      rintro rfl
      simp at hv
    have hnumerator : 0 < (scaleFraction m 1 e).1 := by
      simp only [scaleFraction, Nat.shiftLeft_eq]
      positivity
    have hceil : ¬divCeil (scaleFraction m 1 e).1 (scaleFraction m 1 e).2 ≤ 0 := by
      rw [divCeil_le_iff (scaleFraction_pos one_pos e)]
      omega
    simp only [clamp, Bool.false_eq_true, if_false]
    omega
  · exact hhigh

end PcmConversion
