import PcmConversion.Proofs.Numeric.Nearest
import Mathlib.Order.WithBotTop

/-!
# Where a number lies

`Number.level` places a number among the rationals, an infinite one at either end and an undefined one
nowhere, so that the comparison of floats is the order of their levels.  What is stored of a rounded
value lies where `BinaryFormat.round` puts it (`at_nearest`), and rounding it on to an integer within
limits does not need to know whether the range was exceeded (`clamp_nearest`).
-/

namespace PcmConversion

/-- A magnitude with a sign. -/
def signed (negative : Bool) (q : ℚ) : ℚ :=
  if negative then -q else q

theorem signed_mul (negative : Bool) (p q : ℚ) : signed negative p * q = signed negative (p * q) := by
  cases negative <;> simp [signed]

theorem round_signed (F : BinaryFormat) (negative : Bool) (q : ℚ) :
    F.round (signed negative q) = signed negative (F.round q) := by
  cases negative <;> simp [signed, F.round_neg]

theorem signed_natAbs (v : Int) (q : ℚ) : signed (decide (v < 0)) (v.natAbs * q) = v * q := by
  rw [Nat.cast_natAbs, Int.cast_abs]
  rcases lt_or_ge v 0 with hneg | hnonneg
  · simp [signed, hneg, abs_of_neg (show (v : ℚ) < 0 by exact_mod_cast hneg)]
  · simp [signed, not_lt.2 hnonneg, abs_of_nonneg (show (0 : ℚ) ≤ v by exact_mod_cast hnonneg)]

namespace Number

/-- The place of a number among the rationals and the two infinities. -/
def level : Number → Option (WithBotTop ℚ)
  | .finite negative m e => some (signed negative (m * 2 ^ e) : ℚ)
  | .infinite negative => some (if negative then ⊥ else ⊤)
  | .nan => none

/-- The number lies at a rational. -/
def At (v : Number) (q : ℚ) : Prop :=
  v.level = some q

theorem Is.at {v : Number} {negative : Bool} {q : ℚ} (h : v.Is negative q) :
    v.At (signed negative q) := by
  obtain ⟨m, e, rfl, rfl⟩ := h
  rfl

theorem At.exists_finite {v : Number} {q : ℚ} (h : v.At q) :
    ∃ negative m e, v = .finite negative m e ∧ signed negative (m * 2 ^ e) = q := by
  rcases v with ⟨negative, m, e⟩ | ⟨_ | _⟩ | _
  · exact ⟨negative, m, e, rfl, WithBotTop.coe_injective (Option.some.inj h)⟩
  · exact absurd (Option.some.inj h).symm (WithBotTop.coe_ne_top q)
  · exact absurd (Option.some.inj h).symm (WithBotTop.coe_ne_bot q)
  · cases h

theorem cases_of_level {v : Number} {a : WithBotTop ℚ} (h : v.level = some a) :
    (v = .infinite true ∧ a = ⊥) ∨ (v = .infinite false ∧ a = ⊤) ∨ ∃ q : ℚ, a = q := by
  rcases v with ⟨negative, m, e⟩ | ⟨_ | _⟩ | _ <;> cases h
  · exact .inr (.inr ⟨_, rfl⟩)
  · exact .inr (.inl ⟨rfl, rfl⟩)
  · exact .inl ⟨rfl, rfl⟩

theorem eq_infinite_of_level_eq_top {v : Number} (h : v.level = some ⊤) : v = .infinite false := by
  rcases cases_of_level h with ⟨-, hbot⟩ | ⟨hinfinite, -⟩ | ⟨q, hq⟩
  · exact absurd hbot WithBotTop.top_ne_bot
  · exact hinfinite
  · exact absurd hq.symm (WithBotTop.coe_ne_top q)

/-- To an integer within limits a number is rounded by where it lies. -/
theorem At.clamp {v : Number} {q : ℚ} (h : v.At q) (low high : Int) :
    v.clamp divEven low high = max low (min high (nearestEven q)) := by
  obtain ⟨negative, m, e, rfl, rfl⟩ := h.exists_finite
  have hnonneg : (0 : ℚ) ≤ m * 2 ^ e := by positivity
  have his : (Number.finite negative m e).Is negative
      (((m * 2 ^ e : ℚ).num.natAbs : ℚ) / (m * 2 ^ e : ℚ).den) :=
    ⟨m, e, rfl, (natAbs_num_div_den hnonneg).symm⟩
  rw [his.clamp (Rat.den_pos _), ← nearestEven_of_nonneg hnonneg]
  cases negative
  · rfl
  · simp only [signed, if_true, nearestEven_neg]

end Number

/-! ## Stored results -/

namespace BinaryFormat

variable {F : BinaryFormat}

/-- A value is beyond the range when what it is rounded to is. -/
theorem beyond_iff (hdigits : 0 < F.digits) (hbottom : F.bottom < F.digits + F.top) {n d : Nat}
    (hn : 0 < n) (hd : 0 < d) (e : Int) :
    F.digits + F.top ≤ F.ulp (n / d * 2 ^ e) + (F.mantissa n d e).log2 ↔
      (2 : ℚ) ^ (F.digits + F.top) ≤ F.round (n / d * 2 ^ e) := by
  have hvalue := F.mantissa_mul_ulp n hd e
  rcases Nat.eq_zero_or_pos (F.mantissa n d e) with hzero | hpos
  · -- Only at the lower end of the range a mantissa can be zero.
    have hleast : ¬F.bottom < F.ulp (n / d * 2 ^ e) := fun hlt => by
      have hhalf := le_mantissa hdigits hn hd hlt
      rw [hzero] at hhalf
      exact absurd hhalf (not_le.2 (Nat.two_pow_pos _))
    rw [hzero, Nat.cast_zero, zero_mul] at hvalue
    rw [← hvalue, hzero, Nat.log2_zero]
    have hpower : (0 : ℚ) < 2 ^ (F.digits + F.top) := by positivity
    constructor
    · intro hle
      omega
    · intro hle
      exact absurd hle (not_le.2 hpower)
  · have hvaluePos : (0 : ℚ) < F.mantissa n d e * 2 ^ F.ulp (n / d * 2 ^ e) := by positivity
    have hreached := Int.zpow_le_iff_le_log (b := 2) (x := F.digits + F.top) one_lt_two hvaluePos
    rw [log_mul_zpow (by positivity), Int.log_natCast, ← Nat.log2_eq_log_two, Nat.cast_ofNat]
      at hreached
    rw [← hvalue, hreached, add_comm (Nat.log2 _ : Int)]

end BinaryFormat

namespace Binary32

open BinaryFormat (single)

/-- The magnitude of a float: at most 24 bits, and no less than the smallest one. -/
theorem bounds_of_number {x : Binary32} {negative : Bool} {m : Nat} {e : Int}
    (h : x.number = .finite negative m e) : m < 2 ^ 24 ∧ -149 ≤ e := by
  rw [number, BinaryFormat.ofPattern] at h
  simp only [show (1 : Nat) <<< (single.digits - 1) = 8388608 by decide] at h
  have hfraction := Nat.mod_lt x.bits.toNat (show 0 < 8388608 by decide)
  split_ifs at h with hend hzero hbottom
  · simp only [Number.finite.injEq] at h
    simp only [single] at h
    omega
  · simp only [Number.finite.injEq] at h
    simp only [single] at h hbottom
    omega

/-- A float as a multiple of a power of two. -/
theorem exists_multiple {x : Binary32} {v : ℚ} (hx : x.number.At v) :
    ∃ m e : Int, |m| < 2 ^ 24 ∧ -149 ≤ e ∧ v = m * 2 ^ e := by
  obtain ⟨negative, m, e, hfinite, rfl⟩ := hx.exists_finite
  obtain ⟨hm, he⟩ := bounds_of_number hfinite
  cases negative
  · exact ⟨m, e, by rw [abs_lt]; omega, he, by simp [signed]⟩
  · exact ⟨-m, e, by rw [abs_lt]; omega, he, by simp [signed]⟩

theorem number_infinite (negative : Bool) :
    (ofNumber (.infinite negative)).number = .infinite negative := by
  cases negative <;> decide +kernel

theorem nearest_cases (negative : Bool) (n : Nat) (e : Int) :
    (ofNumber (single.nearest negative n 1 e)).number.Is negative (single.round (n * 2 ^ e)) ∨
      (2 : ℚ) ^ 128 ≤ single.round (n * 2 ^ e) ∧
        (ofNumber (single.nearest negative n 1 e)).number = .infinite negative := by
  rcases Nat.eq_zero_or_pos n with rfl | hn
  · left
    have hzero := is_nearest_exact negative (n := 0) (e := 0) (by decide) (by decide) (by decide)
    rw [BinaryFormat.nearest_zero] at hzero ⊢
    simpa [BinaryFormat.round_zero] using hzero
  have hone : (n : ℚ) / (1 : Nat) * 2 ^ e = n * 2 ^ e := by simp
  have hbeyond := BinaryFormat.beyond_iff (F := single) (by decide) (by decide) hn one_pos e
  rw [hone] at hbeyond
  by_cases htop : (single.digits : Int) + single.top ≤
      single.ulp (n * 2 ^ e) + (single.mantissa n 1 e).log2
  · right
    refine ⟨hbeyond.1 htop, ?_⟩
    rw [single.nearest_of_pos negative hn one_pos, hone, if_pos htop, number_infinite]
  · left
    have his := is_nearest negative hn one_pos (e := e) (by
      rw [hone]
      exact not_le.1 htop)
    rwa [BinaryFormat.mantissa_mul_ulp single n one_pos e, hone] at his

/-- What is stored of a rounded value lies where the value is rounded to. -/
theorem at_nearest (negative : Bool) {n : Nat} {e : Int}
    (hrange : single.round (n * 2 ^ e) < 2 ^ 128) :
    (ofNumber (single.nearest negative n 1 e)).number.At
      (single.round (signed negative (n * 2 ^ e))) := by
  rw [round_signed]
  rcases nearest_cases negative n e with his | ⟨hbeyond, -⟩
  · exact his.at
  · exact absurd hrange (not_lt.2 hbeyond)

/-- To an integer within limits that the format exceeds, a value is rounded twice, wherever it
lies. -/
theorem clamp_nearest (negative : Bool) (n : Nat) (e : Int) {low high : Int}
    (hlow : -2 ^ 128 ≤ low) (hordered : low ≤ high) (hhigh : high ≤ 2 ^ 128) :
    (ofNumber (single.nearest negative n 1 e)).number.clamp divEven low high =
      max low (min high (nearestEven (single.round (signed negative (n * 2 ^ e))))) := by
  rw [round_signed]
  rcases nearest_cases negative n e with his | ⟨hbeyond, hinfinite⟩
  · exact his.at.clamp low high
  have hlarge : (2 : Int) ^ 128 ≤ nearestEven (single.round (n * 2 ^ e)) := by
    have hmono := nearestEven_mono hbeyond
    rwa [show (2 : ℚ) ^ 128 = ((2 ^ 128 : Int) : ℚ) by norm_num, nearestEven_intCast] at hmono
  rw [hinfinite]
  cases negative
  · simp only [Number.clamp, signed, Bool.false_eq_true, if_false]
    omega
  · simp only [Number.clamp, signed, if_true, nearestEven_neg]
    omega

end Binary32

end PcmConversion
