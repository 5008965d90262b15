import PcmConversion.Proofs.Numeric.Level
import PcmConversion.Proofs.Sample.Values

/-!
# Quantising

A float is quantised by rounding its product with the gain twice, to 24 significant bits and to an
integer, and holding the result in range (`apply_eq_round`); each of these keeps the order.  At the
ends of the range one float each decides: what lies above `1` is quantised to no less than it, and
what lies below `-1` to no more than the float next to `-1`.  In between the two roundings are at
most one step off, with the gain of 24 bits one and a half (`medium_error`), and cutting low bits off
stays within one step.
-/

namespace PcmConversion

open BinaryFormat (single)

/-! ## One width -/

namespace Quantiser

variable {q : Quantiser} {x y : Binary32}

/-- The gain is a number of the format, the limits lie on either side of zero within its range, and
they are what `1` and the float below `-1` are quantised to. -/
structure Sound (q : Quantiser) : Prop where
  gain : ∃ m e, m ≠ 0 ∧ (Binary32.ofScaled q.gain 0).number = .finite false m e ∧
    (m : ℚ) * 2 ^ e = q.gain
  low : -2 ^ 128 ≤ q.lowest ∧ q.lowest ≤ 0
  high : 0 ≤ q.highest ∧ q.highest ≤ 2 ^ 128
  top : q.apply ⟨0x3f800000⟩ = q.highest
  bottom : q.apply ⟨0xbf800001⟩ = q.lowest

theorem wide_sound : wide.Sound where
  gain := ⟨8388608, 8, by decide, by decide +kernel, by norm_num [wide]⟩
  low := by decide
  high := by decide
  top := by decide +kernel
  bottom := by decide +kernel

theorem medium_sound : medium.Sound where
  gain := ⟨16777214, -1, by decide, by decide +kernel, by norm_num [medium]⟩
  low := by decide
  high := by decide
  top := by decide +kernel
  bottom := by decide +kernel

theorem apply_eq_round (hq : q.Sound) {v : ℚ} (hx : x.number.At v) :
    q.apply x = max q.lowest (min q.highest (nearestEven (single.round (v * q.gain)))) := by
  obtain ⟨m, e, -, hnumber, hgain⟩ := hq.gain
  obtain ⟨negative, n, f, hfinite, rfl⟩ := hx.exists_finite
  have hproduct := Binary32.mul_eq_ofNumber (n := n * m) (e := f + e) ⟨n, f, hfinite, rfl⟩
    ⟨m, e, hnumber, rfl⟩ (by
      rw [zpow_add₀ two_ne_zero]
      push_cast
      ring)
  have hvalue : signed negative ((n : ℚ) * 2 ^ f) * q.gain =
      signed negative ((n * m : Nat) * 2 ^ (f + e)) := by
    rw [signed_mul, ← hgain, zpow_add₀ two_ne_zero]
    push_cast
    ring_nf
  rw [apply, hproduct, Bool.bne_false, hvalue]
  exact Binary32.clamp_nearest _ _ _ hq.low.1 (hq.low.2.trans hq.high.1) hq.high.2

theorem apply_infinite (hq : q.Sound) {negative : Bool} (hx : x.number = .infinite negative) :
    q.apply x = if negative then q.lowest else q.highest := by
  obtain ⟨m, e, hm, hnumber, -⟩ := hq.gain
  have hproduct : x * Binary32.ofScaled q.gain 0 = Binary32.ofNumber (.infinite negative) := by
    show Binary32.ofNumber (single.mul x.number (Binary32.ofScaled q.gain 0).number) = _
    rw [hx, hnumber, BinaryFormat.mul, if_neg hm, Bool.bne_false]
  rw [apply, hproduct, Binary32.number_infinite, Number.clamp]

theorem apply_nan (hx : x.number = .nan) : q.apply x = 0 := by
  have hproduct : x * Binary32.ofScaled q.gain 0 = Binary32.ofNumber .nan := by
    show Binary32.ofNumber (single.mul x.number (Binary32.ofScaled q.gain 0).number) = _
    rw [hx, BinaryFormat.mul]
  rw [apply, hproduct, show (Binary32.ofNumber .nan).number = .nan by decide +kernel, Number.clamp]

/-! ### Order -/

/-- Floats in order are quantised in order. -/
theorem apply_mono (hq : q.Sound) {a b : WithBotTop ℚ} (hx : x.number.level = some a)
    (hy : y.number.level = some b) (h : a ≤ b) : q.apply x ≤ q.apply y := by
  have hleast := (q.apply_mem y hq.low.2 hq.high.1).1
  have hmost := (q.apply_mem x hq.low.2 hq.high.1).2
  rcases Number.cases_of_level hx with ⟨hinfinite, -⟩ | ⟨-, rfl⟩ | ⟨v, rfl⟩
  · rwa [apply_infinite hq hinfinite, if_pos rfl]
  · obtain rfl : b = ⊤ := top_le_iff.1 h
    rwa [apply_infinite hq (Number.eq_infinite_of_level_eq_top hy)]
  · rcases Number.cases_of_level hy with ⟨-, rfl⟩ | ⟨hinfinite, -⟩ | ⟨w, rfl⟩
    · exact absurd (le_bot_iff.1 h) (WithBotTop.coe_ne_bot v)
    · rwa [apply_infinite hq hinfinite]
    · have hle : v ≤ w := WithBotTop.coe_le_coe.1 h
      have hgain : (0 : ℚ) ≤ q.gain := by
        obtain ⟨m, e, -, -, hgain⟩ := hq.gain
        rw [← hgain]
        positivity
      have hrounded : single.round (v * q.gain) ≤ single.round (w * q.gain) :=
        BinaryFormat.round_mono (by decide) (by gcongr)
      rw [apply_eq_round hq hx, apply_eq_round hq hy]
      exact max_le_max_left _ (min_le_min_left _ (nearestEven_mono hrounded))

/-! ### Ends of the range -/

theorem apply_of_one_le (hq : q.Sound) {a : WithBotTop ℚ} (hx : x.number.level = some a)
    (h : (1 : ℚ) ≤ a) : q.apply x = q.highest := by
  have hone : Number.At (Binary32.mk 0x3f800000).number 1 := by
    rw [show (Binary32.mk 0x3f800000).number = .finite false 8388608 (-23) by decide +kernel]
    norm_num [Number.At, Number.level, signed]
  have hmono := apply_mono hq hone hx h
  rw [hq.top] at hmono
  exact le_antisymm (q.apply_mem x hq.low.2 hq.high.1).2 hmono

/-- Below `-1` there is a float next to it. -/
theorem le_of_lt_neg_one {v : ℚ} (hx : x.number.At v) (h : v < -1) :
    v ≤ -(8388609 * 2 ^ (-23 : Int)) := by
  obtain ⟨m, e, hm, -, rfl⟩ := Binary32.exists_multiple hx
  rcases lt_or_ge e (-23) with hsmall | hlarge
  · have hpower : (2 : ℚ) ^ e ≤ 2 ^ (-24 : Int) := zpow_le_zpow_right₀ one_le_two (by omega)
    have hless : -(2 ^ 24 : ℚ) ≤ m := by exact_mod_cast (abs_lt.1 hm).1.le
    have hleast : -(2 ^ 24 : ℚ) * 2 ^ (-24 : Int) ≤ m * 2 ^ e := by
      calc -(2 ^ 24 : ℚ) * 2 ^ (-24 : Int) ≤ -(2 ^ 24 : ℚ) * 2 ^ e := by linarith
        _ ≤ m * 2 ^ e := by gcongr
    norm_num at hleast
    linarith
  · -- What lies below `-1` in steps of `2^-23` is at least one step below.
    obtain ⟨k, rfl⟩ : ∃ k : Nat, e = k + -23 := ⟨(e + 23).toNat, by omega⟩
    rw [zpow_add₀ two_ne_zero, zpow_natCast, ← mul_assoc] at h ⊢
    have hmore : (m : ℚ) * 2 ^ k < -8388608 := by
      norm_num at h ⊢
      linarith
    have hwhole : m * 2 ^ k < -8388608 := by exact_mod_cast hmore
    have hnext : (m : ℚ) * 2 ^ k ≤ -8388609 := by
      exact_mod_cast (show m * 2 ^ k ≤ -8388609 by omega)
    rw [← neg_mul]
    gcongr

theorem apply_of_lt_neg_one (hq : q.Sound) {a : WithBotTop ℚ} (hx : x.number.level = some a)
    (h : a < (-1 : ℚ)) : q.apply x = q.lowest := by
  have hnext : Number.At (Binary32.mk 0xbf800001).number (-(8388609 * 2 ^ (-23 : Int))) := by
    rw [show (Binary32.mk 0xbf800001).number = .finite true 8388609 (-23) by decide +kernel]
    rfl
  have hle : a ≤ ((-(8388609 * 2 ^ (-23 : Int)) : ℚ) : WithBotTop ℚ) := by
    rcases Number.cases_of_level hx with ⟨-, rfl⟩ | ⟨-, rfl⟩ | ⟨v, rfl⟩
    · exact bot_le
    · exact absurd h not_top_lt
    · exact WithBotTop.coe_le_coe.2 (le_of_lt_neg_one hx (WithBotTop.coe_lt_coe.1 h))
  have hmono := apply_mono hq hx hnext hle
  rw [hq.bottom] at hmono
  exact le_antisymm hmono (q.apply_mem x hq.low.2 hq.high.1).1

/-! ### Error -/

/-- A gain that is a power of two loses nothing. -/
theorem round_mul_two_pow {m e : Int} (hm : |m| < 2 ^ 24) (he : -149 ≤ e) (k : Nat) :
    single.round (m * 2 ^ e * 2 ^ k) = m * 2 ^ e * 2 ^ k := by
  have hscaled : (m : ℚ) * 2 ^ e * 2 ^ k = m * 2 ^ (e + k) := by
    rw [zpow_add₀ two_ne_zero, zpow_natCast, mul_assoc]
  rw [hscaled]
  exact BinaryFormat.round_of_multiple hm (show -149 ≤ e + k by omega)

/-- With such a gain only the rounding to an integer and the end of the range count. -/
theorem wide_error {v : ℚ} (hx : x.number.At v) (hv : |v| ≤ 1) :
    |wide.apply x - v * 2 ^ 31| ≤ 1 := by
  have hkept : single.round (v * 2 ^ 31) = v * 2 ^ 31 := by
    obtain ⟨m, e, hm, he, rfl⟩ := Binary32.exists_multiple hx
    exact round_mul_two_pow hm he 31
  have happly : wide.apply x = max (-2147483648) (min 2147483647 (nearestEven (v * 2 ^ 31))) := by
    have hrounded := apply_eq_round wide_sound hx
    rw [show ((wide.gain : Int) : ℚ) = 2 ^ 31 by norm_num [wide], hkept] at hrounded
    exact hrounded
  rw [abs_le] at hv
  have hlow : -2147483648 ≤ nearestEven (v * 2 ^ 31) :=
    le_nearestEven (by push_cast; linarith)
  have hhigh : nearestEven (v * 2 ^ 31) ≤ 2147483648 := nearestEven_le (by push_cast; linarith)
  have hnearest := abs_le.1 (abs_nearestEven_sub_le (v * 2 ^ 31))
  generalize nearestEven (v * 2 ^ 31) = n at happly hlow hhigh hnearest
  rcases hhigh.lt_or_eq with hless | rfl
  · rw [happly, show max (-2147483648) (min 2147483647 n) = n by omega, abs_le]
    constructor <;> linarith
  · -- The end of the range, one above its greatest value.
    rw [happly, abs_le]
    constructor <;> norm_num <;> linarith

/-- Below one half the product is hardly moved, so that it may as well be rounded down. -/
theorem le_rounded_gain_of_le_half {v : ℚ} (hv : 0 ≤ v) (hhalf : v ≤ 1 / 2) :
    v * 2 ^ 23 - 3 / 2 ≤ nearestEven (single.round (v * 8388607)) := by
  have hfloor := Int.floor_le (v * 8388607)
  have hless := Int.lt_floor_add_one (v * 8388607)
  have hfloorPos : 0 ≤ ⌊v * 8388607⌋ := Int.floor_nonneg.2 (by positivity)
  have hfloorMost : ⌊v * 8388607⌋ ≤ 8388607 := Int.floor_le_iff.2 (by push_cast; linarith)
  generalize ⌊v * 8388607⌋ = n at *
  have hkept : single.round n = n :=
    BinaryFormat.round_intCast (by decide) (by decide) (abs_le.2 (by simp only [single]; omega))
  have hrounded : (n : ℚ) ≤ single.round (v * 8388607) := by
    rw [← hkept]
    exact BinaryFormat.round_mono (by decide) hfloor
  have hnearest : (n : ℚ) ≤ nearestEven (single.round (v * 8388607)) := by
    exact_mod_cast le_nearestEven hrounded
  linarith

/-- Above one half floats are so far apart that a whole step down is a float. -/
theorem le_rounded_gain_of_half_lt {m e : Int} (hm : |m| < 2 ^ 24) (hhalf : 1 / 2 < (m : ℚ) * 2 ^ e)
    (hone : (m : ℚ) * 2 ^ e ≤ 1) :
    (m : ℚ) * 2 ^ e * 2 ^ 23 - 3 / 2 ≤ nearestEven (single.round (m * 2 ^ e * 8388607)) := by
  have he : -24 ≤ e := by
    by_contra hsmall
    have hpower : (2 : ℚ) ^ e ≤ 2 ^ (-25 : Int) := zpow_le_zpow_right₀ one_le_two (by omega)
    have hmost : (m : ℚ) ≤ 2 ^ 24 := by exact_mod_cast (abs_lt.1 hm).2.le
    have hproduct : (m : ℚ) * 2 ^ e ≤ 2 ^ 24 * 2 ^ (-25 : Int) := by gcongr
    norm_num at hproduct
    linarith
  obtain ⟨k, rfl⟩ : ∃ k : Nat, e = k + -24 := ⟨(e + 24).toNat, by omega⟩
  have hvalue : (m : ℚ) * 2 ^ ((k : Int) + -24) * 2 ^ 23 = (m * 2 ^ k : Int) / 2 := by
    rw [zpow_add₀ two_ne_zero, zpow_natCast]
    push_cast
    norm_num
    ring
  generalize m * 2 ^ k = n at hvalue
  generalize (m : ℚ) * 2 ^ ((k : Int) + -24) = v at *
  have hn : |n - 2| < 2 ^ 24 := by
    have hlow : (0 : ℚ) < n := by linarith
    have hhigh : (n : ℚ) ≤ 2 ^ 24 := by linarith
    have hlow' : 0 < n := by exact_mod_cast hlow
    have hhigh' : n ≤ 2 ^ 24 := by exact_mod_cast hhigh
    rw [abs_lt]
    omega
  have hkept := BinaryFormat.round_of_multiple (F := single) hn (show -149 ≤ -1 by decide)
  have hdown : ((n - 2 : Int) : ℚ) * 2 ^ (-1 : Int) = v * 2 ^ 23 - 1 := by
    rw [hvalue]
    push_cast
    norm_num
    ring
  rw [hdown] at hkept
  have hrounded : v * 2 ^ 23 - 1 ≤ single.round (v * 8388607) := by
    rw [← hkept]
    exact BinaryFormat.round_mono (by decide) (by linarith)
  have hnearest : (nearestEven (v * 2 ^ 23 - 1) : ℚ) ≤
      nearestEven (single.round (v * 8388607)) := by
    exact_mod_cast nearestEven_mono hrounded
  obtain ⟨herror, -⟩ := abs_le.1 (abs_nearestEven_sub_le (v * 2 ^ 23 - 1))
  generalize nearestEven (v * 2 ^ 23 - 1) = a at hnearest herror
  linarith

/-- What a magnitude becomes with the gain of 24 bits. -/
theorem rounded_gain_error {m e : Int} (hnonneg : 0 ≤ m) (hm : |m| < 2 ^ 24) (he : -149 ≤ e)
    (hone : (m : ℚ) * 2 ^ e ≤ 1) :
    |nearestEven (single.round (m * 2 ^ e * 8388607)) - (m : ℚ) * 2 ^ e * 2 ^ 23| ≤ 3 / 2 := by
  have hpos : (0 : ℚ) ≤ m * 2 ^ e := mul_nonneg (by exact_mod_cast hnonneg) (by positivity)
  have hlower : (m : ℚ) * 2 ^ e * 2 ^ 23 - 3 / 2 ≤
      nearestEven (single.round (m * 2 ^ e * 8388607)) := by
    rcases le_or_gt ((m : ℚ) * 2 ^ e) (1 / 2) with hsmall | hlarge
    · exact le_rounded_gain_of_le_half hpos hsmall
    · exact le_rounded_gain_of_half_lt hm hlarge hone
  have hupper : nearestEven (single.round (m * 2 ^ e * 8388607)) ≤
      nearestEven (m * 2 ^ e * 2 ^ 23) := by
    rw [← round_mul_two_pow hm he 23]
    exact nearestEven_mono (BinaryFormat.round_mono (by decide) (by linarith))
  have hupper' : (nearestEven (single.round (m * 2 ^ e * 8388607)) : ℚ) ≤
      nearestEven (m * 2 ^ e * 2 ^ 23) := by exact_mod_cast hupper
  obtain ⟨-, hnearest⟩ := abs_le.1 (abs_nearestEven_sub_le ((m : ℚ) * 2 ^ e * 2 ^ 23))
  generalize nearestEven ((m : ℚ) * 2 ^ e * 2 ^ 23) = a at hupper' hnearest
  rw [abs_le]
  constructor <;> linarith

/-- With the gain of 24 bits, which is the greatest value, so that no float up to `1` saturates. -/
theorem medium_error {v : ℚ} (hx : x.number.At v) (hv : |v| ≤ 1) :
    |medium.apply x - v * 2 ^ 23| ≤ 3 / 2 := by
  have hgain : single.round 8388607 = 8388607 :=
    BinaryFormat.round_intCast (F := single) (n := 8388607) (by decide) (by decide) (by decide)
  obtain ⟨hlow, hhigh⟩ := abs_le.1 hv
  have hgainNeg : single.round (-8388607) = -8388607 := by rw [BinaryFormat.round_neg, hgain]
  have hroundLow : -8388607 ≤ single.round (v * 8388607) :=
    hgainNeg.symm.trans_le (BinaryFormat.round_mono (by decide) (by linarith))
  have hroundHigh : single.round (v * 8388607) ≤ 8388607 :=
    (BinaryFormat.round_mono (by decide) (by linarith)).trans_eq hgain
  have hleast : -8388607 ≤ nearestEven (single.round (v * 8388607)) :=
    le_nearestEven (by exact_mod_cast hroundLow)
  have hmost : nearestEven (single.round (v * 8388607)) ≤ 8388607 :=
    nearestEven_le (by exact_mod_cast hroundHigh)
  have happly := apply_eq_round medium_sound hx
  rw [show ((medium.gain : Int) : ℚ) = 8388607 by norm_num [medium]] at happly
  have hinside : max medium.lowest (min medium.highest
      (nearestEven (single.round (v * 8388607)))) = nearestEven (single.round (v * 8388607)) := by
    simp only [medium]
    omega
  rw [happly, hinside]
  obtain ⟨m, e, hm, he, rfl⟩ := Binary32.exists_multiple hx
  rcases le_total 0 m with hnonneg | hneg
  · exact rounded_gain_error hnonneg hm he hhigh
  · -- Both roundings are odd.
    have hmirrored := rounded_gain_error (m := -m) (by omega) (by rwa [abs_neg]) he (by
      push_cast
      linarith)
    rw [← abs_neg]
    push_cast at hmirrored
    rw [neg_mul, neg_mul, BinaryFormat.round_neg, nearestEven_neg] at hmirrored
    convert hmirrored using 2
    push_cast
    ring

end Quantiser

/-! ## Every type -/

/-- Cutting low bits off stays within one step of what it was within one step of. -/
theorem abs_fdiv_sub_le {a d : Int} {z : ℚ} (hd : 1 ≤ d) (h : |(a : ℚ) - z * d| ≤ 1) :
    |((a.fdiv d : Int) : ℚ) - z| ≤ 1 := by
  rw [Int.fdiv_eq_ediv_of_nonneg _ (by omega)]
  have hsplit := Int.mul_ediv_add_emod a d
  have hrest := Int.emod_nonneg a (show d ≠ 0 by omega)
  have hrest' := Int.emod_lt_of_pos a (show 0 < d by omega)
  generalize a / d = w at hsplit ⊢
  generalize a % d = r at hsplit hrest hrest'
  have hd' : (1 : ℚ) ≤ d := by exact_mod_cast hd
  have hr : (0 : ℚ) ≤ r := by exact_mod_cast hrest
  have hr' : (r : ℚ) + 1 ≤ d := by exact_mod_cast hrest'
  have ha : (a : ℚ) = d * w + r := by exact_mod_cast hsplit.symm
  rw [ha, abs_le] at h
  rw [abs_le]
  constructor <;> nlinarith

namespace SampleType

variable {x y : Binary32}

/-- The word that writes a value is the value, in two's complement over all of its bytes or with
half the range added: nothing of it was cut off. -/
def Whole (t : SampleType) (v : Int) : Prop :=
  if t.isSigned then (t.word v : Int).bmod (1 <<< (8 * t.bytes)) = v
  else (t.word v : Int) = v + t.half

theorem Holds.whole {t : SampleType} {v : Int} (hv : t.Holds v) : t.Whole v := by
  cases t
  all_goals
    simp only [Holds, lowest, highest, half, Whole, word, isSigned, bits, bytes, Int.bmod,
      Nat.reduceSub, Nat.reduceMul, Nat.reduceShiftLeft, if_true, if_false, Bool.false_eq_true]
      at hv ⊢
    omega

/-- A quantiser to the integers of a type: its results fit the type whatever it is given, it keeps
the order of floats, holds what is out of range at the nearest end, gives the centre for an undefined
float and is close to the scaled float everywhere else. -/
structure Quantises (t : SampleType) (f : Binary32 → Int) : Prop where
  holds : ∀ x, t.Holds (f x)
  whole : ∀ x, t.Whole (f x)
  mono : ∀ (x y : Binary32) (a b : WithBotTop ℚ), x.number.level = some a →
    y.number.level = some b → a ≤ b → f x ≤ f y
  above : ∀ (x : Binary32) (a : WithBotTop ℚ), x.number.level = some a → (1 : ℚ) ≤ a →
    f x = t.highest
  below : ∀ (x : Binary32) (a : WithBotTop ℚ), x.number.level = some a → a < (-1 : ℚ) →
    f x = t.lowest
  undefined : ∀ x : Binary32, x.number.level = none → f x = 0
  near : ∀ (x : Binary32) (v : ℚ), x.number.At v → |v| ≤ 1 →
    |f x - v * 2 ^ (t.bits - 1)| ≤ if t.bits = 24 then 3 / 2 else 1

theorem one_le_step (t : SampleType) : (1 : Int) ≤ (1 <<< (32 - t.bits) : Nat) := by
  cases t <;> decide

theorem quantise_mono (t : SampleType) {a b : WithBotTop ℚ}
    (hx : x.number.level = some a) (hy : y.number.level = some b) (h : a ≤ b) :
    t.quantise x ≤ t.quantise y := by
  rw [quantise, quantise]
  split_ifs
  · exact Quantiser.apply_mono Quantiser.medium_sound hx hy h
  · have hstep := t.one_le_step
    rw [Int.fdiv_eq_ediv_of_nonneg _ (by omega), Int.fdiv_eq_ediv_of_nonneg _ (by omega)]
    exact Int.ediv_le_ediv (by omega) (Quantiser.apply_mono Quantiser.wide_sound hx hy h)

theorem quantise_of_one_le (t : SampleType) {a : WithBotTop ℚ}
    (hx : x.number.level = some a) (h : (1 : ℚ) ≤ a) : t.quantise x = t.highest := by
  rw [quantise, Quantiser.apply_of_one_le Quantiser.wide_sound hx h,
    Quantiser.apply_of_one_le Quantiser.medium_sound hx h]
  cases t <;> decide

theorem quantise_of_lt_neg_one (t : SampleType) {a : WithBotTop ℚ}
    (hx : x.number.level = some a) (h : a < (-1 : ℚ)) : t.quantise x = t.lowest := by
  rw [quantise, Quantiser.apply_of_lt_neg_one Quantiser.wide_sound hx h,
    Quantiser.apply_of_lt_neg_one Quantiser.medium_sound hx h]
  cases t <;> decide

theorem quantise_of_undefined (t : SampleType) (hx : x.number.level = none) : t.quantise x = 0 := by
  have hnan : x.number = .nan := by
    cases hnumber : x.number with
    | finite => rw [hnumber] at hx; cases hx
    | infinite => rw [hnumber] at hx; cases hx
    | nan => rfl
  rw [quantise, Quantiser.apply_nan hnan, Quantiser.apply_nan hnan, Int.zero_fdiv, ite_self]

theorem quantise_near (t : SampleType) {v : ℚ} (hx : x.number.At v) (hv : |v| ≤ 1) :
    |t.quantise x - v * 2 ^ (t.bits - 1)| ≤ if t.bits = 24 then 3 / 2 else 1 := by
  rw [quantise]
  split_ifs with hbits
  · rw [hbits]
    exact Quantiser.medium_error hx hv
  · refine abs_fdiv_sub_le t.one_le_step ?_
    have hscaled : v * (2 : ℚ) ^ (t.bits - 1) * ((1 <<< (32 - t.bits) : Nat) : Int) =
        v * 2 ^ 31 := by
      have hpower : t.bits - 1 + (32 - t.bits) = 31 := by cases t <;> rfl
      rw [natCast_one_shiftLeft, mul_assoc, ← hpower, pow_add]
      push_cast
      rfl
    rw [hscaled]
    exact Quantiser.wide_error hx hv

theorem quantises_quantise (t : SampleType) : t.Quantises t.quantise where
  holds x := t.holds_quantise x
  whole x := (t.holds_quantise x).whole
  mono _ _ _ _ := t.quantise_mono
  above _ _ := t.quantise_of_one_le
  below _ _ := t.quantise_of_lt_neg_one
  undefined _ := t.quantise_of_undefined
  near _ _ := t.quantise_near

end SampleType

/-- **Quantising saturates and keeps the order.**  Floats of any kind are quantised to an integer
type one by one, and what is read from the samples written is what the quantiser of the type gives. -/
theorem SampleBuffer.quantises_values_quantise (xs : List Binary32) {t : SampleType}
    (hinteger : t.isFloat = false) :
    t.Quantises t.quantise ∧
      ∃ b, quantise xs t = .ok b ∧ b.format.type = t ∧ b.values = xs.map t.quantise :=
  ⟨t.quantises_quantise, values_quantise xs hinteger⟩

/-- An undefined float, an infinite one, the smallest one and the one below `1`. -/
theorem SampleBuffer.quantises_values_quantise_s24 :
    SampleType.s24.isFloat = false ∧ SampleType.s24.Quantises SampleType.s24.quantise ∧
      ∃ b, quantise [⟨0x7fc00000⟩, ⟨0xff800000⟩, ⟨0x00000001⟩, ⟨0x3f7fffff⟩] .s24 = .ok b ∧
        b.format.type = .s24 ∧ b.values = [0, -8388608, 0, 8388606] := by
  obtain ⟨hquantises, hvalues⟩ := quantises_values_quantise
    [⟨0x7fc00000⟩, ⟨0xff800000⟩, ⟨0x00000001⟩, ⟨0x3f7fffff⟩] (t := .s24) (by decide)
  refine ⟨by decide, hquantises, ?_⟩
  rwa [show [0, -8388608, 0, 8388606] = [(⟨0x7fc00000⟩ : Binary32), ⟨0xff800000⟩, ⟨0x00000001⟩,
    ⟨0x3f7fffff⟩].map SampleType.s24.quantise by decide +kernel]

end PcmConversion
