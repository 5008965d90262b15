import PcmConversion.Proofs.Numeric.Exact
import PcmConversion.Sample.Transcode

/-!
# From integers to integers through floats

Decoding divides by `2^23` and quantising to 24 bits multiplies by `2^23 - 1`, so a value that is
only decoded and quantised again may come out one step nearer to zero.  `requantised` says for which
values that happens: less than one step is lost, and it is rounded away twice, to the 24 significant
bits of the product and then to an integer, unless the value is large.  Quantising to fewer bits has
a gain of `2^31` and cuts the low bits off.  The main statements: what a value becomes from one type
to another (`quantise_decode`), and what it comes back as from 24 bits (`recast_recast`).
-/

namespace PcmConversion

/-- What a 24-bit value is quantised to after it was decoded. -/
def requantised (u : Int) : Int :=
  if u.natAbs ≤ 3145728 ∨ (2 ∣ u ∧ u.natAbs < 6291456) then u else u - u.sign

/-! ## Magnitudes -/

/-- The product of a magnitude with the gain, in steps of `d`, is short of `whole` steps by more
than one and at most two: rounded, by one or by two. -/
theorem divEven_gain {n d whole : Nat} (hlow : d < n) (hhigh : n ≤ 2 * d)
    (hwhole : whole * d = n * 8388608) (heven : whole % 2 = 0) :
    divEven (n * 8388607) d = if 2 * n < 3 * d then whole - 1 else whole - 2 := by
  have hd : 0 < d := by omega
  obtain ⟨rest, rfl⟩ : ∃ rest, whole = rest + 2 := by
    refine ⟨whole - 2, ?_⟩
    have hpos : whole ≠ 0 := by
      rintro rfl
      omega
    omega
  have hsteps : rest * d + 2 * d = n * 8388608 := by rw [← Nat.add_mul, hwhole]
  split_ifs with hless
  · refine divEven_eq hd ?_ ?_ fun htie => ?_
    all_goals
      simp only [show rest + 2 - 1 = rest + 1 by omega, Nat.mul_add, Nat.add_mul,
        Nat.mul_assoc] at *
      omega
  · refine divEven_eq hd ?_ ?_ fun _ => by omega
    all_goals
      simp only [Nat.add_sub_cancel, Nat.add_mul, Nat.mul_assoc]
      omega

/-- Both roundings together. -/
theorem divEven_divEven_gain {n k : Nat} (hlow : 2 ^ k < n) (hhigh : n ≤ 2 ^ (k + 1))
    (hk : k ≤ 22) :
    divEven (divEven (n * 8388607) (2 ^ k)) (2 ^ (23 - k)) =
      if n ≤ 3145728 ∨ (n % 2 = 0 ∧ n < 6291456) then n else n - 1 := by
  have hpower : 2 ^ (23 - k) * 2 ^ k = 8388608 := by
    rw [← Nat.pow_add, Nat.sub_add_cancel (by omega)]
  have heven : n * 2 ^ (23 - k) % 2 = 0 := by
    rw [show 23 - k = 22 - k + 1 by omega, Nat.pow_succ, ← Nat.mul_assoc, Nat.mul_mod_left]
  rw [Nat.pow_succ, Nat.mul_comm] at hhigh
  rw [divEven_gain hlow hhigh (by rw [Nat.mul_assoc, hpower]) heven]
  rcases (show k = 22 ∨ k = 21 ∨ k ≤ 20 by omega) with rfl | rfl | hsmall
  · simp only [Nat.reducePow, Nat.reduceSub] at *
    simp only [divEven]
    split_ifs <;> omega
  · simp only [Nat.reducePow, Nat.reduceSub] at *
    simp only [divEven]
    split_ifs <;> omega
  · -- Two steps are less than half of what one integer is worth.
    have hsteps : 2 ^ 3 ≤ 2 ^ (23 - k) := Nat.pow_le_pow_right two_pos (by omega)
    have hbound : 2 ^ k ≤ 2 ^ 20 := Nat.pow_le_pow_right two_pos hsmall
    have hn : 2 ^ (23 - k) ≤ n * 2 ^ (23 - k) := Nat.le_mul_of_pos_left _ (by omega)
    have hkept : n ≤ 3145728 ∨ (n % 2 = 0 ∧ n < 6291456) := by omega
    rw [if_pos hkept]
    refine divEven_eq (by omega) ?_ ?_ fun htie => ?_
    all_goals
      simp only [Nat.add_mul, Nat.mul_assoc] at *
      split_ifs at * <;> omega

/-! ## Signed values -/

/-- A float that stands for a 24-bit value: `u / 2^23`. -/
def Binary32.Stands (x : Binary32) (u : Int) : Prop :=
  x.number.Is (decide (u < 0)) (u.natAbs * 2 ^ (-23 : Int))

open BinaryFormat (single)

theorem log_gained {n k : Nat} (hlow : 2 ^ k < n) (hhigh : n ≤ 2 ^ (k + 1)) (hk : k ≤ 22) :
    Int.log 2 (((n * 8388607 : Nat) : ℚ) / (1 : Nat) * 2 ^ (-23 : Int)) = k := by
  have hgained : ((n * 8388607 : Nat) : ℚ) / (1 : Nat) * 2 ^ (-23 : Int) =
      n * (8388607 / 8388608) := by
    push_cast
    norm_num
    ring
  have hn : (2 : ℚ) ^ k + 1 ≤ n := by exact_mod_cast hlow
  have hn' : (n : ℚ) ≤ 2 ^ k * 2 := by exact_mod_cast hhigh
  have hpower : (2 : ℚ) ^ k ≤ 2 ^ 22 := pow_le_pow_right₀ one_le_two hk
  have hpos : (0 : ℚ) < n * (8388607 / 8388608) := by
    have : (0 : ℚ) < 2 ^ k := by positivity
    linarith
  rw [hgained]
  refine le_antisymm (Int.lt_add_one_iff.1 ?_) ?_
  · rw [← Int.lt_zpow_iff_log_lt one_lt_two hpos, Nat.cast_ofNat, zpow_add_one₀ two_ne_zero,
      zpow_natCast]
    linarith
  · rw [← Int.zpow_le_iff_le_log one_lt_two hpos, Nat.cast_ofNat, zpow_natCast]
    linarith

/-- The number that the magnitude of a product with the gain is rounded to, as an integer. -/
theorem exists_gained (negative : Bool) {n : Nat} (hn : n ≤ 8388608) :
    ∃ a b : Nat, 0 < b ∧
      (Binary32.ofNumber (single.nearest negative (n * 8388607) 1 (-23))).number.Is negative
        ((a : ℚ) / b) ∧
      divEven a b = if n ≤ 3145728 ∨ (n % 2 = 0 ∧ n < 6291456) then n else n - 1 := by
  rcases (show n ≤ 1 ∨ 2 ≤ n by omega) with hsmall | hlarge
  · -- No rounding of the product.
    have his := Binary32.is_nearest_exact negative (n := n * 8388607) (e := -23) (by omega)
      (by decide) (by decide)
    refine ⟨n * 8388607, 8388608, by decide, ?_, ?_⟩
    · convert his using 1
      norm_num
      ring
    · rw [if_pos (.inl (by omega))]
      rcases (show n = 0 ∨ n = 1 by omega) with rfl | rfl <;> decide
  have hlow : 2 ^ (n - 1).log2 < n := by
    have := Nat.log2_self_le (show n - 1 ≠ 0 by omega)
    omega
  have hhigh : n ≤ 2 ^ ((n - 1).log2 + 1) := by
    have := Nat.lt_log2_self (n := n - 1)
    omega
  have hk : (n - 1).log2 ≤ 22 := by
    have := (Nat.log2_lt (show n - 1 ≠ 0 by omega)).2 (show n - 1 < 2 ^ 23 by omega)
    omega
  generalize (n - 1).log2 = k at hlow hhigh hk
  have hlog := log_gained hlow hhigh hk
  have hulp : single.ulp (((n * 8388607 : Nat) : ℚ) / (1 : Nat) * 2 ^ (-23 : Int)) = k - 23 := by
    rw [BinaryFormat.ulp, hlog]
    simp only [single]
    omega
  have hmantissa : single.mantissa (n * 8388607) 1 (-23) = divEven (n * 8388607) (2 ^ k) := by
    refine BinaryFormat.mantissa_eq_divEven one_pos (Nat.two_pow_pos k) ?_
    rw [hulp, zpow_sub₀ two_ne_zero, zpow_natCast]
    push_cast
    field_simp
    norm_num
  have hmost : (single.mantissa (n * 8388607) 1 (-23)).log2 ≤ 24 := by
    have hle : single.mantissa (n * 8388607) 1 (-23) ≤ 2 ^ 24 :=
      BinaryFormat.mantissa_le (by omega) one_pos
    simpa only [Nat.log2_eq_log_two, Nat.log_pow one_lt_two] using Nat.log_mono_right (b := 2) hle
  have his := Binary32.is_nearest negative (n := n * 8388607) (d := 1) (e := -23) (by omega)
    one_pos (by omega)
  rw [hulp, hmantissa] at his
  refine ⟨divEven (n * 8388607) (2 ^ k), 2 ^ (23 - k), Nat.two_pow_pos _, ?_,
    divEven_divEven_gain hlow hhigh hk⟩
  convert his using 1
  rw [show (k : Int) - 23 = -(23 - k : Nat) by omega, zpow_neg, zpow_natCast, div_eq_mul_inv]
  push_cast
  rfl

theorem Binary32.Stands.quantise_medium {x : Binary32} {u : Int} (hx : x.Stands u)
    (hlow : -8388608 ≤ u) (hhigh : u < 8388608) : Quantiser.medium.apply x = requantised u := by
  have hgain := Binary32.is_ofScaled (v := Quantiser.medium.gain) (e := 0) (by decide) (by decide)
    (by decide)
  have hproduct := Binary32.mul_eq_ofNumber hx hgain (n := u.natAbs * 8388607) (e := -23) (by
    simp only [Quantiser.medium]
    push_cast
    ring)
  obtain ⟨a, b, hb, his, hrounded⟩ := exists_gained (decide (u < 0)) (n := u.natAbs) (by omega)
  have hsign : (decide (u < 0) != decide (Quantiser.medium.gain < 0)) = decide (u < 0) := by
    simp [Quantiser.medium]
  rw [hsign] at hproduct
  rw [Quantiser.apply, hproduct, his.clamp hb, hrounded]
  simp only [Quantiser.medium, requantised]
  rcases lt_trichotomy u 0 with hneg | rfl | hpos
  · simp only [hneg, decide_true, if_true, Int.sign_eq_neg_one_of_neg hneg]
    split_ifs <;> omega
  · decide
  · simp only [not_lt.2 hpos.le, decide_false, Bool.false_eq_true, if_false,
      Int.sign_eq_one_of_pos hpos]
    split_ifs <;> omega

theorem Binary32.Stands.quantise_wide {x : Binary32} {u : Int} (hx : x.Stands u)
    (hlow : -8388608 ≤ u) (hhigh : u < 8388608) : Quantiser.wide.apply x = u * 256 := by
  have hgain : (Binary32.ofScaled Quantiser.wide.gain 0).number.Is false
      (8388608 * 2 ^ (8 : Int)) := ⟨8388608, 8, by decide +kernel, by norm_num⟩
  have hproduct := Binary32.mul_eq_ofNumber hx hgain (n := u.natAbs) (e := 8) (by
    norm_num
    ring)
  have his := Binary32.is_nearest_exact (decide (u < 0)) (n := u.natAbs) (e := 8) (by omega)
    (by decide) (by decide)
  have hwhole : (u.natAbs : ℚ) * 2 ^ (8 : Int) = (u.natAbs * 256 : Nat) / (1 : Nat) := by
    push_cast
    norm_num
  rw [hwhole] at his
  rw [Quantiser.apply, hproduct, Bool.bne_false, his.clamp one_pos,
    show divEven (u.natAbs * 256) 1 = u.natAbs * 256 by
      simpa using divEven_mul_right (u.natAbs * 256) one_pos]
  simp only [Quantiser.wide]
  by_cases hneg : u < 0
  · simp only [hneg, decide_true, if_true]
    omega
  · simp only [hneg, decide_false, Bool.false_eq_true, if_false]
    omega

/-! ## Types of at most 24 bits -/

namespace SampleType

variable {source target : SampleType} {v : Int}

/-- Integers of at most 24 bits. -/
def isMedium (t : SampleType) : Bool :=
  !t.isFloat && t.bits ≤ 24

/-- The values that a type can write. -/
def Holds (t : SampleType) (v : Int) : Prop :=
  t.lowest ≤ v ∧ v ≤ t.highest

theorem isFloat_of_isMedium {t : SampleType} (ht : t.isMedium = true) : t.isFloat = false := by
  revert ht
  cases t <;> decide

theorem bits_of_isMedium {t : SampleType} (ht : t.isMedium = true) :
    t.bits = 8 ∨ t.bits = 16 ∨ t.bits = 24 := by
  revert ht
  cases t <;> decide

theorem Holds.bounds {t : SampleType} (ht : t.isMedium = true) (hv : t.Holds v) :
    -8388608 ≤ v * 2 ^ (24 - t.bits) ∧ v * 2 ^ (24 - t.bits) < 8388608 := by
  obtain ⟨hlow, hhigh⟩ := hv
  rw [highest] at hhigh
  rw [lowest] at hlow
  rcases bits_of_isMedium ht with hbits | hbits | hbits
  all_goals
    simp only [half, hbits, Nat.reduceSub, Nat.reduceShiftLeft, Int.reducePow, Nat.cast_ofNat]
      at hlow hhigh ⊢
    omega

/-- Decoding is exact. -/
theorem Holds.decode_stands {t : SampleType} (ht : t.isMedium = true) (hv : t.Holds v) :
    (t.decode v).Stands (v * 2 ^ (24 - t.bits)) := by
  obtain ⟨hlow, hhigh⟩ := hv.bounds ht
  have hsign : decide (v * 2 ^ (24 - t.bits) < 0) = decide (v < 0) := by
    refine decide_eq_decide.2 ⟨fun hneg => ?_, fun hneg => Int.mul_neg_of_neg_of_pos hneg ?_⟩
    · exact neg_of_mul_neg_left hneg (by positivity)
    · positivity
  have hsmall : v.natAbs < 2 ^ 24 := by
    rcases bits_of_isMedium ht with hbits | hbits | hbits
    all_goals
      simp only [hbits, Nat.reduceSub, Int.reducePow] at hlow hhigh
      omega
  have hexponent : (-(t.bits - 1 : Nat) : Int) = (24 - t.bits : Nat) + -23 := by
    rcases bits_of_isMedium ht with hbits | hbits | hbits <;> rw [hbits] <;> rfl
  have his := Binary32.is_ofScaled (e := -(t.bits - 1 : Nat)) hsmall (by omega) (by omega)
  have hvalue : (v.natAbs : ℚ) * 2 ^ (-(t.bits - 1 : Nat) : Int) =
      (v * 2 ^ (24 - t.bits)).natAbs * 2 ^ (-23 : Int) := by
    rw [hexponent, zpow_add₀ two_ne_zero, zpow_natCast, Int.natAbs_mul, Int.natAbs_pow]
    push_cast
    ring
  rw [Binary32.Stands, hsign, ← hvalue]
  exact his

/-- What a value of one type is decoded and quantised to in another. -/
def transcoded (source target : SampleType) (v : Int) : Int :=
  if target.bits = 24 then requantised (v * 2 ^ (24 - source.bits))
  else (v * 2 ^ (24 - source.bits)).fdiv (2 ^ (24 - target.bits))

theorem quantise_decode (hsource : source.isMedium = true) (htarget : target.isMedium = true)
    (hv : source.Holds v) : target.quantise (source.decode v) = transcoded source target v := by
  have hstands := hv.decode_stands hsource
  obtain ⟨hlow, hhigh⟩ := hv.bounds hsource
  rw [quantise, transcoded]
  split_ifs with hbits
  · exact hstands.quantise_medium hlow hhigh
  rw [hstands.quantise_wide hlow hhigh]
  rcases bits_of_isMedium htarget with htarget | htarget | htarget
  · rw [htarget]
    exact Int.mul_fdiv_mul_of_pos_left (b := 256) _ (2 ^ 16) (by decide)
  · rw [htarget]
    exact Int.mul_fdiv_mul_of_pos_left (b := 256) _ (2 ^ 8) (by decide)
  · exact absurd htarget hbits

/-- What a value of one type becomes in another, where the rate stays.  Signedness alone is changed
without transcoding. -/
def recast (source target : SampleType) (v : Int) : Int :=
  if source = target ∨ source.toggledSign = some target then v else transcoded source target v

/-- What a value comes back as from a type of 24 bits. -/
def restored (source middle : SampleType) (v : Int) : Int :=
  if source = middle ∨ source.toggledSign = some middle then v
  else if source.bits = 24 then requantised (requantised v)
  else if v < 3 * 2 ^ (source.bits - 3) then v else v - 1

theorem toggledSign_comm {t toggled : SampleType} :
    t.toggledSign = some toggled ↔ toggled.toggledSign = some t := by
  cases t <;> cases toggled <;> decide

/-- Cutting rounds down, so it takes one step more from a positive value that was moved toward zero
and undoes the move of a negative one. -/
theorem requantised_fdiv {k : Nat} (hk : k = 8 ∨ k = 16) {v : Int} (hlow : -8388608 ≤ v * 2 ^ k)
    (hhigh : v * 2 ^ k < 8388608) :
    (requantised (v * 2 ^ k)).fdiv (2 ^ k) = if v < 3 * 2 ^ (21 - k) then v else v - 1 := by
  rw [Int.fdiv_eq_ediv_of_nonneg _ (by positivity)]
  rcases hk with rfl | rfl
  all_goals
    simp only [Nat.reduceSub, Int.reducePow, Int.reduceMul] at hlow hhigh ⊢
    rw [requantised]
    rcases lt_trichotomy v 0 with hneg | rfl | hpos
    · rw [Int.sign_eq_neg_one_of_neg (by omega)]
      omega
    · decide
    · rw [Int.sign_eq_one_of_pos (by omega)]
      omega

/-- There and back again. -/
theorem recast_recast {middle : SampleType} (hsource : source.isMedium = true)
    (hmiddle : middle.bits = 24) (hv : source.Holds v) :
    recast middle source (recast source middle v) = restored source middle v := by
  have hsymm : (middle = source ∨ middle.toggledSign = some source) ↔
      (source = middle ∨ source.toggledSign = some middle) := by
    rw [toggledSign_comm, eq_comm]
  obtain ⟨hlow, hhigh⟩ := hv.bounds hsource
  simp only [recast, restored, hsymm]
  split_ifs with hsame hbits hkept
  · rfl
  · simp [transcoded, hmiddle, hbits]
  all_goals
    have hshift : 24 - source.bits = 8 ∨ 24 - source.bits = 16 := by
      rcases bits_of_isMedium hsource with hbits' | hbits' | hbits' <;> omega
    have hlast : 21 - (24 - source.bits) = source.bits - 3 := by omega
    have hcut := requantised_fdiv hshift hlow hhigh
    rw [hlast] at hcut
    simp only [transcoded, hmiddle, hbits, if_true, if_false, Nat.sub_self, pow_zero, mul_one]
    rw [hcut]
  · exact if_pos hkept
  · exact if_neg hkept

end SampleType

end PcmConversion
