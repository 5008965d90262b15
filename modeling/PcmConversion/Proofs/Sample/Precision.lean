import PcmConversion.Proofs.Numeric.Arithmetic
import PcmConversion.Proofs.Sample.Quantisation

/-!
# Through floating point and back

A value is decoded to the quotient with half the range, rounded to 24 significant bits (`decode_at`);
rounding the quotient to 53 bits first makes no difference (`decode_at_double`).  Types of at most 16
bits come back from that unchanged; 24 bits lose at most one step to their gain, as `requantised`
says; and with 32 bits the gain undoes the division, so that what is left is the rounding of the value
itself (`quantise_decode_of_bits32`), held below the end of the range.
-/

namespace PcmConversion

open BinaryFormat (single double)

/-! ## Integers as floats -/

theorem round_single_highest : single.round 2147483648 = 2147483648 := by
  have hpower := BinaryFormat.round_two_pow (F := single) (k := 31) (by decide) (by decide)
  norm_num at hpower
  exact hpower

theorem round_single_lowest : single.round (-2147483648) = -2147483648 := by
  rw [BinaryFormat.round_neg, round_single_highest]

/-- Of 32 bits with a sign at most the last seven are rounded off. -/
theorem abs_round_bits32_sub_le {v : Int} (hlow : -2147483648 ≤ v) (hhigh : v < 2147483648) :
    |single.round v - v| ≤ 64 := by
  have hmagnitude : |(v : ℚ)| ≤ 2 ^ (31 : Int) := by
    rw [zpow_ofNat]
    exact_mod_cast abs_le.2 ⟨hlow, hhigh.le⟩
  have herror := BinaryFormat.abs_round_single_sub_le (by decide) hmagnitude
  norm_num at herror
  exact herror

/-- The quotient with half of that range is rounded as the integer is. -/
theorem round_single_quotient (v : Int) :
    single.round (v * 2 ^ (-31 : Int)) * 2 ^ 31 = single.round v := by
  rcases eq_or_ne v 0 with rfl | hne
  · norm_num [BinaryFormat.round_zero]
  have hlog : 0 ≤ Int.log 2 |(v : ℚ)| := by
    rw [← Int.zpow_le_iff_le_log one_lt_two (abs_pos.2 (by exact_mod_cast hne)), zpow_zero]
    exact_mod_cast Int.one_le_abs hne
  rw [BinaryFormat.round_mul_zpow (by exact_mod_cast hne)]
  · rw [mul_assoc]
    norm_num
  · simp only [single]
    omega
  · simp only [single]
    omega

/-! ## Decoding -/

namespace SampleType

variable {t : SampleType} {v : Int}

theorem half_eq (t : SampleType) : t.half = 2 ^ (t.bits - 1) :=
  natCast_one_shiftLeft _

theorem Holds.abs_le_half (hv : t.Holds v) : |v| ≤ 2 ^ (t.bits - 1) := by
  obtain ⟨hlow, hhigh⟩ := hv
  rw [lowest, half_eq] at hlow
  rw [highest, half_eq] at hhigh
  exact abs_le.2 ⟨hlow, by omega⟩

theorem Holds.bounds_of_bits32 (hv : t.Holds v) (hbits : t.bits = 32) :
    -2147483648 ≤ v ∧ v < 2147483648 := by
  obtain ⟨hlow, hhigh⟩ := hv
  rw [lowest, half_eq, hbits] at hlow
  rw [highest, half_eq, hbits] at hhigh
  omega

/-- Decoding rounds the quotient with half the range. -/
theorem decode_at (hv : t.Holds v) :
    (t.decode v).number.At (single.round (v * 2 ^ (-(t.bits - 1 : Nat) : Int))) := by
  have hmost : (v.natAbs : ℚ) * 2 ^ (-(t.bits - 1 : Nat) : Int) ≤ 1 := by
    have hmagnitude : v.natAbs ≤ 2 ^ (t.bits - 1) := by
      zify
      exact hv.abs_le_half
    rw [zpow_neg, zpow_natCast, ← div_eq_mul_inv, div_le_one (by positivity)]
    exact_mod_cast hmagnitude
  have hone : single.round 1 = 1 := by
    simpa using BinaryFormat.round_intCast (F := single) (n := 1) (by decide) (by decide)
      (by decide)
  have hrange : single.round (v.natAbs * 2 ^ (-(t.bits - 1 : Nat) : Int)) < 2 ^ 128 := by
    have hmono := BinaryFormat.round_mono (F := single) (by decide) hmost
    rw [hone] at hmono
    exact hmono.trans_lt (by norm_num)
  rw [← signed_natAbs]
  exact Binary32.at_nearest _ hrange

/-- Rounding the quotient to 53 bits on the way makes no difference. -/
theorem decode_at_double (hv : t.Holds v) :
    (t.decode v).number.At
      (single.round (double.round (v * 2 ^ (-(t.bits - 1 : Nat) : Int)))) := by
  have hbits : t.bits ≤ 32 := by cases t <;> decide
  have hexact : double.round (v * 2 ^ (-(t.bits - 1 : Nat) : Int)) =
      v * 2 ^ (-(t.bits - 1 : Nat) : Int) := by
    refine BinaryFormat.round_of_multiple (hv.abs_le_half.trans_lt ?_) ?_
    · exact pow_lt_pow_right₀ one_lt_two (show t.bits - 1 < 53 by omega)
    · simp only [double]
      omega
  rw [hexact]
  exact decode_at hv

/-! ## There and back -/

/-- With 32 bits the division is undone and the rounding remains. -/
theorem quantise_decode_of_bits32 (hbits : t.bits = 32) (hv : t.Holds v) :
    (t.quantise (t.decode v) : ℚ) = min (single.round v) (2 ^ 31 - 1) := by
  obtain ⟨n, hn⟩ := BinaryFormat.exists_round_intCast (F := single) (by decide) (by decide) v
  have hleast : -2147483648 ≤ n := by
    obtain ⟨hlow, -⟩ := hv.bounds_of_bits32 hbits
    have hlow : (-2147483648 : ℚ) ≤ v := by exact_mod_cast hlow
    have hmono := BinaryFormat.round_mono (F := single) (by decide) hlow
    rw [round_single_lowest, hn] at hmono
    exact_mod_cast hmono
  have hat := decode_at hv
  rw [hbits] at hat
  have happly : Quantiser.wide.apply (t.decode v) = max (-2147483648) (min 2147483647 n) := by
    have hrounded := Quantiser.apply_eq_round Quantiser.wide_sound hat
    rw [show ((Quantiser.wide.gain : Int) : ℚ) = 2 ^ 31 by norm_num [Quantiser.wide]] at hrounded
    rw [hrounded, show (-(32 - 1 : Nat) : Int) = -31 from rfl, round_single_quotient,
      BinaryFormat.round_round (by decide), hn, nearestEven_intCast]
    rfl
  rw [quantise, if_neg (by omega), hbits, happly, hn,
    show max (-2147483648) (min 2147483647 n) = min n 2147483647 by omega,
    show ((1 <<< (32 - 32) : Nat) : Int) = 1 from rfl, Int.fdiv_one]
  push_cast
  norm_num

/-- What a value comes back as from floating point. -/
def Restores (t : SampleType) (v w : Int) : Prop :=
  if t.bits = 32 then
    (w : ℚ) = min (single.round v) (2 ^ 31 - 1) ∧ |w - v| ≤ 64 ∧ (|v| ≤ 2 ^ 24 → w = v)
  else if t.bits = 24 then (w = v ∨ w = v - v.sign) ∧ (|v| ≤ 3 * 2 ^ 20 → w = v)
  else w = v

theorem restores_of_bits32 (hbits : t.bits = 32) (hv : t.Holds v) :
    t.Restores v (t.quantise (t.decode v)) := by
  have hreturned := quantise_decode_of_bits32 hbits hv
  obtain ⟨hlow, hhigh⟩ := hv.bounds_of_bits32 hbits
  have hmost : (v : ℚ) ≤ 2 ^ 31 - 1 := by
    have hwhole : v ≤ 2 ^ 31 - 1 := by omega
    exact_mod_cast hwhole
  rw [Restores, if_pos hbits]
  generalize t.quantise (t.decode v) = w at hreturned ⊢
  refine ⟨hreturned, ?_, fun hsmall => ?_⟩
  · have herror := abs_le.1 (abs_round_bits32_sub_le hlow hhigh)
    have hclose : |(w : ℚ) - v| ≤ 64 := by
      rw [hreturned, abs_le]
      rcases min_cases (single.round v) (2 ^ 31 - 1) with ⟨hmin, -⟩ | ⟨hmin, hless⟩ <;> rw [hmin]
      · exact herror
      · constructor <;> linarith
    exact_mod_cast hclose
  · rw [BinaryFormat.round_intCast (by decide) (by decide) hsmall, min_eq_left hmost] at hreturned
    exact_mod_cast hreturned

/-- Of at most 24 bits all are kept by a float, but those of 24 bits have a gain of their own. -/
theorem quantise_decode_self (ht : t.isMedium = true) (hv : t.Holds v) :
    t.quantise (t.decode v) = if t.bits = 24 then requantised v else v := by
  rw [quantise_decode ht ht hv, transcoded]
  rcases bits_of_isMedium ht with hbits | hbits | hbits
  · rw [hbits]
    exact Int.mul_fdiv_cancel v (by decide)
  · rw [hbits]
    exact Int.mul_fdiv_cancel v (by decide)
  · simp only [hbits, if_true, Nat.sub_self, pow_zero, mul_one]

theorem restores_of_isMedium (ht : t.isMedium = true) (hv : t.Holds v) :
    t.Restores v (t.quantise (t.decode v)) := by
  rw [quantise_decode_self ht hv, Restores]
  have hbits := bits_of_isMedium ht
  rw [if_neg (show t.bits ≠ 32 by omega)]
  split_ifs with hmedium
  · rw [requantised]
    refine ⟨ite_eq_or_eq .., fun hsmall => if_pos (.inl ?_)⟩
    rw [Int.abs_eq_natAbs] at hsmall
    omega
  · rfl

theorem restores_quantise_decode (hinteger : t.isFloat = false) (hv : t.Holds v) :
    t.Restores v (t.quantise (t.decode v)) := by
  have hwidth : t.isMedium = true ∨ t.bits = 32 := by
    revert hinteger
    cases t <;> decide
  rcases hwidth with ht | hbits
  · exact restores_of_isMedium ht hv
  · exact restores_of_bits32 hbits hv

end SampleType

namespace SampleBuffer

variable {b : SampleBuffer}

theorem length_values (b : SampleBuffer) : b.values.length = b.samples := by
  simp [values, SampleFormat.values, samples]

/-- **From integers to floats and back.**  As many samples come back as there were whole ones, each with
the value that its type restores. -/
theorem restores_values (hnative : b.format.isNative = true)
    (hinteger : b.format.type.isFloat = false) :
    ∃ xs b', b.decode = .ok xs ∧ quantise xs b.format.type = .ok b' ∧
      b'.format.type = b.format.type ∧ b'.samples = b.samples ∧
      List.Forall₂ b.format.type.Restores b.values b'.values := by
  obtain ⟨b', hquantise, htype, hvalues⟩ :=
    values_quantise (b.values.map b.format.type.decode) hinteger
  refine ⟨_, b', decode_eq_map hnative hinteger, hquantise, htype, ?_, ?_⟩
  · rw [← length_values, ← length_values, hvalues, List.length_map, List.length_map]
  · rw [hvalues, List.map_map, List.forall₂_map_right_iff, List.forall₂_same]
    exact fun v hv =>
      SampleType.restores_quantise_decode hinteger (SampleFormat.holds_of_mem_values hv)

/-- Three samples of 24 bits in containers, the first one with a stray high byte, and an incomplete
one. -/
theorem restores_values_s24 :
    let b : SampleBuffer := ⟨[1, 0, 0, 7, 1, 0, 0x80, 0xff, 0xff, 0xff, 0x7f, 0, 9], ⟨.s24, .little⟩⟩
    b.format.isNative = true ∧ b.format.type.isFloat = false ∧
      ∃ xs b', b.decode = .ok xs ∧ quantise xs .s24 = .ok b' ∧ b'.format.type = .s24 ∧
        b'.samples = 3 ∧ List.Forall₂ SampleType.s24.Restores [1, -8388607, 8388607] b'.values := by
  intro b
  have hvalues : b.values = [1, -8388607, 8388607] := by decide +kernel
  have hrestores := restores_values (b := b) (by decide) (by decide)
  rw [hvalues, show b.samples = 3 by decide +kernel] at hrestores
  exact ⟨by decide, by decide, hrestores⟩

end SampleBuffer

end PcmConversion
