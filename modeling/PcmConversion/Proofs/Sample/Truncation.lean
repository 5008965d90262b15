import PcmConversion.Proofs.Sample.Precision

/-!
# Truncation against the float path

A truncated value `u` stands for all wider values from `u` up to `u + 1`, and decoding and quantising
keep the order, so the float path ends between what `u` and what `u + 1` come back as (`returned_le`,
`le_returned`).  Sixteen bits come back as they are.  With 24 bits a large value comes back one step
nearer to zero, which leaves one step between the two paths above zero; far below zero it comes on top
of the step that truncation goes down, and the paths are up to two steps apart.
-/

namespace PcmConversion

/-! ## Steps near zero and far from it -/

theorem requantised_of_nonneg {u : Int} (hu : 0 ≤ u) :
    u - 1 ≤ requantised u ∧ requantised u ≤ u := by
  rw [requantised]
  rcases hu.lt_or_eq with hpos | rfl
  · rw [Int.sign_eq_one_of_pos hpos]
    split_ifs <;> omega
  · decide

theorem requantised_of_nonpos {u : Int} (hu : u ≤ 0) :
    u ≤ requantised u ∧ requantised u ≤ u + 1 ∧
      (-3145728 ≤ u ∨ 2 ∣ u ∧ -6291456 < u → requantised u = u) := by
  rw [requantised]
  rcases hu.lt_or_eq with hneg | rfl
  · rw [Int.sign_eq_neg_one_of_neg hneg]
    split_ifs <;> omega
  · decide

namespace SampleType

/-- How far from a truncated value of a type the float path may end: one step either way, and below
values of 24 bits that come back one step nearer to zero up to two steps above. -/
def Agrees (t : SampleType) (u w : Int) : Prop :=
  if t.bits = 24 ∧ u < -3145729 ∧ (2 ∣ u ∨ u < -6291456) then u ≤ w ∧ w ≤ u + 2
  else |w - u| ≤ 1

/-- Between what the ends of a step come back as. -/
theorem agrees_of_le {t : SampleType} {u w : Int}
    (hlow : (if t.bits = 24 then requantised u else u) ≤ w)
    (hhigh : w ≤ if t.bits = 24 then requantised (u + 1) else u + 1) : t.Agrees u w := by
  rw [Agrees]
  by_cases hbits : t.bits = 24
  · simp only [hbits, if_true, true_and] at hlow hhigh ⊢
    rcases lt_or_ge u 0 with hneg | hnonneg
    · obtain ⟨hlow', -⟩ := requantised_of_nonpos hneg.le
      obtain ⟨-, hhigh', hkept⟩ := requantised_of_nonpos (show u + 1 ≤ 0 by omega)
      split_ifs with hfar
      · omega
      · rw [abs_le]
        omega
    · obtain ⟨hlow', -⟩ := requantised_of_nonneg hnonneg
      obtain ⟨-, hhigh'⟩ := requantised_of_nonneg (show 0 ≤ u + 1 by omega)
      rw [if_neg (by omega), abs_le]
      omega
  · simp only [hbits, if_false, false_and] at hlow hhigh ⊢
    rw [abs_le]
    omega

/-! ## Between two truncated values -/

/-- Values in the order of what they stand for are decoded and quantised in this order. -/
theorem quantise_decode_mono {source source' : SampleType} {v v' : Int} (target : SampleType)
    (hv : source.Holds v) (hv' : source'.Holds v')
    (h : v * 2 ^ (source'.bits - 1) ≤ v' * 2 ^ (source.bits - 1)) :
    target.quantise (source.decode v) ≤ target.quantise (source'.decode v') := by
  refine target.quantise_mono (decode_at hv) (decode_at hv')
    (WithBotTop.coe_le_coe.2 (BinaryFormat.round_mono (by decide) ?_))
  rw [zpow_neg, zpow_neg, zpow_natCast, zpow_natCast, ← div_eq_mul_inv, ← div_eq_mul_inv,
    div_le_div_iff₀ (by positivity) (by positivity)]
  exact_mod_cast h

variable {wide narrow : SampleType} {k : Nat} {u v : Int}

theorem two_pow_bits (hwidth : wide.bits = narrow.bits + k) :
    (2 : Int) ^ (wide.bits - 1) = 2 ^ k * 2 ^ (narrow.bits - 1) := by
  have hbits : 0 < narrow.bits := by cases narrow <;> decide
  rw [← pow_add]
  congr 1
  omega

theorem returned_le (hwidth : wide.bits = narrow.bits + k) (hv : wide.Holds v)
    (hu : narrow.Holds u) (h : u * 2 ^ k ≤ v) :
    narrow.quantise (narrow.decode u) ≤ narrow.quantise (wide.decode v) := by
  refine quantise_decode_mono narrow hu hv ?_
  rw [two_pow_bits hwidth, ← mul_assoc]
  gcongr

theorem le_returned (hwidth : wide.bits = narrow.bits + k) (hv : wide.Holds v)
    (hu : narrow.Holds u) (h : v ≤ u * 2 ^ k) :
    narrow.quantise (wide.decode v) ≤ narrow.quantise (narrow.decode u) := by
  refine quantise_decode_mono narrow hv hu ?_
  rw [two_pow_bits hwidth, ← mul_assoc]
  gcongr

theorem agrees_of_cut (hnarrow : narrow.isMedium = true) (hwidth : wide.bits = narrow.bits + k)
    (hv : wide.Holds v) (hu : narrow.Holds u) (hlow : u * 2 ^ k ≤ v) (hhigh : v ≤ (u + 1) * 2 ^ k) :
    narrow.Agrees u (narrow.quantise (wide.decode v)) := by
  have hleast := returned_le hwidth hv hu hlow
  rw [quantise_decode_self hnarrow hu] at hleast
  refine agrees_of_le hleast ?_
  rcases hu.2.lt_or_eq with hless | htop
  · have hnext : narrow.Holds (u + 1) := ⟨hu.1.trans (by omega), by omega⟩
    rw [← quantise_decode_self hnarrow hnext]
    exact le_returned hwidth hv hnext hhigh
  · -- Above the greatest value there is nothing to end at.
    have hmost := (narrow.holds_quantise (wide.decode v)).2
    have hnonneg : 0 ≤ narrow.highest := by cases narrow <;> decide
    obtain ⟨hreturned, -⟩ := requantised_of_nonneg (show 0 ≤ u + 1 by omega)
    split_ifs <;> omega

end SampleType

/-! ## Buffers -/

theorem mul_fdiv_le (v : Int) (k : Nat) :
    v.fdiv (1 <<< k : Nat) * 2 ^ k ≤ v ∧ v ≤ (v.fdiv (1 <<< k : Nat) + 1) * 2 ^ k := by
  have hpos : (0 : Int) < 2 ^ k := by positivity
  rw [natCast_one_shiftLeft, Int.fdiv_eq_ediv_of_nonneg _ hpos.le]
  have hsplit := Int.ediv_mul_add_emod v (2 ^ k)
  have hrest := Int.emod_nonneg v hpos.ne'
  have hrest' := Int.emod_lt_of_pos v hpos
  constructor <;> nlinarith

/-- **Truncation against the float path.**  For every truncation that is chosen, the samples that it
cuts and those that are decoded and quantised instead are one step apart at most; only 24-bit values
below `-3145729`, the even ones and from `-6291457` on all, may come out up to two steps higher on the
float path. -/
theorem SampleBuffer.agrees_values {b : SampleBuffer} {n : Narrowing} {t : SampleType}
    (hnative : b.format.isNative = true) (hselect : Narrowing.select b.format.type t = some n) :
    ∃ xs b', b.decode = .ok xs ∧ quantise xs (n.outputType b.format.type) = .ok b' ∧
      b'.format.type = (n.apply b).format.type ∧
      List.Forall₂ (n.outputType b.format.type).Agrees (n.apply b).values b'.values := by
  obtain ⟨hinteger, hmedium, hwidth⟩ := Narrowing.widths_of_select hselect
  obtain ⟨b', hquantise, htype, hvalues⟩ := values_quantise (b.values.map b.format.type.decode)
    (SampleType.isFloat_of_isMedium hmedium)
  refine ⟨_, b', decode_eq_map hnative hinteger, hquantise, htype, ?_⟩
  have hcuts := values_apply hnative hselect
  rw [hvalues, hcuts, List.map_map, List.forall₂_map_left_iff, List.forall₂_map_right_iff,
    List.forall₂_same]
  intro v hv
  have hcut : v.fdiv (1 <<< n.shift : Nat) ∈ (n.apply b).values := by
    rw [hcuts]
    exact List.mem_map_of_mem hv
  obtain ⟨hlow, hhigh⟩ := mul_fdiv_le v n.shift
  exact SampleType.agrees_of_cut hmedium hwidth (SampleFormat.holds_of_mem_values hv)
    (SampleFormat.holds_of_mem_values hcut) hlow hhigh

/-- The greatest value whose two paths end two steps apart, and a small one. -/
theorem SampleBuffer.agrees_values_s32 :
    let b : SampleBuffer := ⟨[0xff, 0xfe, 0xff, 0xcf, 0xff, 1, 0, 0], ⟨.s32, .little⟩⟩
    b.format.isNative = true ∧ Narrowing.select b.format.type .s24 = some .bits32To24 ∧
      ∃ xs b', b.decode = .ok xs ∧ quantise xs .s24 = .ok b' ∧ b'.format.type = .s24 ∧
        List.Forall₂ SampleType.s24.Agrees [-3145730, 1] b'.values := by
  intro b
  have hagrees := agrees_values (b := b) (n := .bits32To24) (t := .s24) (by decide)
    (by decide)
  rw [show (Narrowing.bits32To24.apply b).values = [-3145730, 1] by decide +kernel] at hagrees
  exact ⟨by decide, by decide, hagrees⟩

/-- One step is not always enough. -/
theorem SampleBuffer.not_within_one_step :
    ¬∀ (b : SampleBuffer) (n : Narrowing) (target : SampleType), b.format.isNative = true →
      Narrowing.select b.format.type target = some n →
      ∃ xs b', b.decode = .ok xs ∧ quantise xs (n.outputType b.format.type) = .ok b' ∧
        List.Forall₂ (fun u w => |w - u| ≤ 1) (n.apply b).values b'.values := by
  intro hclaim
  let b : SampleBuffer := ⟨[0xff, 0xfe, 0xff, 0xcf], ⟨.s32, .little⟩⟩
  obtain ⟨xs, b', hdecode, hquantise, hsteps⟩ :=
    hclaim b .bits32To24 .s24 (by decide) (by decide)
  obtain ⟨c, hquantise', -, hvalues⟩ := values_quantise xs (t := .s24) (by decide)
  obtain rfl : b' = c := Except.ok.inj (hquantise.symm.trans hquantise')
  obtain rfl : b.values.map SampleType.s32.decode = xs :=
    Except.ok.inj ((decode_eq_map (b := b) (by decide) (by decide)).symm.trans hdecode)
  rw [hvalues, show (Narrowing.bits32To24.apply b).values = [-3145730] by decide +kernel,
    show (b.values.map SampleType.s32.decode).map SampleType.s24.quantise = [-3145728] by
      decide +kernel] at hsteps
  obtain ⟨hstep, -⟩ := List.forall₂_cons.1 hsteps
  exact absurd hstep (by decide)

end PcmConversion
