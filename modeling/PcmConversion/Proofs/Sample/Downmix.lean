import PcmConversion.Proofs.Sample.RunningSums

/-!
# The fold of 5.1 frames

Each stereo frame is made of one 5.1 frame (`frames_downmix_integers`, `frames_downmix_floats`).  Of
integers no addition leaves the range of the type, so that no cast saturates, and the samples are
within 6 or 1024 counts of the exact sums (`folds_frame`); floats that lie within `[-1, 1]` are folded
to floats strictly inside (`folds_floats`).
-/

namespace PcmConversion

open BinaryFormat (single)

/-! ## Values of floats -/

/-- The rational that a number is, zero where it is none. -/
def Number.value : Number → ℚ
  | .finite negative m e => signed negative (m * 2 ^ e)
  | _ => 0

theorem Number.At.value_eq {v : Number} {q : ℚ} (h : v.At q) : v.value = q := by
  obtain ⟨negative, m, e, rfl, rfl⟩ := h.exists_finite
  rfl

theorem SampleType.Holds.abs_le {t : SampleType} {s : Int} (hs : t.Holds s) :
    |(s : ℚ)| ≤ 2 ^ ((t.bits - 1 : Nat) : Int) := by
  rw [zpow_natCast]
  exact_mod_cast hs.abs_le_half

namespace Downmix

/-! ## Integer frames -/

section Integers

variable {t : SampleType} {frame : List Int}

/-- The stereo samples of an integer frame. -/
def foldIntegers (t : SampleType) (frame : List Int) : List Int :=
  coefficients.map fun row =>
    foldRow (addInteger t) 0 row (frame.map fun s => Binary32.ofScaled s 0)

/-- How many counts an output sample may be off. -/
def tolerance (t : SampleType) : ℚ :=
  if t.bits = 16 then 6 else 1024

/-- An integer frame is folded within range and near the matrix: whatever terms were added before, the
float that the next addition casts to the type lies within its range, and every output sample is off
the exact sum by less than the tolerance. -/
structure Folds (t : SampleType) (frame : List Int) : Prop where
  inRange : ∀ ws ∈ weights, ∀ before x after,
    terms ws (frame.map fun s => Binary32.ofScaled s 0) = before ++ x :: after →
      ∃ q : ℚ, (Binary32.ofScaled (before.foldl (addInteger t) 0) 0 + x).number.At q ∧
        t.lowest ≤ q ∧ q ≤ t.highest
  near : List.Forall₂
    (fun ws (y : Int) => |y - exactSum ws (frame.map fun s : Int => (s : ℚ))| < tolerance t)
    weights (foldIntegers t frame)

theorem near_sample {s : Int} (hs : t.Holds s) :
    ∃ p, (Binary32.ofScaled s 0).number.At p ∧ |p| ≤ 2 ^ ((t.bits - 1 : Nat) : Int) ∧
      |p - s| ≤ t.unit := by
  have hstored := Binary32.at_ofScaled (v := s) (e := 0) (by
    rw [zpow_zero, mul_one]
    exact hs.abs_le.trans t.two_pow_bits_le)
  rw [zpow_zero, mul_one] at hstored
  exact ⟨_, hstored, BinaryFormat.abs_round_single_le (by omega) hs.abs_le,
    t.abs_round_sub_le_unit hs.abs_le⟩

theorem near_integer {ws : List Int} (hws : ws ∈ weights) (hframe : ∀ s ∈ frame, t.Holds s) :
    ∀ w ∈ ws, ∀ s ∈ frame, Near t.unit (fun s => Binary32.ofScaled s 0) (fun s : Int => (s : ℚ))
      (w, s) := by
  intro w hw s hs
  have hbits : t.bits - 1 ≤ 31 := by cases t <;> decide
  obtain ⟨p, hp, hbound, hclose⟩ := near_sample (hframe s hs)
  exact near_term (by omega) (by omega) (abs_le_of_mem_weights hws hw) hp hbound
    (hframe s hs).abs_le hclose

/-- The margin that the weights leave is enough for the roundings of both widths. -/
theorem row_fits (ht : t = .s16 ∨ t = .s32) :
    38079 * (gain * 2 ^ ((t.bits - 1 : Nat) : Int) / 10 ^ 8) + 15 * t.unit ≤
        (t.highest : ℚ) - t.unit ∧ (3 * t.unit + 1) * 5 < tolerance t := by
  rw [highest_eq]
  rcases ht with rfl | rfl <;> norm_num [SampleType.unit, SampleType.bits, gain, tolerance]

theorem heldInteger_zero : HeldInteger 0 0 :=
  ⟨Int.cast_zero.symm, BinaryFormat.round_zero⟩

theorem folds_frame (ht : t = .s16 ∨ t = .s32) (hlength : frame.length = 6)
    (hframe : ∀ s ∈ frame, t.Holds s) : Folds t frame := by
  obtain ⟨hfits, hclose⟩ := row_fits ht
  have hrows := fun ws (hws : ws ∈ weights) =>
    (adds_integers t).fold_row t.unit_pos.le heldInteger_zero hws hlength
      (near_integer hws hframe) (fun s hs => (hframe s hs).abs_le) hfits
  constructor
  · intro ws hws before x after hsplit
    obtain ⟨v, p, hv, hp, hsize, hsum⟩ := (hrows ws hws).1 before x after hsplit
    obtain ⟨hat, -, hin⟩ := addition_at hv hp hsize hsum
    obtain ⟨hlow, hhigh⟩ := abs_le.1 hin
    refine ⟨_, hat, le_trans ?_ hlow, hhigh⟩
    rw [SampleType.lowest, SampleType.highest]
    push_cast
    linarith
  · rw [foldIntegers, coefficients, List.map_map, List.forall₂_map_right_iff, List.forall₂_same]
    intro ws hws
    obtain ⟨v, ⟨rfl, -⟩, -, herror⟩ := (hrows ws hws).2
    exact herror.trans_lt hclose

end Integers

/-! ## Float frames -/

section Floats

variable {frame : List Binary32}

/-- The stereo samples of a float frame. -/
def foldFloats (frame : List Binary32) : List Binary32 :=
  coefficients.map fun row => foldRow (· + ·) Binary32.zero row frame

/-- The sample is a number within `[-1, 1]`. -/
def Within (x : Binary32) : Prop :=
  ∃ q, x.number.At q ∧ |q| ≤ 1

/-- A float frame is folded strictly inside `(-1, 1)`, and near the matrix. -/
def FoldsInside (frame : List Binary32) : Prop :=
  List.Forall₂ (fun ws y => ∃ q, y.number.At q ∧ -1 < q ∧ q < 1 ∧
      |q - exactSum ws (frame.map fun x => x.number.value)| < 1 / 10 ^ 6)
    weights (foldFloats frame)

theorem near_float {ws : List Int} (hws : ws ∈ weights) (hframe : ∀ x ∈ frame, Within x) :
    ∀ w ∈ ws, ∀ x ∈ frame, Near (2 ^ (-25 : Int)) id (fun x => x.number.value) (w, x) := by
  intro w hw x hx
  obtain ⟨q, hq, hsmall⟩ := hframe x hx
  have hscale : |q| ≤ 2 ^ (0 : Int) := by rwa [zpow_zero]
  have hterm := near_term (k := 0) (by decide) (by decide) (abs_le_of_mem_weights hws hw) hq hscale
    hscale (by rw [sub_self, abs_zero]; positivity)
  rw [← hq.value_eq] at hterm
  exact hterm

theorem folds_floats (hlength : frame.length = 6) (hframe : ∀ x ∈ frame, Within x) :
    FoldsInside frame := by
  have hvalue : ∀ x ∈ frame, |x.number.value| ≤ 1 := fun x hx => by
    obtain ⟨q, hq, hsmall⟩ := hframe x hx
    rwa [hq.value_eq]
  have hsilence : Binary32.zero.number.At 0 := Binary32.at_zero false
  rw [FoldsInside, foldFloats, coefficients, List.map_map, List.forall₂_map_right_iff,
    List.forall₂_same]
  intro ws hws
  obtain ⟨-, q, hq, hsize, herror⟩ := adds_floats.fold_row (by positivity) hsilence hws hlength
    (near_float hws hframe) hvalue (by norm_num [gain])
  rw [List.map_id] at hq
  have hinside : |q| < 1 := hsize.trans_lt (by norm_num [gain])
  obtain ⟨hlow, hhigh⟩ := abs_lt.1 hinside
  exact ⟨q, hq, hlow, hhigh, herror.trans_lt (by norm_num)⟩

end Floats

/-! ## Frames as bytes -/

theorem holds_addInteger (t : SampleType) (sum : Int) (x : Binary32) :
    t.Holds (addInteger t sum x) :=
  Number.clamp_mem _ _ (by cases t <;> decide) (by cases t <;> decide)

theorem holds_foldIntegers {t : SampleType} {frame : List Int} {y : Int}
    (hy : y ∈ foldIntegers t frame) : t.Holds y := by
  obtain ⟨row, -, rfl⟩ := List.mem_map.1 hy
  rw [foldRow]
  refine List.foldlRecOn (motive := t.Holds) _ _ ?_ fun a _ x _ => holds_addInteger t a x
  exact ⟨by cases t <;> decide, by cases t <;> decide⟩

theorem length_foldIntegers (t : SampleType) (frame : List Int) :
    (foldIntegers t frame).length = 2 := by
  rw [foldIntegers, List.length_map]
  rfl

theorem length_foldFloats (frame : List Binary32) : (foldFloats frame).length = 2 := by
  rw [foldFloats, List.length_map]
  rfl

theorem foldFrame_integers {t : SampleType} (hinteger : t.isFloat = false)
    (frame : List (List UInt8)) :
    foldFrame t frame = (foldIntegers t (frame.map t.read)).flatMap t.write := by
  rw [foldFrame, if_neg (by simp [hinteger]), foldIntegers, List.flatMap_map, List.map_map]
  rfl

/-- The float that four bytes are. -/
def readFloat (sample : List UInt8) : Binary32 :=
  ⟨UInt32.ofNat (Word.ofBytes sample)⟩

theorem readFloat_toBytes (x : Binary32) : readFloat (Word.toBytes 4 x.bits.toNat) = x := by
  rw [readFloat, Word.ofBytes_toBytes, Nat.mod_eq_of_lt (by simpa using x.bits.toNat_lt)]
  simp

theorem map_readFloat_flatMap (xs : List Binary32) :
    (wholeGroups 4 (xs.flatMap fun x => Word.toBytes 4 x.bits.toNat)).map readFloat = xs := by
  rw [wholeGroups_flatMap (by decide) fun x _ => Word.length_toBytes 4 x.bits.toNat, List.map_map]
  exact List.map_id'' readFloat_toBytes xs

theorem foldFrame_floats (frame : List (List UInt8)) :
    foldFrame .f32 frame =
      (foldFloats (frame.map readFloat)).flatMap fun x => Word.toBytes 4 x.bits.toNat := by
  rw [foldFrame, if_pos (show SampleType.f32.isFloat = true from rfl), foldFloats,
    List.flatMap_map]
  rfl

end Downmix

/-! ## Buffers -/

namespace SampleBuffer

variable {b : SampleBuffer}

/-- The values of the whole samples, their bytes taken in host order whatever the format says of it. -/
def hostValues (b : SampleBuffer) : List Int :=
  (wholeGroups b.format.type.bytes b.data).map b.format.type.read

/-- Frames of samples are what the groups of their bytes are read as. -/
theorem wholeGroups_map_wholeGroups {β : Type} {n : Nat} (hn : 0 < n) (f : List UInt8 → β)
    (data : List UInt8) : wholeGroups 6 ((wholeGroups n data).map f) =
      (wholeGroups (6 * n) data).map fun frame => (wholeGroups n frame).map f := by
  rw [wholeGroups_map, wholeGroups_wholeGroups (by decide) hn, List.map_map]
  rfl

theorem frames_downmix_integers (ht : b.format.type = .s16 ∨ b.format.type = .s32) :
    ∃ b', b.downmix = .ok b' ∧ b'.format = b.format ∧
      b'.hostValues = (wholeGroups 6 b.hostValues).flatMap (Downmix.foldIntegers b.format.type) := by
  have hsupported : Downmix.supports b.format.type = true := by
    rcases ht with ht | ht <;> rw [ht] <;> rfl
  have hinteger : b.format.type.isFloat = false := by rcases ht with ht | ht <;> rw [ht] <;> rfl
  have hpos := b.format.type.bytes_pos
  have hdata : ((wholeGroups (6 * b.format.type.bytes) b.data).flatMap fun frame =>
      Downmix.foldFrame b.format.type (wholeGroups b.format.type.bytes frame)) =
      ((wholeGroups 6 b.hostValues).flatMap (Downmix.foldIntegers b.format.type)).flatMap
        b.format.type.write := by
    rw [hostValues, wholeGroups_map_wholeGroups hpos, List.flatMap_map, List.flatMap_assoc]
    exact List.flatMap_congr fun frame _ => Downmix.foldFrame_integers hinteger _
  refine ⟨_, if_pos hsupported, rfl, ?_⟩
  rw [hostValues]
  simp only [hdata]
  rw [wholeGroups_flatMap hpos fun y _ => SampleType.length_write _ y, List.map_map,
    List.map_congr_left (g := id) fun y hy => ?_, List.map_id]
  obtain ⟨frame, -, hy⟩ := List.mem_flatMap.1 hy
  exact SampleType.read_write (Downmix.holds_foldIntegers hy)

theorem frames_downmix_floats (ht : b.format.type = .f32) :
    ∃ b' xs ys, b.downmix = .ok b' ∧ b'.format = b.format ∧ b.toFloats = .ok xs ∧
      b'.toFloats = .ok ys ∧ ys = (wholeGroups 6 xs).flatMap Downmix.foldFloats := by
  have hfloat : b.format.type.isFloat = true := by rw [ht]; rfl
  have hbytes : b.format.type.bytes = 4 := by rw [ht]; rfl
  have hdata : ((wholeGroups (6 * b.format.type.bytes) b.data).flatMap fun frame =>
      Downmix.foldFrame b.format.type (wholeGroups b.format.type.bytes frame)) =
      ((wholeGroups 6 ((wholeGroups 4 b.data).map Downmix.readFloat)).flatMap
        Downmix.foldFloats).flatMap fun x => Word.toBytes 4 x.bits.toNat := by
    rw [wholeGroups_map_wholeGroups (by decide), List.flatMap_map, List.flatMap_assoc, hbytes, ht]
    exact List.flatMap_congr fun frame _ => Downmix.foldFrame_floats _
  refine ⟨_, _, _, if_pos (by rw [ht]; rfl), rfl, if_pos hfloat, if_pos hfloat, ?_⟩
  simp only [hdata]
  exact Downmix.map_readFloat_flatMap _

/-- **The fold of 5.1 frames.**  Output frame after output frame is made of the input frame in its place
and of nothing else.  Integers of any value are folded without leaving the range of their type and near
the matrix, floats within `[-1, 1]` strictly inside. -/
theorem downmix_folds (b : SampleBuffer) :
    (b.format.type = .s16 ∨ b.format.type = .s32 →
      ∃ b', b.downmix = .ok b' ∧ b'.format = b.format ∧
        b'.hostValues = (wholeGroups 6 b.hostValues).flatMap (Downmix.foldIntegers b.format.type) ∧
        wholeGroups 2 b'.hostValues =
          (wholeGroups 6 b.hostValues).map (Downmix.foldIntegers b.format.type) ∧
        ∀ frame ∈ wholeGroups 6 b.hostValues, Downmix.Folds b.format.type frame) ∧
    (b.format.type = .f32 →
      ∃ b' xs ys, b.downmix = .ok b' ∧ b'.format = b.format ∧ b.toFloats = .ok xs ∧
        b'.toFloats = .ok ys ∧ ys = (wholeGroups 6 xs).flatMap Downmix.foldFloats ∧
        wholeGroups 2 ys = (wholeGroups 6 xs).map Downmix.foldFloats ∧
        ∀ frame ∈ wholeGroups 6 xs, (∀ x ∈ frame, Downmix.Within x) →
          Downmix.FoldsInside frame) := by
  constructor
  · intro ht
    obtain ⟨b', hdownmix, hformat, hvalues⟩ := frames_downmix_integers ht
    have hframes : wholeGroups 2 b'.hostValues =
        (wholeGroups 6 b.hostValues).map (Downmix.foldIntegers b.format.type) := by
      rw [hvalues]
      exact wholeGroups_flatMap two_pos fun frame _ => Downmix.length_foldIntegers _ frame
    refine ⟨b', hdownmix, hformat, hvalues, hframes, fun frame hframe => ?_⟩
    refine Downmix.folds_frame ht (length_of_mem_wholeGroups hframe) fun s hs => ?_
    obtain ⟨sample, -, rfl⟩ := List.mem_map.1 (mem_of_mem_wholeGroups hframe hs)
    exact SampleType.holds_value ..
  · intro ht
    obtain ⟨b', xs, ys, hdownmix, hformat, hread, hread', hfloats⟩ := frames_downmix_floats ht
    have hframes : wholeGroups 2 ys = (wholeGroups 6 xs).map Downmix.foldFloats := by
      rw [hfloats]
      exact wholeGroups_flatMap two_pos fun frame _ => Downmix.length_foldFloats frame
    exact ⟨b', xs, ys, hdownmix, hformat, hread, hread', hfloats, hframes, fun frame hframe =>
      Downmix.folds_floats (length_of_mem_wholeGroups hframe)⟩

/-- A frame of integers at full scale, every sign the one of its weight on the left, with a stray byte
after it; and the same frame of floats. -/
theorem downmix_folds_full_scale :
    let b : SampleBuffer := ⟨[0xff, 0x7f, 0, 0x80, 0xff, 0x7f, 0xff, 0x7f, 0, 0x80, 0, 0x80, 9],
      ⟨.s16, .little⟩⟩
    let frame : List Binary32 := [⟨0x3f800000⟩, ⟨0xbf800000⟩, ⟨0x3f800000⟩, ⟨0x3f800000⟩,
      ⟨0xbf800000⟩, ⟨0xbf800000⟩]
    b.format.type = .s16 ∧
      (∃ b', b.downmix = .ok b' ∧ b'.hostValues = [32763, -8430] ∧
        Downmix.Folds .s16 [32767, -32768, 32767, 32767, -32768, -32768]) ∧
      (ofFloats frame).format.type = .f32 ∧ (∀ x ∈ frame, Downmix.Within x) ∧
      Downmix.FoldsInside frame := by
  intro b frame
  obtain ⟨b', hdownmix, -, hvalues, -, hfolds⟩ := (downmix_folds b).1 (.inl rfl)
  obtain ⟨-, xs, -, -, -, hread, -, -, -, hinside⟩ := (downmix_folds (ofFloats frame)).2 rfl
  have hframes : wholeGroups 6 b.hostValues =
      [[32767, -32768, 32767, 32767, -32768, -32768]] := by decide +kernel
  have hfolded : Downmix.foldIntegers .s16 [32767, -32768, 32767, 32767, -32768, -32768] =
      [32763, -8430] := by decide +kernel
  have hone : Downmix.Within ⟨0x3f800000⟩ := by
    refine ⟨1, ?_, by norm_num⟩
    rw [show (Binary32.mk 0x3f800000).number = .finite false 8388608 (-23) by decide +kernel]
    norm_num [Number.At, Number.level, signed]
  have hminusOne : Downmix.Within ⟨0xbf800000⟩ := by
    refine ⟨-1, ?_, by norm_num⟩
    rw [show (Binary32.mk 0xbf800000).number = .finite true 8388608 (-23) by decide +kernel]
    norm_num [Number.At, Number.level, signed]
  have hwithin : ∀ x ∈ frame, Downmix.Within x := by simp [frame, hone, hminusOne]
  have hsamples : (ofFloats frame).toFloats = .ok frame := by decide +kernel
  obtain rfl : frame = xs := Except.ok.inj (hsamples.symm.trans hread)
  rw [hframes] at hvalues hfolds
  refine ⟨rfl, ⟨b', hdownmix, ?_, hfolds _ (List.mem_singleton_self _)⟩, rfl, hwithin, ?_⟩
  · rw [hvalues, List.flatMap_singleton]
    exact hfolded
  · exact hinside frame (by decide +kernel) hwithin

end SampleBuffer

end PcmConversion
