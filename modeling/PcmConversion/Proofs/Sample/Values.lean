import PcmConversion.Proofs.Sample.Requantisation
import PcmConversion.Proofs.Sample.Stages
import Mathlib.Data.Nat.ModEq

/-!
# The values that a buffer holds

`SampleFormat.values` are the centred values of the whole samples of some data.  Stages that only
change how values are written keep them (`values_swapTo`, `values_toggleSign`), and the others
change each value on its own (`values_apply`, `decode_eq_map`, `values_quantise`).
-/

namespace PcmConversion

/-! ## One value -/

/-- Ranges are powers of two. -/
theorem natCast_one_shiftLeft (k : Nat) : ((1 <<< k : Nat) : Int) = 2 ^ k := by
  rw [Nat.one_shiftLeft, Nat.cast_pow, Nat.cast_ofNat]

theorem Number.clamp_mem (v : Number) (rule : Nat → Nat → Nat) {low high : Int} (hlow : low ≤ 0)
    (hhigh : 0 ≤ high) : low ≤ v.clamp rule low high ∧ v.clamp rule low high ≤ high := by
  rcases v with ⟨negative, m, e⟩ | ⟨_ | _⟩ | _
  · simp only [clamp]
    omega
  · exact ⟨hlow.trans hhigh, le_rfl⟩
  · exact ⟨le_rfl, hlow.trans hhigh⟩
  · exact ⟨hlow, hhigh⟩

theorem Quantiser.apply_mem (q : Quantiser) (x : Binary32) (hlow : q.lowest ≤ 0)
    (hhigh : 0 ≤ q.highest) : q.lowest ≤ q.apply x ∧ q.apply x ≤ q.highest :=
  Number.clamp_mem _ _ hlow hhigh

namespace SampleType

variable {t : SampleType}

theorem holds_value (t : SampleType) (w : Nat) : t.Holds (t.value w) := by
  cases t
  all_goals
    simp only [Holds, lowest, highest, half, value, isSigned, bits, Int.bmod, Nat.reduceSub,
      Nat.reduceShiftLeft, if_true, if_false, Bool.false_eq_true]
    omega

theorem value_word {v : Int} (hv : t.Holds v) : t.value (t.word v % 1 <<< (8 * t.bytes)) = v := by
  cases t
  all_goals
    simp only [Holds, lowest, highest, half, value, word, isSigned, bits, bytes, Int.bmod,
      Nat.reduceSub, Nat.reduceMul, Nat.reduceShiftLeft, if_true, if_false, Bool.false_eq_true]
      at hv ⊢
    omega

/-- A value is read as it was written. -/
theorem read_write {v : Int} (hv : t.Holds v) : t.read (t.write v) = v := by
  rw [read, write, Word.ofBytes_toBytes, value_word hv]

theorem isFloat_of_toggledSign {toggled : SampleType} (h : t.toggledSign = some toggled) :
    t.isFloat = false := by
  revert h
  cases t <;> simp [toggledSign, isFloat]

theorem isFloat_toggledSign {toggled : SampleType} (h : t.toggledSign = some toggled) :
    toggled.isFloat = false :=
  isFloat_of_toggledSign (toggledSign_comm.1 h)

theorem exists_toggledSign (hinteger : t.isFloat = false) :
    ∃ toggled, t.toggledSign = some toggled := by
  revert hinteger
  cases t <;> simp [isFloat, toggledSign]

theorem bits_toggledSign {toggled : SampleType} (h : t.toggledSign = some toggled) :
    toggled.bits = t.bits := by
  revert h
  cases t <;> cases toggled <;> simp [toggledSign, bits]

theorem hasByteOrder_toggledSign {toggled : SampleType} (h : t.toggledSign = some toggled) :
    toggled.hasByteOrder = t.hasByteOrder := by
  revert h
  cases t <;> cases toggled <;> decide

/-- To change between signed and unsigned is to add half the range. -/
theorem value_of_toggled {toggled : SampleType} (htoggled : t.toggledSign = some toggled)
    {w w' : Nat} (hw : w' % 1 <<< t.bits = (w + 1 <<< (t.bits - 1)) % 1 <<< t.bits) :
    toggled.value w' = t.value w := by
  cases t
  case f32 => cases htoggled
  all_goals
    cases htoggled
    simp only [half, value, isSigned, bits, Int.bmod, Nat.reduceSub, Nat.reduceShiftLeft, if_true,
      if_false, Bool.false_eq_true] at hw ⊢
    omega

theorem holds_quantise (t : SampleType) (x : Binary32) : t.Holds (t.quantise x) := by
  obtain ⟨hlow, hhigh⟩ := Quantiser.wide.apply_mem x (by decide) (by decide)
  obtain ⟨hlow', hhigh'⟩ := Quantiser.medium.apply_mem x (by decide) (by decide)
  rw [quantise]
  generalize Quantiser.wide.apply x = w at hlow hhigh ⊢
  generalize Quantiser.medium.apply x = m at hlow' hhigh' ⊢
  simp only [Quantiser.wide, Quantiser.medium] at hlow hhigh hlow' hhigh'
  rw [Int.fdiv_eq_ediv_of_nonneg _ (Int.natCast_nonneg _)]
  cases t
  all_goals
    simp only [Holds, lowest, highest, half, bits, Nat.reduceSub, Nat.reduceShiftLeft,
      Nat.reduceEqDiff, if_true, if_false]
    omega

end SampleType

/-! ## Bytes of one sample -/

theorem Word.xor_top (b : UInt8) : b ^^^ 0x80 = b + 0x80 := by
  have hbits : ∀ x : BitVec 8, x ^^^ 0x80#8 = x + 0x80#8 := by decide +kernel
  exact UInt8.toBitVec_inj.1 (hbits b.toBitVec)

/-- Flipping the top bit of a byte adds half of what the bytes up to there can hold. -/
theorem Word.ofBytes_flip {k : Nat} {bs : List UInt8} (hk : k < bs.length) :
    ofBytes (bs.modify k (· ^^^ 0x80)) ≡ ofBytes bs + 128 * 256 ^ k [MOD 256 ^ (k + 1)] := by
  induction k generalizing bs with
  | zero =>
      cases bs with
      | nil => cases hk
      | cons b bs =>
          rw [List.modify_zero_cons, xor_top, ofBytes, ofBytes, UInt8.toNat_add, Nat.ModEq]
          simp only [UInt8.reduceToNat]
          omega
  | succ k ih =>
      cases bs with
      | nil => cases hk
      | cons b bs =>
          have hlater := (ih (Nat.lt_of_succ_lt_succ hk)).mul_left' 256
          rw [List.modify_succ_cons, ofBytes, ofBytes]
          have hall := hlater.add_left b.toNat
          rw [Nat.pow_succ _ (k + 1), Nat.mul_comm _ 256]
          convert hall using 1
          ring

/-- In host order the most significant byte of a value is the last one that it takes. -/
theorem toggleTopBit_of_isNative {F : SampleFormat} (hinteger : F.type.isFloat = false)
    (hnative : F.isNative = true) (sample : List UInt8) :
    toggleTopBit F.type F.order sample = sample.modify ((F.type.bits - 1) / 8) (· ^^^ 0x80) := by
  obtain ⟨t, order⟩ := F
  revert hinteger hnative
  cases t <;> cases order <;>
    first | exact fun _ _ => rfl | exact fun h => absurd h (by decide) |
      exact fun _ h => absurd h (by decide)

theorem SampleType.read_toggleTopBit {F : SampleFormat} {toggled : SampleType}
    (hnative : F.isNative = true) (htoggled : F.type.toggledSign = some toggled)
    {sample : List UInt8} (hlength : sample.length = F.type.bytes) :
    toggled.read (toggleTopBit F.type F.order sample) = F.type.read sample := by
  have hinteger := isFloat_of_toggledSign htoggled
  rw [toggleTopBit_of_isNative hinteger hnative]
  refine value_of_toggled htoggled ?_
  have hbyte : (F.type.bits - 1) / 8 < sample.length := by
    rw [hlength]
    cases F.type <;> decide
  have hflip := Word.ofBytes_flip hbyte
  have htop : 128 * 256 ^ ((F.type.bits - 1) / 8) = 1 <<< (F.type.bits - 1) := by
    cases F.type <;> rfl
  have hrange : 256 ^ ((F.type.bits - 1) / 8 + 1) = 1 <<< F.type.bits := by
    cases F.type <;> rfl
  rwa [htop, hrange] at hflip

theorem Narrowing.cases_of_select {n : Narrowing} {current target : SampleType}
    (h : select current target = some n) :
    (current = .u24 ∨ current = .s24) ∧ n = bits24To16 ∨
      (current = .u32 ∨ current = .s32) ∧
        (n = bits32ToPacked24 ∨ n = bits32To16 ∨ n = bits32To24) := by
  revert h
  cases current <;> cases target <;> rintro ⟨⟩ <;> decide

theorem Narrowing.widths_of_select {n : Narrowing} {current target : SampleType}
    (h : select current target = some n) :
    current.isFloat = false ∧ (n.outputType current).isMedium = true ∧
      current.bits = (n.outputType current).bits + n.shift := by
  rcases cases_of_select h with ⟨rfl | rfl, rfl⟩ | ⟨rfl | rfl, rfl | rfl | rfl⟩ <;> decide

/-- Cutting a value is a division by a power of two, rounded down. -/
theorem Narrowing.read_cut {n : Narrowing} {t target : SampleType} (h : select t target = some n)
    (sample : List UInt8) :
    (n.outputType t).read (n.cut t sample) = (t.read sample).fdiv (1 <<< n.shift : Nat) := by
  rw [Int.fdiv_eq_ediv_of_nonneg _ (Int.natCast_nonneg _), SampleType.read, SampleType.read, cut,
    Word.ofBytes_toBytes, Int.fdiv_eq_ediv_of_nonneg _ (Int.natCast_nonneg _)]
  generalize Word.ofBytes sample = w
  generalize hwide : (w : Int).bmod 0x100000000 = wide
  rcases cases_of_select h with ⟨rfl | rfl, rfl⟩ | ⟨rfl | rfl, rfl | rfl | rfl⟩
  all_goals
    simp only [outputType, shift, SampleType.isSigned, SampleType.value, SampleType.half,
      SampleType.bits, SampleType.bytes, Nat.reduceSub, Nat.reduceMul, Nat.reduceShiftLeft, if_true,
      if_false, Bool.false_eq_true]
  · omega
  · -- Of the extended word only the low 24 bits matter.
    have hlow : wide % 16777216 = w % 16777216 := by
      rw [← hwide, Int.bmod]
      omega
    clear hwide
    simp only [Int.bmod]
    omega
  · omega
  · omega
  · omega
  all_goals
    have hrange : -2147483648 ≤ wide ∧ wide < 2147483648 := by
      rw [← hwide, Int.bmod]
      omega
    rw [hwide]
    clear hwide
    simp only [Int.bmod]
    omega

/-! ## Data in a format -/

namespace SampleFormat

variable {F : SampleFormat}

/-- The bytes of one sample, given in the order of the format, in host order. -/
def toHost (F : SampleFormat) (sample : List UInt8) : List UInt8 :=
  if F.isNative then sample else sample.reverse

/-- The centred value of one sample, given by its bytes in the order of the format. -/
def read (F : SampleFormat) (sample : List UInt8) : Int :=
  F.type.read (if F.isNative then sample else sample.reverse)

/-- The values of the whole samples that the data hold. -/
def values (F : SampleFormat) (data : List UInt8) : List Int :=
  (wholeGroups F.type.bytes data).map F.read

theorem isNative_host (t : SampleType) : (SampleFormat.mk t ByteOrder.host).isNative = true := by
  simp [isNative, ByteOrder.host, ByteOrder.resolve]

theorem isNative_withType (hhas : F.type.hasByteOrder = true) (hnative : F.isNative = true)
    (t : SampleType) : (F.withType t).isNative = true := by
  simp only [isNative, hhas, Bool.not_true, Bool.false_or] at hnative
  show (!t.hasByteOrder || decide (F.order.resolve = ByteOrder.host)) = true
  rw [hnative, Bool.or_true]

theorem isNative_toggled {toggled : SampleType} (htoggled : F.type.toggledSign = some toggled)
    (hnative : F.isNative = true) : (F.withType toggled).isNative = true := by
  rwa [isNative, withType, SampleType.hasByteOrder_toggledSign htoggled]

theorem holds_of_mem_values {data : List UInt8} {v : Int} (hv : v ∈ F.values data) :
    F.type.Holds v := by
  obtain ⟨sample, -, rfl⟩ := List.mem_map.1 hv
  exact SampleType.holds_value ..

@[simp] theorem type_resolved (F : SampleFormat) : F.resolved.type = F.type := rfl

@[simp] theorem isNative_resolved (F : SampleFormat) : F.resolved.isNative = F.isNative := by
  simp only [isNative, resolved, ByteOrder.resolve_resolve]

@[simp] theorem values_resolved (F : SampleFormat) : F.resolved.values = F.values := by
  have hread : F.resolved.read = F.read := by
    funext sample
    rw [read, read, isNative_resolved]
    rfl
  funext data
  rw [values, values, hread]
  rfl

/-- Bytes brought into another order are the same in host order. -/
theorem toHost_withOrder (F : SampleFormat) (order : ByteOrder) (sample : List UInt8) :
    (F.withOrder order).toHost
      (if F.needsSwapTo (F.withOrder order) then sample.reverse else sample) = F.toHost sample := by
  obtain ⟨t, o⟩ := F
  simp only [toHost, withOrder, isNative, needsSwapTo]
  rcases Bool.eq_false_or_eq_true t.hasByteOrder with horder | horder
  · cases o <;> cases order <;> simp [ByteOrder.resolve, ByteOrder.host, horder]
  · simp [horder]

/-- Another byte order reads the same value from the bytes in that order. -/
theorem read_withOrder (F : SampleFormat) (order : ByteOrder) (sample : List UInt8) :
    (F.withOrder order).read
      (if F.needsSwapTo (F.withOrder order) then sample.reverse else sample) = F.read sample :=
  congrArg F.type.read (F.toHost_withOrder order sample)

end SampleFormat

namespace SampleBuffer

variable {b : SampleBuffer}

/-- The values of the whole samples of a buffer. -/
def values (b : SampleBuffer) : List Int :=
  b.format.values b.data

@[simp] theorem values_swapTo (b : SampleBuffer) (order : ByteOrder) :
    (b.swapTo order).values = b.values := by
  have hread := b.format.read_withOrder order
  simp only [values, SampleFormat.values, swapTo]
  split_ifs with hswap
  · simp only [hswap, if_true] at hread
    rw [show (b.format.withOrder order).type.bytes = b.format.type.bytes from rfl,
      wholeGroups_mapGroups b.format.type.bytes_pos fun g hg => by rw [List.length_reverse, hg],
      List.map_map]
    exact List.map_congr_left fun sample _ => hread sample
  · simp only [hswap, Bool.false_eq_true, if_false] at hread
    exact List.map_congr_left fun sample _ => hread sample

theorem values_of_isNative (hnative : b.format.isNative = true) :
    b.values = (wholeGroups b.format.type.bytes b.data).map b.format.type.read :=
  List.map_congr_left fun sample _ => by rw [SampleFormat.read, if_pos hnative]

theorem values_toggleSign {toggled : SampleType} (hnative : b.format.isNative = true)
    (htoggled : b.format.type.toggledSign = some toggled) :
    ∃ b', b.toggleSign = .ok b' ∧ b'.format.type = toggled ∧ b'.values = b.values := by
  have hbytes := SampleType.bytes_toggledSign htoggled
  refine ⟨_, by rw [toggleSign, htoggled], rfl, ?_⟩
  rw [values_of_isNative hnative, values_of_isNative (b := ⟨_, b.format.withType toggled⟩)
    (SampleFormat.isNative_toggled htoggled hnative)]
  simp only [SampleFormat.withType, ← hbytes]
  rw [wholeGroups_mapGroups b.format.type.bytes_pos fun g hg => by
    rw [toggleTopBit, List.length_modify, hg], List.map_map]
  refine List.map_congr_left fun sample hsample => ?_
  exact SampleType.read_toggleTopBit hnative htoggled (length_of_mem_wholeGroups hsample)

/-- A truncation keeps host order, where there is a byte order to keep. -/
theorem isNative_apply (n : Narrowing) (hhas : b.format.type.hasByteOrder = true)
    (hnative : b.format.isNative = true) : (n.apply b).format.isNative = true :=
  SampleFormat.isNative_withType hhas hnative _

theorem values_apply {n : Narrowing} {target : SampleType} (hnative : b.format.isNative = true)
    (hselect : Narrowing.select b.format.type target = some n) :
    (n.apply b).values = b.values.map fun v => v.fdiv (1 <<< n.shift : Nat) := by
  have hbytes := Narrowing.bytes_of_select hselect
  have hhas := Narrowing.hasByteOrder_of_select hselect
  rw [values_of_isNative hnative, values_of_isNative (isNative_apply _ hhas hnative)]
  simp only [Narrowing.apply, SampleFormat.withType, hbytes]
  rw [wholeGroups_flatMap (f := Narrowing.cut _ _) (SampleType.bytes_pos _)
    fun _ _ => Word.length_toBytes .., List.map_map, List.map_map]
  exact List.map_congr_left fun sample _ => Narrowing.read_cut hselect sample

theorem decode_eq_map (hnative : b.format.isNative = true)
    (hinteger : b.format.type.isFloat = false) :
    b.decode = .ok (b.values.map b.format.type.decode) := by
  rw [decode, values_of_isNative hnative, List.map_map]
  exact if_neg (by simp [hinteger])

theorem values_quantise (xs : List Binary32) {t : SampleType} (hinteger : t.isFloat = false) :
    ∃ b, quantise xs t = .ok b ∧ b.format.type = t ∧ b.values = xs.map t.quantise := by
  refine ⟨_, if_neg (by simp [hinteger]), rfl, ?_⟩
  rw [values_of_isNative (SampleFormat.isNative_host t),
    wholeGroups_flatMap t.bytes_pos fun _ _ => t.length_write _, List.map_map]
  exact List.map_congr_left fun x _ => SampleType.read_write (SampleType.holds_quantise t x)

end SampleBuffer

end PcmConversion
