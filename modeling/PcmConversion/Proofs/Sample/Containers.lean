import PcmConversion.Proofs.Sample.Values

/-!
# Canonical words

A 24-bit sample in a container of four bytes leaves one byte free.  A sample is *canonical* if it is
what its type writes for the value that it holds: then the free byte repeats the sign in a signed
container (`canonical_s24_iff`) and is zero in an unsigned one (`canonical_u24_iff`).  Values are
written canonically, by quantisation and by truncation alike (`SampleBuffer.each_quantise`,
`SampleBuffer.each_apply_bits32To24`).  A sign toggle does not touch the free byte, so what it makes
of a canonical sample is *flipped*: canonical again once the top bit is flipped back, and canonical
as it is only for values that are not negative (`SampleType.Flipped.canonical_iff`).
-/

namespace PcmConversion

theorem exists_of_length_eq_four {α : Type} {xs : List α} (h : xs.length = 4) :
    ∃ a b c d, xs = [a, b, c, d] := by
  match xs, h with
  | [a, b, c, d], _ => exact ⟨a, b, c, d, rfl⟩

theorem Word.eq_of_ofBytes_eq {xs ys : List UInt8} (hlength : xs.length = ys.length)
    (h : ofBytes xs = ofBytes ys) : xs = ys := by
  rw [← toBytes_ofBytes xs, ← toBytes_ofBytes ys, hlength, h]

/-! ## One sample in host order -/

namespace SampleType

variable {t : SampleType} {sample : List UInt8}

/-- The sample is written as its type writes the value that it holds. -/
def Canonical (t : SampleType) (sample : List UInt8) : Prop :=
  t.write (t.read sample) = sample

instance : Decidable (t.Canonical sample) :=
  inferInstanceAs (Decidable (t.write (t.read sample) = sample))

/-- The sample with its top bit flipped is canonical for the type of the other signedness. -/
def Flipped (t : SampleType) (sample : List UInt8) : Prop :=
  ∃ toggled, t.toggledSign = some toggled ∧
    toggled.Canonical (toggleTopBit t ByteOrder.host sample)

/-- Whether samples are 24 bits in a container of four bytes. -/
def isContainer : SampleType → Bool
  | u24 | s24 => true
  | _ => false

theorem layout_container (ht : t.isContainer = true) :
    t.bytes = 4 ∧ t.isFloat = false := by
  revert ht
  cases t <;> decide

theorem downmix_container (ht : t.isContainer = true) :
    Downmix.supports t = false := by
  revert ht
  cases t <;> decide

theorem canonical_write {v : Int} (hv : t.Holds v) : t.Canonical (t.write v) := by
  rw [Canonical, read_write hv]

/-- A sample is canonical if it spells the word of its value. -/
theorem canonical_iff (hlength : sample.length = t.bytes) :
    t.Canonical sample ↔ t.word (t.read sample) % 1 <<< (8 * t.bytes) = Word.ofBytes sample := by
  rw [← Word.ofBytes_toBytes]
  constructor
  · intro hcanonical
    exact congrArg Word.ofBytes hcanonical
  · intro hword
    exact Word.eq_of_ofBytes_eq ((length_write ..).trans hlength.symm) hword

/-! ### The free byte of a container -/

section Containers

variable (a b c d : UInt8)

theorem canonical_s24_iff : s24.Canonical [a, b, c, d] ↔ d = if c < 0x80 then 0 else 0xff := by
  have ha := a.toNat_lt
  have hb := b.toNat_lt
  have hc := c.toNat_lt
  have hd := d.toNat_lt
  rw [canonical_iff rfl, ← UInt8.toNat_inj]
  -- What the sign adds to the word depends on the top bit alone.
  by_cases hsign : c.toNat < 128
  all_goals
    simp only [read, value, word, isSigned, bits, bytes, Word.ofBytes, Int.bmod, Nat.reduceMul,
      Nat.reduceShiftLeft, if_true, UInt8.lt_iff_toNat_lt, UInt8.reduceToNat, hsign, if_false]
    omega

theorem canonical_u24_iff : u24.Canonical [a, b, c, d] ↔ d = 0 := by
  have ha := a.toNat_lt
  have hb := b.toNat_lt
  have hc := c.toNat_lt
  have hd := d.toNat_lt
  rw [canonical_iff rfl, ← UInt8.toNat_inj]
  simp only [read, value, word, half, isSigned, bits, bytes, Word.ofBytes, Nat.reduceMul,
    Nat.reduceSub, Nat.reduceShiftLeft, Bool.false_eq_true, if_false, UInt8.reduceToNat]
  omega

theorem flipped_s24_iff : s24.Flipped [a, b, c, d] ↔ d = 0 := by
  have htoggled : s24.Flipped [a, b, c, d] ↔ u24.Canonical [a, b, c ^^^ 0x80, d] := by
    constructor
    · rintro ⟨_, ⟨⟩, hcanonical⟩
      exact hcanonical
    · intro hcanonical
      exact ⟨u24, rfl, hcanonical⟩
  rw [htoggled, canonical_u24_iff]

theorem flipped_u24_iff : u24.Flipped [a, b, c, d] ↔ d = if c < 0x80 then 0xff else 0 := by
  have htoggled : u24.Flipped [a, b, c, d] ↔ s24.Canonical [a, b, c ^^^ 0x80, d] := by
    constructor
    · rintro ⟨_, ⟨⟩, hcanonical⟩
      exact hcanonical
    · intro hcanonical
      exact ⟨s24, rfl, hcanonical⟩
  have htop : c ^^^ 0x80 < 0x80 ↔ ¬c < 0x80 := by
    have hc := c.toNat_lt
    rw [Word.xor_top, UInt8.lt_iff_toNat_lt, UInt8.lt_iff_toNat_lt, UInt8.toNat_add]
    simp only [UInt8.reduceToNat]
    omega
  rw [htoggled, canonical_s24_iff]
  simp only [htop, ite_not]

theorem read_s24_nonneg_iff : 0 ≤ s24.read [a, b, c, d] ↔ c < 0x80 := by
  have ha := a.toNat_lt
  have hb := b.toNat_lt
  have hc := c.toNat_lt
  rw [UInt8.lt_iff_toNat_lt]
  simp only [read, value, isSigned, bits, Word.ofBytes, Int.bmod, Nat.reduceShiftLeft, if_true,
    UInt8.reduceToNat]
  omega

theorem read_u24_nonneg_iff : 0 ≤ u24.read [a, b, c, d] ↔ ¬c < 0x80 := by
  have ha := a.toNat_lt
  have hb := b.toNat_lt
  have hc := c.toNat_lt
  rw [UInt8.lt_iff_toNat_lt]
  simp only [read, value, half, isSigned, bits, Word.ofBytes, Nat.reduceSub, Nat.reduceShiftLeft,
    Bool.false_eq_true, if_false, UInt8.reduceToNat]
  omega

end Containers

/-- Of flipped samples those of negative values are not canonical. -/
theorem Flipped.canonical_iff (h : t.Flipped sample) (hcontainer : t.isContainer = true)
    (hlength : sample.length = 4) : t.Canonical sample ↔ 0 ≤ t.read sample := by
  obtain ⟨a, b, c, d, rfl⟩ := exists_of_length_eq_four hlength
  cases t
  case s24 =>
      rw [flipped_s24_iff] at h
      rw [canonical_s24_iff, read_s24_nonneg_iff, h]
      by_cases hc : c < 0x80
      · simp [hc]
      · simp [hc]
  case u24 =>
      rw [flipped_u24_iff] at h
      rw [canonical_u24_iff, read_u24_nonneg_iff, h]
      by_cases hc : c < 0x80
      · simp [hc]
      · simp [hc]
  all_goals cases hcontainer

end SampleType

/-- The truncation into a container writes the value that it cuts out. -/
theorem Narrowing.exists_cut_bits32To24 {t : SampleType} (ht : t = .u32 ∨ t = .s32)
    {sample : List UInt8} (hlength : sample.length = 4) :
    ∃ v, (bits32To24.outputType t).Holds v ∧
      bits32To24.cut t sample = (bits32To24.outputType t).write v := by
  have hword := Word.ofBytes_lt sample
  rw [hlength] at hword
  rw [cut, Int.fdiv_eq_ediv_of_nonneg _ (Int.natCast_nonneg _)]
  generalize Word.ofBytes sample = w at hword ⊢
  rcases ht with rfl | rfl
  · refine ⟨(w : Int) / 256 - 8388608, ?_, ?_⟩
    all_goals
      simp only [outputType, shift, SampleType.Holds, SampleType.lowest, SampleType.highest,
        SampleType.write, SampleType.word, SampleType.half, SampleType.isSigned, SampleType.bits,
        SampleType.bytes, Nat.reduceSub, Nat.reduceMul, Nat.reduceShiftLeft, Bool.false_eq_true,
        if_false] at hword ⊢
    · omega
    · congr 2
      omega
  · refine ⟨(w : Int).bmod 4294967296 / 256, ?_, ?_⟩
    all_goals
      simp only [outputType, shift, SampleType.Holds, SampleType.lowest, SampleType.highest,
        SampleType.write, SampleType.word, SampleType.half, SampleType.isSigned, SampleType.bits,
        SampleType.bytes, Nat.reduceSub, Nat.reduceMul, Nat.reduceShiftLeft, if_true]
    · rw [Int.bmod]
      omega
    · rfl

/-! ## Data in a format -/

/-- Toggling twice restores the sample. -/
theorem toggleTopBit_toggled {F : SampleFormat} {toggled : SampleType}
    (hnative : F.isNative = true) (htoggled : F.type.toggledSign = some toggled)
    (sample : List UInt8) :
    toggleTopBit toggled ByteOrder.host (toggleTopBit F.type F.order sample) = sample := by
  have hinteger := SampleType.isFloat_of_toggledSign htoggled
  have hback : toggleTopBit toggled ByteOrder.host (toggleTopBit F.type F.order sample) =
      (toggleTopBit F.type F.order sample).modify ((F.type.bits - 1) / 8) (· ^^^ 0x80) := by
    revert htoggled
    cases F.type <;> intro htoggled <;> cases htoggled <;> rfl
  have htwice : ((· ^^^ 0x80) ∘ (· ^^^ 0x80) : UInt8 → UInt8) = id := by
    funext b
    show (b ^^^ 0x80) ^^^ 0x80 = b
    rw [UInt8.xor_assoc, UInt8.xor_self, UInt8.xor_zero]
  rw [hback, toggleTopBit_of_isNative hinteger hnative, List.modify_modify_eq, htwice,
    List.modify_id]

namespace SampleFormat

variable {F : SampleFormat} {P : List UInt8 → Prop} {data : List UInt8}

/-- Every whole sample of the data has the property, in host order. -/
def Each (F : SampleFormat) (P : List UInt8 → Prop) (data : List UInt8) : Prop :=
  ∀ sample ∈ wholeGroups F.type.bytes data, P (F.toHost sample)

instance [DecidablePred P] : Decidable (F.Each P data) :=
  inferInstanceAs (Decidable (∀ sample ∈ wholeGroups F.type.bytes data, P (F.toHost sample)))

theorem length_toHost (F : SampleFormat) (sample : List UInt8) :
    (F.toHost sample).length = sample.length := by
  rw [toHost]
  split
  · rfl
  · exact List.length_reverse

theorem each_nil : F.Each P [] := by
  intro sample hsample
  rw [wholeGroups, List.length_nil, Nat.zero_div] at hsample
  cases hsample

theorem toHost_of_isNative (hnative : F.isNative = true) (sample : List UInt8) :
    F.toHost sample = sample :=
  if_pos hnative

theorem each_of_isNative (hnative : F.isNative = true) :
    F.Each P data ↔ ∀ sample ∈ wholeGroups F.type.bytes data, P sample := by
  simp only [Each, toHost_of_isNative hnative]

@[simp] theorem each_resolved (F : SampleFormat) : F.resolved.Each = F.Each := by
  have hhost : F.resolved.toHost = F.toHost := by
    funext sample
    rw [toHost, toHost, isNative_resolved]
  funext P data
  rw [Each, Each, hhost]
  rfl

end SampleFormat

namespace SampleBuffer

variable {b : SampleBuffer} {P : List UInt8 → Prop}

theorem each_swapTo (h : b.format.Each P b.data) (order : ByteOrder) :
    (b.swapTo order).format.Each P (b.swapTo order).data := by
  have hhost := b.format.toHost_withOrder order
  intro sample hsample
  simp only [swapTo] at hsample ⊢
  split_ifs at hsample with hswap
  · simp only [hswap, if_true] at hhost
    rw [show (b.format.withOrder order).type.bytes = b.format.type.bytes from rfl,
      wholeGroups_mapGroups b.format.type.bytes_pos fun g hg => by rw [List.length_reverse, hg]]
      at hsample
    obtain ⟨original, horiginal, rfl⟩ := List.mem_map.1 hsample
    rw [hhost]
    exact h original horiginal
  · simp only [hswap, Bool.false_eq_true, if_false] at hhost
    rw [hhost]
    exact h sample hsample

/-- The samples of a buffer that was made stereo, each twice. -/
theorem wholeGroups_monoToStereo (b : SampleBuffer) :
    wholeGroups b.format.type.bytes b.monoToStereo.data =
      (wholeGroups b.format.type.bytes b.data).flatMap fun sample => [sample, sample] := by
  have hdata : b.monoToStereo.data = ((wholeGroups b.format.type.bytes b.data).flatMap
      fun sample => [sample, sample]).flatMap id := by
    simp [monoToStereo, List.flatMap_assoc]
  rw [hdata, wholeGroups_flatMap b.format.type.bytes_pos, List.map_id]
  intro sample hsample
  obtain ⟨original, horiginal, hmem⟩ := List.mem_flatMap.1 hsample
  have hsame : sample = original := by simpa using hmem
  rw [hsame]
  exact length_of_mem_wholeGroups horiginal

theorem leftover_monoToStereo (b : SampleBuffer) :
    leftover b.format.type.bytes b.monoToStereo.data = [] := by
  refine leftover_eq_nil ?_
  rw [monoToStereo, length_flatMap_of_length fun g hg => by
    rw [List.length_append, length_of_mem_wholeGroups hg, ← Nat.mul_two]]
  exact Dvd.dvd.mul_left (Nat.dvd_mul_right _ _) _

theorem each_monoToStereo (h : b.format.Each P b.data) :
    b.monoToStereo.format.Each P b.monoToStereo.data := by
  intro sample hsample
  have htwice : sample ∈ (wholeGroups b.format.type.bytes b.data).flatMap fun s => [s, s] := by
    rw [← wholeGroups_monoToStereo]
    exact hsample
  obtain ⟨original, horiginal, hmem⟩ := List.mem_flatMap.1 htwice
  have hsame : sample = original := by simpa using hmem
  rw [hsame]
  exact h original horiginal

/-- Whatever is quantised is written canonically. -/
theorem each_quantise {xs : List Binary32} {t : SampleType} (h : quantise xs t = .ok b) :
    b.format.type = t ∧ b.format.Each t.Canonical b.data := by
  unfold quantise at h
  split_ifs at h
  obtain rfl := Except.ok.inj h
  refine ⟨rfl, ?_⟩
  rw [SampleFormat.each_of_isNative (SampleFormat.isNative_host t),
    wholeGroups_flatMap t.bytes_pos fun _ _ => t.length_write _]
  intro sample hsample
  obtain ⟨x, -, rfl⟩ := List.mem_map.1 hsample
  exact SampleType.canonical_write (SampleType.holds_quantise t x)

/-- A toggle flips what was canonical. -/
theorem each_toggleSign {b' : SampleBuffer} {toggled : SampleType}
    (hnative : b.format.isNative = true) (htoggled : b.format.type.toggledSign = some toggled)
    (h : b.toggleSign = .ok b') (hcanonical : b.format.Each b.format.type.Canonical b.data) :
    b'.format.Each toggled.Flipped b'.data := by
  rw [toggleSign, htoggled] at h
  obtain rfl := Except.ok.inj h
  have hback := SampleType.toggledSign_comm.1 htoggled
  rw [SampleFormat.each_of_isNative hnative] at hcanonical
  rw [SampleFormat.each_of_isNative (SampleFormat.isNative_toggled htoggled hnative)]
  simp only [SampleFormat.withType, ← SampleType.bytes_toggledSign htoggled]
  rw [wholeGroups_mapGroups b.format.type.bytes_pos fun g hg => by
    rw [toggleTopBit, List.length_modify, hg]]
  intro sample hsample
  obtain ⟨original, horiginal, rfl⟩ := List.mem_map.1 hsample
  refine ⟨b.format.type, hback, ?_⟩
  rw [toggleTopBit_toggled hnative htoggled]
  exact hcanonical original horiginal

/-- A truncation into containers writes them canonically. -/
theorem each_apply_bits32To24 (hnative : b.format.isNative = true)
    (ht : b.format.type = .u32 ∨ b.format.type = .s32) :
    (Narrowing.bits32To24.apply b).format.isNative = true ∧
      (Narrowing.bits32To24.apply b).format.Each
        (Narrowing.bits32To24.outputType b.format.type).Canonical
        (Narrowing.bits32To24.apply b).data := by
  have hhas : b.format.type.hasByteOrder = true := by
    rcases ht with ht | ht <;> rw [ht] <;> rfl
  have hnative' := isNative_apply .bits32To24 hhas hnative
  refine ⟨hnative', ?_⟩
  rw [SampleFormat.each_of_isNative hnative']
  simp only [Narrowing.apply, SampleFormat.withType]
  rw [wholeGroups_flatMap (f := Narrowing.cut _ _) (SampleType.bytes_pos _)
    fun _ _ => Word.length_toBytes ..]
  intro sample hsample
  obtain ⟨original, horiginal, rfl⟩ := List.mem_map.1 hsample
  obtain ⟨v, hv, hcut⟩ :=
    Narrowing.exists_cut_bits32To24 ht (length_of_mem_wholeGroups horiginal)
  rw [hcut]
  exact SampleType.canonical_write hv

end SampleBuffer

end PcmConversion
