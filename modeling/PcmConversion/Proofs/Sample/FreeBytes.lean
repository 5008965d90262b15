import PcmConversion.Proofs.Sample.ByteOrder
import PcmConversion.Proofs.Sample.Containers

/-!
# The free byte of a container

Samples of 24 bits in containers of four bytes are *blanked* if the free byte of each is set to zero.
Neither the length of data nor the values that they hold are changed by that (`length_blanked`,
`values_blanked`).  A stage either ignores the free bytes, so that it makes the same of blanked
samples (`decode_blanked`, `apply_bits24To16_blanked`), or it only moves samples about, and what it
makes of blanked samples is blanked too (`swapTo_blanked`, `toggleSign_blanked`, `remap_blanked`).
-/

namespace PcmConversion

/-- A container with its free byte, the most significant one, set to zero. -/
def blankSample (order : ByteOrder) (sample : List UInt8) : List UInt8 :=
  sample.set (if order.resolve = .big then 0 else 3) 0

theorem length_blankSample (order : ByteOrder) (sample : List UInt8) :
    (blankSample order sample).length = sample.length :=
  List.length_set

theorem blankSample_congr {order order' : ByteOrder} (h : order.resolve = order'.resolve) :
    blankSample order = blankSample order' := by
  funext sample
  rw [blankSample, blankSample, h]

/-- In the other order the free byte is at the other end. -/
theorem reverse_blankSample {order order' : ByteOrder} (h : order.resolve ≠ order'.resolve)
    (a b c d : UInt8) :
    (blankSample order [a, b, c, d]).reverse = blankSample order' [a, b, c, d].reverse := by
  revert h
  cases order <;> cases order' <;> first | exact fun _ => rfl | exact fun h => absurd rfl h

/-- The free byte is not the one that holds the sign. -/
theorem toggleTopBit_blankSample {t : SampleType} (ht : t.isContainer = true) (order : ByteOrder)
    (a b c d : UInt8) :
    toggleTopBit t order (blankSample order [a, b, c, d]) =
      blankSample order (toggleTopBit t order [a, b, c, d]) := by
  revert ht
  cases t <;> intro ht <;> cases ht <;> cases order <;> rfl

/-- To read a container its free byte is not needed. -/
theorem SampleType.read_set {t : SampleType} (ht : t.isContainer = true) {sample : List UInt8}
    (hlength : sample.length = 4) : t.read (sample.set 3 0) = t.read sample := by
  obtain ⟨a, b, c, d, rfl⟩ := exists_of_length_eq_four hlength
  have hbits : t.bits = 24 := by
    revert ht
    cases t <;> decide
  have hlow : Word.ofBytes [a, b, c, 0] % 16777216 = Word.ofBytes [a, b, c, d] % 16777216 := by
    simp only [Word.ofBytes]
    omega
  show t.value (Word.ofBytes [a, b, c, 0]) = t.value (Word.ofBytes [a, b, c, d])
  generalize Word.ofBytes [a, b, c, 0] = w at hlow ⊢
  generalize Word.ofBytes [a, b, c, d] = w' at hlow ⊢
  simp only [value, half, hbits, Int.bmod, Nat.reduceShiftLeft]
  split_ifs <;> omega

/-- Neither is it to truncate one to 16 bits. -/
theorem Narrowing.cut_set {t : SampleType} (ht : t.isContainer = true) {sample : List UInt8}
    (hlength : sample.length = 4) :
    bits24To16.cut t (sample.set 3 0) = bits24To16.cut t sample := by
  obtain ⟨a, b, c, d, rfl⟩ := exists_of_length_eq_four hlength
  have hlow : Word.ofBytes [a, b, c, 0] % 16777216 = Word.ofBytes [a, b, c, d] % 16777216 := by
    simp only [Word.ofBytes]
    omega
  have hcount : (bits24To16.outputType t).bytes = 2 := by
    revert ht
    cases t <;> decide
  show bits24To16.cut t [a, b, c, 0] = _
  rw [cut, cut, hcount, Int.fdiv_eq_ediv_of_nonneg _ (Int.natCast_nonneg _),
    Int.fdiv_eq_ediv_of_nonneg _ (Int.natCast_nonneg _)]
  generalize Word.ofBytes [a, b, c, 0] = w at hlow ⊢
  generalize Word.ofBytes [a, b, c, d] = w' at hlow ⊢
  refine congrArg (Word.toBytes 2) (congrArg Int.toNat ?_)
  simp only [shift, Int.bmod, Nat.reduceShiftLeft, Nat.reduceMul]
  split_ifs <;> omega

/-! ## Data in a format -/

namespace SampleFormat

variable {F : SampleFormat}

/-- Data in which the free byte of every whole container is zero.  Samples of other types have no
free byte. -/
def blanked (F : SampleFormat) (data : List UInt8) : List UInt8 :=
  if F.type.isContainer then mapGroups 4 (blankSample F.order) data else data

theorem blanked_of_isContainer (h : F.type.isContainer = true) (data : List UInt8) :
    F.blanked data = mapGroups F.type.bytes (blankSample F.order) data := by
  rw [(SampleType.layout_container h).1]
  exact if_pos h

theorem blanked_of_not_isContainer (h : F.type.isContainer = false) (data : List UInt8) :
    F.blanked data = data :=
  if_neg (by simp [h])

/-- The groups of blanked data. -/
theorem wholeGroups_blanked (h : F.type.isContainer = true) (data : List UInt8) :
    wholeGroups F.type.bytes (F.blanked data) =
      (wholeGroups F.type.bytes data).map (blankSample F.order) := by
  rw [blanked_of_isContainer h]
  exact wholeGroups_mapGroups F.type.bytes_pos
    (fun g hg => (length_blankSample _ g).trans hg) data

@[simp] theorem length_blanked (F : SampleFormat) (data : List UInt8) :
    (F.blanked data).length = data.length := by
  cases h : F.type.isContainer with
  | true =>
      rw [blanked_of_isContainer h]
      exact length_mapGroups (fun g hg => (length_blankSample _ g).trans hg) data
  | false => rw [blanked_of_not_isContainer h]

/-- In host order the free byte is the last one. -/
theorem toHost_blankSample (h : F.type.isContainer = true) {sample : List UInt8}
    (hlength : sample.length = 4) :
    F.toHost (blankSample F.order sample) = (F.toHost sample).set 3 0 := by
  obtain ⟨a, b, c, d, rfl⟩ := exists_of_length_eq_four hlength
  obtain ⟨t, order⟩ := F
  revert h
  cases t <;> intro h <;> cases h <;> cases order <;> rfl

@[simp] theorem values_blanked (F : SampleFormat) (data : List UInt8) :
    F.values (F.blanked data) = F.values data := by
  cases h : F.type.isContainer with
  | false => rw [blanked_of_not_isContainer h]
  | true =>
      rw [values, wholeGroups_blanked h, List.map_map]
      refine List.map_congr_left fun sample hsample => ?_
      have hlength : sample.length = 4 :=
        (length_of_mem_wholeGroups hsample).trans (SampleType.layout_container h).1
      show F.type.read (F.toHost (blankSample F.order sample)) = F.type.read (F.toHost sample)
      rw [toHost_blankSample h hlength,
        SampleType.read_set h ((F.length_toHost sample).trans hlength)]

end SampleFormat

/-! ## Stages -/

namespace SampleBuffer

variable {b : SampleBuffer}

/-- The buffer with its data blanked. -/
def blanked (b : SampleBuffer) : SampleBuffer :=
  { b with data := b.format.blanked b.data }

@[simp] theorem format_blanked (b : SampleBuffer) : b.blanked.format = b.format := rfl

@[simp] theorem blanked_data (b : SampleBuffer) : b.blanked.data = b.format.blanked b.data := rfl

theorem blanked_of_not_isContainer (h : b.format.type.isContainer = false) : b.blanked = b := by
  rw [blanked, SampleFormat.blanked_of_not_isContainer h]

theorem decode_blanked (hnative : b.format.isNative = true)
    (hinteger : b.format.type.isFloat = false) : b.blanked.decode = b.decode := by
  rw [decode_eq_map (b := b.blanked) hnative hinteger, decode_eq_map hnative hinteger]
  simp only [values, format_blanked, blanked_data, SampleFormat.values_blanked]

theorem apply_bits24To16_blanked (h : b.format.type.isContainer = true)
    (hnative : b.format.isNative = true) :
    Narrowing.bits24To16.apply b.blanked = Narrowing.bits24To16.apply b := by
  have hgroups := SampleFormat.wholeGroups_blanked h b.data
  rw [(SampleType.layout_container h).1] at hgroups
  have hcut : (wholeGroups 4 b.blanked.data).flatMap (Narrowing.bits24To16.cut b.format.type) =
      (wholeGroups 4 b.data).flatMap (Narrowing.bits24To16.cut b.format.type) := by
    rw [blanked_data, hgroups, List.flatMap_map]
    refine List.flatMap_congr fun sample hsample => ?_
    have hlength : sample.length = 4 := length_of_mem_wholeGroups hsample
    have hset := SampleFormat.toHost_blankSample h hlength
    rw [SampleFormat.toHost_of_isNative hnative, SampleFormat.toHost_of_isNative hnative] at hset
    rw [hset, Narrowing.cut_set h hlength]
  rw [Narrowing.apply, Narrowing.apply, format_blanked, hcut]

/-- What moves the bytes of each container about moves the free byte, too. -/
theorem mapGroups_blanked {F G : SampleFormat} (hF : F.type.isContainer = true)
    (hG : G.type.isContainer = true) {f : List UInt8 → List UInt8}
    (hlength : ∀ sample, (f sample).length = sample.length)
    (hfree : ∀ a b c d, f (blankSample F.order [a, b, c, d]) = blankSample G.order (f [a, b, c, d]))
    (data : List UInt8) :
    mapGroups F.type.bytes f (F.blanked data) = G.blanked (mapGroups F.type.bytes f data) := by
  have hbytes := SampleType.layout_container hF
  have hkept : ∀ g : List UInt8, g.length = F.type.bytes → (f g).length = F.type.bytes :=
    fun g hg => (hlength g).trans hg
  rw [SampleFormat.blanked_of_isContainer hF, SampleFormat.blanked_of_isContainer hG,
    (SampleType.layout_container hG).1, ← hbytes.1,
    mapGroups_mapGroups F.type.bytes_pos fun g hg => (length_blankSample _ g).trans hg,
    mapGroups_mapGroups F.type.bytes_pos hkept]
  refine mapGroups_congr (fun sample hsample => ?_) data
  obtain ⟨a, b, c, d, rfl⟩ := exists_of_length_eq_four (hsample.trans hbytes.1)
  exact hfree a b c d

theorem swapTo_blanked (b : SampleBuffer) (order : ByteOrder) :
    b.blanked.swapTo order = (b.swapTo order).blanked := by
  cases h : b.format.type.isContainer with
  | false =>
      rw [blanked_of_not_isContainer h,
        blanked_of_not_isContainer (b := b.swapTo order) h]
  | true =>
      have horder : b.format.type.hasByteOrder = true := by
        revert h
        cases b.format.type <;> decide
      refine congrArg (SampleBuffer.mk · (b.format.withOrder order)) ?_
      show b.format.reorder (b.format.withOrder order) (b.format.blanked b.data) =
        (b.format.withOrder order).blanked (b.format.reorder (b.format.withOrder order) b.data)
      unfold SampleFormat.reorder
      by_cases hswap : b.format.needsSwapTo (b.format.withOrder order) = true
      · rw [if_pos hswap, if_pos hswap]
        simp only [SampleFormat.needsSwapTo, horder, Bool.true_and, bne_iff_ne, ne_eq] at hswap
        exact mapGroups_blanked (G := b.format.withOrder order) h h (fun _ => List.length_reverse)
          (reverse_blankSample hswap) b.data
      · rw [if_neg hswap, if_neg hswap]
        simp only [SampleFormat.needsSwapTo, horder, Bool.true_and, bne_iff_ne, ne_eq,
          not_not] at hswap
        rw [SampleFormat.blanked, SampleFormat.blanked, blankSample_congr hswap]
        rfl

theorem toggleSign_blanked (h : b.format.type.isContainer = true) :
    b.blanked.toggleSign = b.toggleSign.map blanked := by
  obtain ⟨toggled, htoggled, hcontainer⟩ : ∃ toggled, b.format.type.toggledSign = some toggled ∧
      toggled.isContainer = true := by
    revert h
    cases b.format.type <;> decide
  rw [toggleSign_of_toggled htoggled, toggleSign_of_toggled (b := b.blanked) htoggled]
  refine congrArg (fun data => Except.ok (SampleBuffer.mk data (b.format.withType toggled))) ?_
  exact mapGroups_blanked (G := b.format.withType toggled) h hcontainer
    (fun sample => by rw [toggleTopBit, List.length_modify])
    (toggleTopBit_blankSample h b.format.order) b.data

theorem monoToStereo_blanked (b : SampleBuffer) :
    b.blanked.monoToStereo = b.monoToStereo.blanked := by
  cases h : b.format.type.isContainer with
  | false =>
      rw [blanked_of_not_isContainer h, blanked_of_not_isContainer (b := b.monoToStereo) h]
  | true =>
      refine congrArg (SampleBuffer.mk · b.format) ?_
      show (wholeGroups b.format.type.bytes (b.format.blanked b.data)).flatMap (fun s => s ++ s) =
        b.format.blanked b.monoToStereo.data
      rw [SampleFormat.wholeGroups_blanked h, SampleFormat.blanked_of_isContainer h, mapGroups,
        leftover_monoToStereo, wholeGroups_monoToStereo]
      simp [List.flatMap_assoc, List.flatMap_map]

/-- Containers are not folded in their own width, so their channels are only repeated. -/
theorem remap_blanked (h : b.format.type.isContainer = true) (source target : UInt16) :
    b.blanked.remap source target = (b.remap source target).map blanked := by
  simp only [remap]
  split_ifs with hmono hfold
  · rw [monoToStereo_blanked]
    rfl
  · simp only [downmix, format_blanked, SampleType.downmix_container h]
    rfl
  · rfl

end SampleBuffer

end PcmConversion
