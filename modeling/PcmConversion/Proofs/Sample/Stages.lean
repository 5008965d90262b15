import PcmConversion.Proofs.Bytes.Framewise
import PcmConversion.Sample.Narrowing
import PcmConversion.Sample.Remap
import PcmConversion.Sample.Transcode

/-!
# Stages on sample buffers

Every stage that reinterprets, truncates, transcodes or remaps a buffer is framewise: it treats each
sample (or each frame of the channels that it mixes) on its own, whatever the format.  The lemmas
are about buffers of one format `F`, `SampleBuffer.ofFormat F`, and say which format comes out.
-/

namespace PcmConversion

theorem SampleType.bytes_toggledSign {t toggled : SampleType} (h : t.toggledSign = some toggled) :
    t.bytes = toggled.bytes := by
  revert h
  cases t <;> cases toggled <;> simp [toggledSign, bytes]

namespace SampleBuffer

/-- Bytes as a buffer of a format. -/
def ofFormat (F : SampleFormat) (data : List UInt8) : SampleBuffer :=
  ⟨data, F⟩

variable (F : SampleFormat)

@[simp] theorem data_ofFormat (data : List UInt8) : (ofFormat F data).data = data := rfl

@[simp] theorem format_ofFormat (data : List UInt8) : (ofFormat F data).format = F := rfl

/-- The byte order changes, samples stay where they are. -/
theorem framewise_swapTo (order : ByteOrder) :
    Framewise F.type.bytes F.type.bytes fun data => ((ofFormat F data).swapTo order).data := by
  unfold swapTo
  simp only [data_ofFormat, format_ofFormat]
  by_cases hswap : F.needsSwapTo (F.withOrder order) = true
  · simp only [hswap, if_true]
    exact framewise_mapGroups F.type.bytes_pos fun g hg => by rw [List.length_reverse, hg]
  · simp only [hswap, Bool.false_eq_true, if_false]
    exact .id

theorem toFloats_streams (hfloat : F.type.isFloat = true) :
    Streams F.type.bytes 1 (ofFormat F) toFloats id := by
  have hbytes : F.type.bytes = 4 := by
    revert hfloat
    cases F.type <;> decide
  rw [hbytes]
  refine .of_eq (framewise_map_groups (by decide) fun s => ⟨UInt32.ofNat (Word.ofBytes s)⟩)
    fun xs => ?_
  rw [toFloats]
  exact if_pos hfloat

theorem decode_streams (hinteger : F.type.isFloat = false) :
    Streams F.type.bytes 1 (ofFormat F) decode id := by
  refine .of_eq (framewise_map_groups F.type.bytes_pos fun s => F.type.decode (F.type.read s))
    fun xs => ?_
  rw [decode]
  exact if_neg (by simp [hinteger])

theorem toggleSign_streams {toggled : SampleType} (htoggled : F.type.toggledSign = some toggled) :
    Streams F.type.bytes F.type.bytes (ofFormat F) toggleSign (ofFormat (F.withType toggled)) := by
  refine .of_eq (framewise_mapGroups F.type.bytes_pos (f := toggleTopBit F.type F.order)
    fun g hg => ?_) fun xs => ?_
  · rw [toggleTopBit, List.length_modify, hg]
  · rw [toggleSign, format_ofFormat, htoggled]
    rfl

/-- Floats as the bytes of a buffer. -/
theorem framewise_ofFloats : Framewise 1 4 fun xs => (ofFloats xs).data :=
  framewise_flatMap fun _ => Word.length_toBytes ..

theorem quantise_streams {t : SampleType} (hinteger : t.isFloat = false) :
    Streams 1 t.bytes id (quantise · t)
      (ofFormat ⟨t, ByteOrder.host⟩) := by
  refine .of_eq (framewise_flatMap fun x => SampleType.length_write t (t.quantise x)) fun xs => ?_
  rw [quantise]
  exact if_neg (by simp [hinteger])

theorem monoToStereo_streams :
    Streams F.type.bytes (2 * F.type.bytes) (ofFormat F)
      (fun b => (.ok b.monoToStereo : Except Fault SampleBuffer)) (ofFormat F) := by
  refine .of_eq (framewise_groups F.type.bytes_pos (f := fun s => s ++ s) fun g hg => ?_)
    fun _ => rfl
  rw [List.length_append, hg, Nat.two_mul]

end SampleBuffer

theorem Downmix.length_foldFrame (t : SampleType) (frame : List (List UInt8)) :
    (foldFrame t frame).length = 2 * t.bytes := by
  cases htype : t.isFloat with
  | true =>
      have hbytes : t.bytes = 4 := by
        revert htype
        cases t <;> decide
      simp [foldFrame, htype, hbytes, coefficients, weights]
  | false => simp [foldFrame, htype, coefficients, weights, Nat.two_mul]

theorem SampleBuffer.downmix_streams (F : SampleFormat)
    (hsupported : Downmix.supports F.type = true) :
    Streams (6 * F.type.bytes) (2 * F.type.bytes) (ofFormat F) downmix (ofFormat F) := by
  have hpos : 0 < 6 * F.type.bytes := Nat.mul_pos (by decide) F.type.bytes_pos
  refine .of_eq (framewise_groups hpos
    (f := fun frame => Downmix.foldFrame F.type (wholeGroups F.type.bytes frame))
    fun g _ => Downmix.length_foldFrame ..) fun xs => ?_
  rw [downmix]
  exact if_pos hsupported

/-- A truncation reads four bytes of each sample and writes the bytes of the narrower type. -/
theorem Narrowing.framewise_apply (n : Narrowing) (F : SampleFormat) :
    Framewise 4 (n.outputType F.type).bytes
      fun data => (n.apply (SampleBuffer.ofFormat F data)).data :=
  framewise_groups (by decide) (f := n.cut F.type) fun _ _ => Word.length_toBytes ..

theorem Narrowing.bytes_of_select {n : Narrowing} {current target : SampleType}
    (h : select current target = some n) : current.bytes = 4 := by
  revert h
  cases current <;> cases target <;> simp [select, SampleType.bytes]

/-- Integers are truncated to integers. -/
theorem Narrowing.isFloat_of_select {n : Narrowing} {current target : SampleType}
    (h : select current target = some n) : current.isFloat = false ∧ target.isFloat = false := by
  revert h
  cases current <;> cases target <;> simp [select, SampleType.isFloat]

/-- What is truncated has a byte order. -/
theorem Narrowing.hasByteOrder_of_select {n : Narrowing} {current target : SampleType}
    (h : select current target = some n) : current.hasByteOrder = true := by
  revert h
  cases current <;> cases target <;> simp [select, SampleType.hasByteOrder]

end PcmConversion
