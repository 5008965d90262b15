import PcmConversion.Proofs.Sample.ByteOrder
import PcmConversion.Proofs.Sample.Containers

/-!
# Sign and byte order in place

A buffer may be toggled between signed and unsigned and swapped between byte orders any number of
times.  `InPlace` are the single steps and `SampleBuffer.transformAll` runs a list of them.  Whatever
the list, the bytes keep up with their description (`transformAll_in_step`): in host order every
whole sample is the old one, with its top bit flipped after an odd number of toggles, and written in
the order of the last swap.  The step lemma is `transform_rearranged`; the run lemma
`transformAll_rearranged` follows by induction over the list.
-/

namespace PcmConversion

/-! ## One sample -/

/-- Numbers spelled by bytes are combined byte by byte. -/
theorem Word.xor_cons (b c : UInt8) (v w : Nat) :
    (b.toNat + 256 * v) ^^^ (c.toNat + 256 * w) = (b ^^^ c).toNat + 256 * (v ^^^ w) := by
  have hsplit : ∀ (b : UInt8) (w : Nat), (b.toNat + 256 * w) % 2 ^ 8 = b.toNat ∧
      (b.toNat + 256 * w) / 2 ^ 8 = w := by
    intro b w
    have hb := b.toNat_lt
    constructor <;> omega
  have hlow : ((b.toNat + 256 * v) ^^^ (c.toNat + 256 * w)) % 2 ^ 8 = (b ^^^ c).toNat := by
    rw [Nat.xor_mod_two_pow, (hsplit b v).1, (hsplit c w).1, UInt8.toNat_xor]
  have hhigh : ((b.toNat + 256 * v) ^^^ (c.toNat + 256 * w)) / 2 ^ 8 = v ^^^ w := by
    rw [Nat.xor_div_two_pow, (hsplit b v).2, (hsplit c w).2]
  omega

/-- Flipping the top bit of a byte flips one bit of the number that the bytes spell. -/
theorem Word.ofBytes_modify {k : Nat} {bs : List UInt8} (hk : k < bs.length) :
    ofBytes (bs.modify k (· ^^^ 0x80)) = ofBytes bs ^^^ 1 <<< (8 * k + 7) := by
  induction k generalizing bs with
  | zero =>
      cases bs with
      | nil => cases hk
      | cons b bs =>
          rw [List.modify_zero_cons, ofBytes, ofBytes]
          exact ((xor_cons b 0x80 (ofBytes bs) 0).trans (by rw [Nat.xor_zero])).symm
  | succ k ih =>
      cases bs with
      | nil => cases hk
      | cons b bs =>
          -- The flipped bit lies in the later bytes, so the first one is kept.
          have hbit : 1 <<< (8 * (k + 1) + 7) = (0 : UInt8).toNat + 256 * 1 <<< (8 * k + 7) := by
            simp only [Nat.one_shiftLeft, show 8 * (k + 1) + 7 = 8 + (8 * k + 7) by omega,
              Nat.pow_add _ 8, UInt8.toNat_zero, Nat.zero_add]
          have hlater := ih (Nat.lt_of_succ_lt_succ hk)
          rw [List.modify_succ_cons, ofBytes, ofBytes, hlater, hbit, xor_cons, UInt8.xor_zero]

namespace SampleType

/-- A sample in host order with bit `bits - 1` of its word flipped. -/
def flipTop (t : SampleType) (sample : List UInt8) : List UInt8 :=
  Word.toBytes t.bytes (Word.ofBytes sample ^^^ 1 <<< (t.bits - 1))

variable {t toggled : SampleType} {sample : List UInt8}

@[simp] theorem length_flipTop (t : SampleType) (sample : List UInt8) :
    (t.flipTop sample).length = t.bytes :=
  Word.length_toBytes ..

theorem flipTop_toggledSign (h : t.toggledSign = some toggled) : toggled.flipTop = t.flipTop := by
  funext sample
  rw [flipTop, flipTop, bits_toggledSign h, bytes_toggledSign h]

/-- The top bit of an integer type is the top bit of a byte. -/
theorem flipTop_eq_modify (hinteger : t.isFloat = false) (hlength : sample.length = t.bytes) :
    t.flipTop sample = sample.modify ((t.bits - 1) / 8) (· ^^^ 0x80) := by
  have hbyte : (t.bits - 1) / 8 < sample.length := by
    rw [hlength]
    cases t <;> decide
  have hbit : 8 * ((t.bits - 1) / 8) + 7 = t.bits - 1 := by
    cases t <;> rfl
  have hword := Word.ofBytes_modify hbyte
  have hmodified : (sample.modify ((t.bits - 1) / 8) (· ^^^ 0x80)).length = t.bytes := by
    rw [List.length_modify, hlength]
  rw [hbit] at hword
  rw [flipTop, ← hword, ← hmodified]
  exact Word.toBytes_ofBytes _

theorem flipTop_flipTop (hlength : sample.length = t.bytes) :
    t.flipTop (t.flipTop sample) = sample := by
  have hword : Word.ofBytes (t.flipTop sample) =
      Word.ofBytes sample ^^^ 1 <<< (t.bits - 1) := by
    have hrange := Word.ofBytes_lt sample
    rw [hlength, Nat.one_shiftLeft] at hrange
    have htop : 1 <<< (t.bits - 1) < 2 ^ (8 * t.bytes) := by
      cases t <;> decide
    rw [flipTop, Word.ofBytes_toBytes, Nat.one_shiftLeft (8 * t.bytes)]
    exact Nat.mod_eq_of_lt (Nat.xor_lt_two_pow hrange htop)
  rw [flipTop, hword, Nat.xor_assoc, Nat.xor_self, Nat.xor_zero, ← hlength]
  exact Word.toBytes_ofBytes sample

/-- The flipped word is the same value in the type of the other signedness. -/
theorem read_flipTop (htoggled : t.toggledSign = some toggled)
    (hlength : sample.length = t.bytes) : toggled.read (t.flipTop sample) = t.read sample := by
  have hinteger := isFloat_of_toggledSign htoggled
  have hnative := SampleFormat.isNative_host t
  have hread := read_toggleTopBit (F := ⟨t, ByteOrder.host⟩) hnative htoggled hlength
  rwa [toggleTopBit_of_isNative hinteger hnative, ← flipTop_eq_modify hinteger hlength] at hread

end SampleType

namespace SampleFormat

variable {F G : SampleFormat} {sample : List UInt8}

@[simp] theorem toHost_toHost (F : SampleFormat) (sample : List UInt8) :
    F.toHost (F.toHost sample) = sample := by
  simp only [toHost]
  split_ifs
  · rfl
  · exact List.reverse_reverse sample

/-- From one order through host order into another. -/
theorem toHost_toHost_of_type (horder : G.type.hasByteOrder = F.type.hasByteOrder)
    (sample : List UInt8) :
    G.toHost (F.toHost sample) =
      if F.type.hasByteOrder ∧ F.order.resolve ≠ G.order.resolve then sample.reverse
      else sample := by
  simp only [toHost, isNative, horder]
  by_cases hhas : F.type.hasByteOrder = true
  · rcases F.order.resolve_eq with hF | hF <;> rcases G.order.resolve_eq with hG | hG <;>
      simp [hhas, hF, hG, ByteOrder.host]
  · simp [hhas]

/-- The sample, in the order of the format, with bit `bits - 1` of its word flipped. -/
def flipTop (F : SampleFormat) (sample : List UInt8) : List UInt8 :=
  F.toHost (F.type.flipTop (F.toHost sample))

/-- The byte whose top bit is flipped is the right one in either order. -/
theorem toggleTopBit_eq_flipTop (hinteger : F.type.isFloat = false)
    (hlength : sample.length = F.type.bytes) :
    toggleTopBit F.type F.order sample = F.flipTop sample := by
  rw [flipTop, SampleType.flipTop_eq_modify hinteger ((F.length_toHost sample).trans hlength)]
  by_cases hnative : F.isNative = true
  · rw [toHost_of_isNative hnative, toHost_of_isNative hnative,
      toggleTopBit_of_isNative hinteger hnative]
  · have hreverse : ∀ s, F.toHost s = s.reverse := fun _ => if_neg hnative
    have hbig : F.order.resolve = .big := by
      simp only [isNative, Bool.or_eq_true, decide_eq_true_eq, not_or] at hnative
      exact F.order.resolve_eq.resolve_left hnative.2
    have hbyte : (F.type.bits - 1) / 8 < F.type.bytes := by
      cases F.type <;> decide
    rw [hreverse, hreverse, toggleTopBit]
    simp only [hbig, if_true]
    -- Most significant byte first, the byte is counted from the other end.
    refine List.ext_getElem (by simp) fun i hi hi' => ?_
    simp only [List.length_modify] at hi
    simp only [List.getElem_modify, List.getElem_reverse, List.length_modify, List.length_reverse]
    have hindex : F.type.bytes - 1 - (F.type.bits - 1) / 8 = i ↔
        (F.type.bits - 1) / 8 = sample.length - 1 - i := by omega
    have hmirror : sample.length - 1 - (sample.length - 1 - i) = i := by omega
    simp only [hindex, hmirror]

end SampleFormat

/-! ## Types after toggles -/

namespace SampleType

/-- The type after a number of sign toggles. -/
def toggled (t : SampleType) (count : Nat) : SampleType :=
  if count % 2 = 1 then t.toggledSign.getD t else t

variable {t : SampleType}

theorem toggled_cases (t : SampleType) (count : Nat) :
    t.toggled count = t ∨ t.toggledSign = some (t.toggled count) := by
  rw [toggled]
  split_ifs
  · cases t <;> simp [toggledSign]
  · exact .inl rfl

theorem toggledSign_toggled (hinteger : t.isFloat = false) (count : Nat) :
    (t.toggled count).toggledSign = some (t.toggled (count + 1)) := by
  obtain ⟨other, hother⟩ := exists_toggledSign hinteger
  have hback := toggledSign_comm.1 hother
  rcases Nat.mod_two_eq_zero_or_one count with heven | hodd
  · rw [toggled, toggled, if_neg (by omega), if_pos (by omega), hother]
    rfl
  · rw [toggled, toggled, if_pos hodd, if_neg (by omega), hother]
    exact hback

@[simp] theorem bytes_toggled (t : SampleType) (count : Nat) : (t.toggled count).bytes = t.bytes := by
  rcases t.toggled_cases count with hsame | hother
  · rw [hsame]
  · exact (bytes_toggledSign hother).symm

@[simp] theorem hasByteOrder_toggled (t : SampleType) (count : Nat) :
    (t.toggled count).hasByteOrder = t.hasByteOrder := by
  rcases t.toggled_cases count with hsame | hother
  · rw [hsame]
  · exact hasByteOrder_toggledSign hother

@[simp] theorem flipTop_toggled (t : SampleType) (count : Nat) :
    (t.toggled count).flipTop = t.flipTop := by
  rcases t.toggled_cases count with hsame | hother
  · rw [hsame]
  · exact flipTop_toggledSign hother

theorem isFloat_toggled (hinteger : t.isFloat = false) (count : Nat) :
    (t.toggled count).isFloat = false :=
  isFloat_of_toggledSign (toggledSign_toggled hinteger count)

end SampleType

/-! ## Steps and runs -/

/-- A change of a buffer in place. -/
inductive InPlace where
  | toggleSign
  | swapTo (order : ByteOrder)
  | toNative
deriving DecidableEq

namespace InPlace

/-- The byte order that a step asks for. -/
def target? : InPlace → Option ByteOrder
  | toggleSign => none
  | swapTo order => some order
  | toNative => some ByteOrder.host

/-- How many of the steps toggle the sign. -/
def toggles (steps : List InPlace) : Nat :=
  steps.count toggleSign

/-- The byte order that was asked for last; before any swap it is `order`. -/
def lastTarget (order : ByteOrder) (steps : List InPlace) : ByteOrder :=
  (steps.filterMap target?).getLast?.getD order

theorem toggles_cons (step : InPlace) (steps : List InPlace) :
    toggles (step :: steps) = toggles [step] + toggles steps := by
  rw [toggles, toggles, toggles, ← List.count_append]
  rfl

theorem lastTarget_cons (order : ByteOrder) (step : InPlace) (steps : List InPlace) :
    lastTarget order (step :: steps) = lastTarget (lastTarget order [step]) steps := by
  cases step <;> simp [lastTarget, target?, List.filterMap_cons, List.getLast?_cons]

end InPlace

namespace SampleBuffer

variable {b : SampleBuffer}

/-- One step. -/
def transform (b : SampleBuffer) : InPlace → Except Fault SampleBuffer
  | .toggleSign => b.toggleSign
  | .swapTo order => .ok (b.swapTo order)
  | .toNative => .ok b.toNative

/-- One step after the other. -/
def transformAll (b : SampleBuffer) (steps : List InPlace) : Except Fault SampleBuffer :=
  steps.foldlM transform b

/-- The buffer that a number of toggles and a last byte order describe: every whole sample has its top
bit flipped if the number is odd, and is reversed if its type has a byte order and the two labels
stand for different ones. -/
def rearranged (b : SampleBuffer) (count : Nat) (order : ByteOrder) : SampleBuffer where
  data := mapGroups b.format.type.bytes (fun sample =>
    let flipped := if count % 2 = 1 then b.format.flipTop sample else sample
    if b.format.type.hasByteOrder ∧ b.format.order.resolve ≠ order.resolve then flipped.reverse
    else flipped) b.data
  format := ⟨b.format.type.toggled count, order⟩

/-! ### One sample at a time -/

/-- A sample that was `sample` in host order, after a number of toggles and in another order. -/
def written (t : SampleType) (count : Nat) (order : ByteOrder) (sample : List UInt8) : List UInt8 :=
  (SampleFormat.mk (t.toggled count) order).toHost
    (if count % 2 = 1 then t.flipTop sample else sample)

theorem length_written {t : SampleType} {sample : List UInt8} (hlength : sample.length = t.bytes)
    (count : Nat) (order : ByteOrder) : (written t count order sample).length = t.bytes := by
  rw [written, SampleFormat.length_toHost]
  split_ifs
  · exact t.length_flipTop sample
  · exact hlength

theorem toggleTopBit_written {t : SampleType} {sample : List UInt8} (hinteger : t.isFloat = false)
    (hlength : sample.length = t.bytes) (count : Nat) (order : ByteOrder) :
    toggleTopBit (t.toggled count) order (written t count order sample) =
      written t (count + 1) order sample := by
  have hparity : t.flipTop (if count % 2 = 1 then t.flipTop sample else sample) =
      if (count + 1) % 2 = 1 then t.flipTop sample else sample := by
    rcases Nat.mod_two_eq_zero_or_one count with heven | hodd
    · rw [if_neg (by omega), if_pos (by omega)]
    · rw [if_pos hodd, if_neg (by omega), SampleType.flipTop_flipTop hlength]
  -- Whether there is a byte order does not depend on the signedness.
  have horder : (SampleFormat.mk (t.toggled count) order).toHost =
      (SampleFormat.mk (t.toggled (count + 1)) order).toHost := by
    funext sample
    simp only [SampleFormat.toHost, SampleFormat.isNative, SampleType.hasByteOrder_toggled]
  rw [SampleFormat.toggleTopBit_eq_flipTop (F := ⟨t.toggled count, order⟩)
    (SampleType.isFloat_toggled hinteger count)
    ((length_written hlength count order).trans (t.bytes_toggled count).symm)]
  rw [SampleFormat.flipTop, written, SampleFormat.toHost_toHost, SampleType.flipTop_toggled, hparity,
    horder]
  rfl

theorem swap_written (t : SampleType) (count : Nat) (order order' : ByteOrder)
    (sample : List UInt8) :
    (if (SampleFormat.mk (t.toggled count) order).needsSwapTo ⟨t.toggled count, order'⟩ then
      (written t count order sample).reverse else written t count order sample) =
      written t count order' sample := by
  have hhost := (SampleFormat.mk (t.toggled count) order).toHost_withOrder order'
    (written t count order sample)
  rw [written, SampleFormat.toHost_toHost] at hhost
  have hback := congrArg (SampleFormat.mk (t.toggled count) order').toHost hhost
  rwa [SampleFormat.withOrder, SampleFormat.toHost_toHost] at hback

/-! ### All samples -/

theorem data_rearranged (b : SampleBuffer) (count : Nat) (order : ByteOrder) :
    (b.rearranged count order).data =
      mapGroups b.format.type.bytes
        (fun sample => written b.format.type count order (b.format.toHost sample)) b.data := by
  refine congrArg (mapGroups b.format.type.bytes · b.data) (funext fun sample => ?_)
  have hswap := SampleFormat.toHost_toHost_of_type (F := b.format)
    (G := ⟨b.format.type.toggled count, order⟩) (SampleType.hasByteOrder_toggled ..)
  by_cases hodd : count % 2 = 1
  · simp only [written, hodd, if_true]
    rw [← hswap, SampleFormat.flipTop, SampleFormat.toHost_toHost]
  · simp only [written, hodd, if_false]
    rw [← hswap]

theorem rearranged_zero (b : SampleBuffer) : b.rearranged 0 b.format.order = b := by
  have hkept : (fun sample => written b.format.type 0 b.format.order (b.format.toHost sample)) =
      id := by
    funext sample
    exact b.format.toHost_toHost sample
  have hdata : (b.rearranged 0 b.format.order).data = b.data := by
    rw [data_rearranged, hkept, mapGroups_id]
  exact congrArg (SampleBuffer.mk · b.format) hdata

theorem length_written_toHost (count : Nat) (order : ByteOrder) (sample : List UInt8)
    (hlength : sample.length = b.format.type.bytes) :
    (written b.format.type count order (b.format.toHost sample)).length = b.format.type.bytes :=
  length_written ((b.format.length_toHost sample).trans hlength) count order

theorem toggleSign_rearranged (hinteger : b.format.type.isFloat = false) (count : Nat)
    (order : ByteOrder) :
    (b.rearranged count order).toggleSign = .ok (b.rearranged (count + 1) order) := by
  have htoggled : (b.rearranged count order).format.type.toggledSign =
      some (b.format.type.toggled (count + 1)) := SampleType.toggledSign_toggled hinteger count
  have hsample : ∀ sample : List UInt8, sample.length = b.format.type.bytes →
      toggleTopBit (b.format.type.toggled count) order
          (written b.format.type count order (b.format.toHost sample)) =
        written b.format.type (count + 1) order (b.format.toHost sample) := fun sample hlength =>
    toggleTopBit_written hinteger ((b.format.length_toHost sample).trans hlength) count order
  have hdata : mapGroups (b.format.type.toggled count).bytes
        (toggleTopBit (b.format.type.toggled count) order) (b.rearranged count order).data =
      (b.rearranged (count + 1) order).data := by
    rw [data_rearranged, data_rearranged, SampleType.bytes_toggled,
      mapGroups_mapGroups b.format.type.bytes_pos (length_written_toHost count order)]
    exact mapGroups_congr hsample b.data
  refine (toggleSign_of_toggled htoggled).trans ?_
  exact congrArg (fun data => Except.ok (SampleBuffer.mk data _)) hdata

/-- A swap treats every whole sample alike, whether it reverses them or not. -/
theorem data_swapTo_eq_mapGroups (b : SampleBuffer) (order : ByteOrder) :
    (b.swapTo order).data = mapGroups b.format.type.bytes
      (fun sample => if b.format.needsSwapTo (b.format.withOrder order) then sample.reverse
        else sample) b.data := by
  unfold swapTo
  split_ifs
  · rfl
  · exact (mapGroups_id _ b.data).symm

theorem swapTo_rearranged (b : SampleBuffer) (count : Nat) (order order' : ByteOrder) :
    (b.rearranged count order).swapTo order' = b.rearranged count order' := by
  have hdata : ((b.rearranged count order).swapTo order').data =
      (b.rearranged count order').data := by
    rw [data_swapTo_eq_mapGroups, data_rearranged b count order, data_rearranged b count order']
    show mapGroups (b.format.type.toggled count).bytes _ _ = _
    rw [SampleType.bytes_toggled,
      mapGroups_mapGroups b.format.type.bytes_pos (length_written_toHost count order)]
    exact congrArg (mapGroups _ · b.data) (funext fun sample => swap_written ..)
  exact congrArg (SampleBuffer.mk · _) hdata

/-! ### Runs -/

/-- One step of a run. -/
theorem transform_rearranged (hinteger : b.format.type.isFloat = false) (count : Nat)
    (order : ByteOrder) (step : InPlace) :
    (b.rearranged count order).transform step =
      .ok (b.rearranged (count + InPlace.toggles [step]) (InPlace.lastTarget order [step])) := by
  cases step with
  | toggleSign => exact toggleSign_rearranged hinteger count order
  | swapTo order' => exact congrArg Except.ok (swapTo_rearranged b count order order')
  | toNative => exact congrArg Except.ok (swapTo_rearranged b count order ByteOrder.host)

/-- A whole run, by induction on the steps: the toggles add up, and a later swap replaces an earlier
one. -/
theorem transformAll_rearranged (hinteger : b.format.type.isFloat = false) (count : Nat)
    (order : ByteOrder) (steps : List InPlace) :
    (b.rearranged count order).transformAll steps =
      .ok (b.rearranged (count + InPlace.toggles steps) (InPlace.lastTarget order steps)) := by
  induction steps generalizing count order with
  | nil => rfl
  | cons step steps ih =>
      have hstep := transform_rearranged hinteger count order step
      rw [transformAll, List.foldlM_cons, hstep]
      refine (ih _ _).trans ?_
      rw [InPlace.toggles_cons step steps, InPlace.lastTarget_cons order step steps, Nat.add_assoc]

/-- Only the parity of the toggles matters. -/
theorem rearranged_congr (b : SampleBuffer) {count count' : Nat} (hparity : count % 2 = count' % 2)
    (order : ByteOrder) : b.rearranged count order = b.rearranged count' order := by
  simp only [rearranged, SampleType.toggled, hparity]

theorem values_rearranged (hinteger : b.format.type.isFloat = false) (count : Nat)
    (order : ByteOrder) : (b.rearranged count order).values = b.values := by
  have hread : ∀ sample : List UInt8, sample.length = b.format.type.bytes →
      (SampleFormat.mk (b.format.type.toggled count) order).read
        (written b.format.type count order (b.format.toHost sample)) = b.format.read sample := by
    intro sample hlength
    have hhost := (b.format.length_toHost sample).trans hlength
    show (b.format.type.toggled count).read (SampleFormat.toHost _ _) =
      b.format.type.read (b.format.toHost sample)
    rw [written, SampleFormat.toHost_toHost]
    obtain ⟨other, hother⟩ := SampleType.exists_toggledSign hinteger
    simp only [SampleType.toggled, hother, Option.getD_some]
    split_ifs
    · exact SampleType.read_flipTop hother hhost
    · rfl
  rw [values, values, SampleFormat.values, data_rearranged]
  show (wholeGroups (b.format.type.toggled count).bytes _).map _ = _
  rw [SampleType.bytes_toggled,
    wholeGroups_mapGroups b.format.type.bytes_pos (length_written_toHost count order), List.map_map]
  exact List.map_congr_left fun sample hsample => hread sample (length_of_mem_wholeGroups hsample)

/-- Bytes and description stay in step over any run of toggles and swaps.  Hence the values stay, a
toggle may be exchanged with any other step, and every step is undone by its inverse. -/
theorem transformAll_in_step (hinteger : b.format.type.isFloat = false) (steps : List InPlace) :
    b.transformAll steps = .ok
        (b.rearranged (InPlace.toggles steps) (InPlace.lastTarget b.format.order steps)) ∧
      (b.rearranged (InPlace.toggles steps) (InPlace.lastTarget b.format.order steps)).values =
        b.values ∧
      (∀ step, b.transformAll [.toggleSign, step] = b.transformAll [step, .toggleSign]) ∧
      b.transformAll [.toggleSign, .toggleSign] = .ok b ∧
      (∀ order, b.transformAll [.swapTo order, .swapTo b.format.order] = .ok b) ∧
      b.transformAll [.toNative, .swapTo b.format.order] = .ok b := by
  have hrun : ∀ steps, b.transformAll steps = .ok
      (b.rearranged (InPlace.toggles steps) (InPlace.lastTarget b.format.order steps)) := by
    intro steps
    have hstart := transformAll_rearranged hinteger 0 b.format.order steps
    rwa [rearranged_zero, Nat.zero_add] at hstart
  -- Nothing was done to the bytes where the toggles are even and the last order is the first one.
  have hundone : ∀ steps, InPlace.toggles steps % 2 = 0 →
      InPlace.lastTarget b.format.order steps = b.format.order → b.transformAll steps = .ok b := by
    intro steps heven horder
    have hparity : InPlace.toggles steps % 2 = 0 % 2 := heven
    rw [hrun, horder, rearranged_congr b hparity, rearranged_zero]
  refine ⟨hrun steps, values_rearranged hinteger _ _, fun step => ?_, hundone _ rfl rfl,
    fun order => hundone _ rfl rfl, hundone _ rfl rfl⟩
  rw [hrun, hrun]
  cases step <;> rfl

/-- Three-byte samples and one byte left over: toggled where the top byte comes first, then reversed. -/
theorem transformAll_in_step_packed :
    transformAll ⟨[1, 2, 3, 4, 5, 6, 7], ⟨.u24Packed, .big⟩⟩ [.toggleSign, .swapTo .native] =
      .ok ⟨[3, 2, 0x81, 6, 5, 0x84, 7], ⟨.s24Packed, .native⟩⟩ :=
  (transformAll_in_step (b := ⟨[1, 2, 3, 4, 5, 6, 7], ⟨.u24Packed, .big⟩⟩) rfl
    [.toggleSign, .swapTo .native]).1

end SampleBuffer

end PcmConversion
