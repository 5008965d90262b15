/-!
# Little-endian words

A sample is a short list of bytes, least significant first, or the natural number these bytes spell.
`ofBytes_toBytes` and `toBytes_ofBytes` say that the two views carry the same information.
-/

namespace PcmConversion.Word

/-- The number spelled by bytes, least significant first. -/
def ofBytes : List UInt8 → Nat
  | [] => 0
  | b :: bs => b.toNat + 256 * ofBytes bs

/-- The `count` low bytes of a number, least significant first. -/
def toBytes : Nat → Nat → List UInt8
  | 0, _ => []
  | count + 1, w => UInt8.ofNat w :: toBytes count (w / 256)

@[simp] theorem length_toBytes (count w : Nat) : (toBytes count w).length = count := by
  induction count generalizing w with
  | zero => rfl
  | succ count ih => simp [toBytes, ih]

/-- One byte more. -/
theorem shiftLeft_bytes (count : Nat) : 1 <<< (8 * (count + 1)) = 256 * 1 <<< (8 * count) := by
  rw [Nat.mul_succ, Nat.shiftLeft_add, Nat.shiftLeft_eq _ 8, Nat.mul_comm]

theorem ofBytes_lt (bs : List UInt8) : ofBytes bs < 1 <<< (8 * bs.length) := by
  induction bs with
  | nil => simp [ofBytes]
  | cons b bs ih =>
    have hb : b.toNat < 256 := b.toNat_lt
    rw [ofBytes, List.length_cons, shiftLeft_bytes]
    omega

@[simp] theorem ofBytes_toBytes (count w : Nat) :
    ofBytes (toBytes count w) = w % 1 <<< (8 * count) := by
  induction count generalizing w with
  | zero => simp [toBytes, ofBytes, Nat.mod_one]
  | succ count ih =>
    rw [toBytes, ofBytes, ih, shiftLeft_bytes, Nat.mod_mul]
    simp

@[simp] theorem toBytes_ofBytes (bs : List UInt8) : toBytes bs.length (ofBytes bs) = bs := by
  induction bs with
  | nil => rfl
  | cons b bs ih =>
    have hb : b.toNat < 256 := b.toNat_lt
    rw [List.length_cons, ofBytes, toBytes, show (b.toNat + 256 * ofBytes bs) / 256 = ofBytes bs by
      omega, ih]
    congr 1
    apply UInt8.toNat_inj.1
    rw [UInt8.toNat_ofNat']
    omega

end PcmConversion.Word
