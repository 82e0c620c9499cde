import LinuxDriverKb.Lib.CInt

/-!
# Binary-coded decimal

A number below 100 as two decimal digits, one in each half of a byte. `bin2bcd` works on an
unsigned 32-bit integer of any size and its result is stored in a byte, which keeps the
units and the lower four bits of the tens.
-/

set_option autoImplicit false

namespace Bcd

/-- Encoding of an unsigned 32-bit integer. -/
def bin2bcd (v : BitVec 32) : BitVec 32 :=
  ((v / 10) <<< 4) + v % 10

/-- Decoding of a byte. -/
def bcd2bin (b : BitVec 8) : BitVec 32 :=
  (b &&& 0x0f).setWidth 32 + (b >>> 4).setWidth 32 * 10

/-- The byte an encoded value is stored in. -/
def byte (v : BitVec 32) : BitVec 8 :=
  (bin2bcd v).setWidth 8

theorem toNat_bcd2bin (b : BitVec 8) :
    (bcd2bin b).toNat = b.toNat % 16 + b.toNat / 16 * 10 := by
  have hb := b.isLt
  have hlow : (b &&& 0x0f).toNat = b.toNat % 16 := by
    rw [BitVec.toNat_and]
    exact Nat.and_two_pow_sub_one_eq_mod b.toNat 4
  have hhigh : (b >>> 4).toNat = b.toNat / 16 := by
    rw [BitVec.toNat_ushiftRight, Nat.shiftRight_eq_div_pow]
  simp only [bcd2bin, BitVec.toNat_add, BitVec.toNat_mul, BitVec.toNat_setWidth, hlow, hhigh,
    BitVec.reduceToNat]
  omega

theorem toNat_byte (v : BitVec 32) :
    (byte v).toNat = v.toNat / 10 % 16 * 16 + v.toNat % 10 := by
  have hv := v.isLt
  simp only [byte, bin2bcd, BitVec.toNat_setWidth, BitVec.toNat_add, BitVec.toNat_shiftLeft,
    BitVec.toNat_udiv, BitVec.toNat_umod, BitVec.reduceToNat, Nat.shiftLeft_eq]
  omega

/-- What comes back of a stored value : the units, and the tens modulo 16. -/
theorem bcd2bin_byte (v : BitVec 32) :
    (bcd2bin (byte v)).toNat = v.toNat / 10 % 16 * 10 + v.toNat % 10 := by
  rw [toNat_bcd2bin, toNat_byte]
  omega

/-- The lower `k` bits of the byte are enough for a value whose code fits in them. -/
theorem bcd2bin_byte_and {v : BitVec 32} {m : BitVec 8} {k : ℕ} (hm : m.toNat = 2 ^ k - 1)
    (hv : v.toNat < 100) (hk : v.toNat / 10 * 16 + v.toNat % 10 < 2 ^ k) :
    bcd2bin (byte v &&& m) = v := by
  have hbyte : (byte v).toNat = v.toNat / 10 * 16 + v.toNat % 10 := by
    rw [toNat_byte]
    omega
  have hmask : (byte v &&& m).toNat = (byte v).toNat := by
    rw [BitVec.toNat_and, hm, Nat.and_two_pow_sub_one_eq_mod, Nat.mod_eq_of_lt (hbyte ▸ hk)]
  apply BitVec.eq_of_toNat_eq
  rw [toNat_bcd2bin, hmask, hbyte]
  omega

end Bcd
