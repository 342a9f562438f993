import Mathlib.Tactic.Common

/-! Integers assembled from bytes by shifting and or-ing, and the two's
complement bytes of a 16-bit integer. -/

namespace Bytes

def be16 (hi lo : UInt8) : Nat := hi.toNat <<< 8 ||| lo.toNat

theorem be16_eq (hi lo : UInt8) : be16 hi lo = 256 * hi.toNat + lo.toNat := by
  have hlo : lo.toNat < 2 ^ 8 := lo.toNat_lt
  rw [be16, ← Nat.shiftLeft_add_eq_or_of_lt hlo, Nat.shiftLeft_eq]
  omega

/-- The byte at offset `i`; the offsets used are within the buffer. -/
def byteAt {n : Nat} (buf : Vector UInt8 n) (i : Nat) : Nat := (buf[i]?.getD 0).toNat

def le16 {n : Nat} (buf : Vector UInt8 n) (i : Nat) : Nat := byteAt buf i + 256 * byteAt buf (i + 1)

def le32 {n : Nat} (buf : Vector UInt8 n) (i : Nat) : Nat := le16 buf i + 65536 * le16 buf (i + 2)

theorem toNat_ofInt (x : Int) : (UInt8.ofInt x).toNat = (x % 256).toNat := by
  have hmod : (x % 2 ^ 8).toNat < 2 ^ 8 := by omega
  simp only [UInt8.ofInt, UInt8.toNat_ofNat']
  omega

/-- The high and the low byte of a signed 16-bit integer, read back as one,
give the integer itself: the arithmetic shift and the narrowing agree with
the sign extension. -/
theorem int16_of_bytes (x : Int16) :
    Int16.ofNat (be16 (UInt8.ofInt (x.toInt >>> (8 : Nat))) (UInt8.ofInt x.toInt)) = x := by
  have hlt := x.toInt_lt
  have hle := x.le_toInt
  have hval : (be16 (UInt8.ofInt (x.toInt >>> (8 : Nat))) (UInt8.ofInt x.toInt) : Int) =
      x.toInt % 65536 := by
    rw [be16_eq, toNat_ofInt, toNat_ofInt, Int.shiftRight_eq_div_pow]
    omega
  apply Int16.toInt.inj
  rw [Int16.toInt_ofNat', hval]
  exact (Int.emod_bmod x.toInt 65536).trans x.toInt_bmod

end Bytes
