import CryptixMiner.Pow.HeavyHash

/-! The arithmetic of the two kernels: rotations as pairs of shifts, 64-bit products from 32-bit halves,
    and the dot products of four bytes. -/

namespace CryptixMiner
open Words

namespace Device

def rotl8 (value : UInt8) (shift : Nat) : UInt8 :=
  let shift := shift &&& 7
  UInt8.ofBitVec (value.toBitVec <<< shift ||| value.toBitVec >>> ((8 - shift) &&& 7))

def rotr8 (value : UInt8) (shift : Nat) : UInt8 :=
  let shift := shift &&& 7
  UInt8.ofBitVec (value.toBitVec >>> shift ||| value.toBitVec <<< ((8 - shift) &&& 7))

def rotl32 (value : UInt32) (shift : Nat) : UInt32 :=
  let shift := shift &&& 31
  UInt32.ofBitVec (value.toBitVec <<< shift ||| value.toBitVec >>> ((32 - shift) &&& 31))

def rotr32 (value : UInt32) (shift : Nat) : UInt32 :=
  let shift := shift &&& 31
  UInt32.ofBitVec (value.toBitVec >>> shift ||| value.toBitVec <<< ((32 - shift) &&& 31))

def rotl64 (value : UInt64) (shift : Nat) : UInt64 :=
  let shift := shift &&& 63
  UInt64.ofBitVec (value.toBitVec <<< shift ||| value.toBitVec >>> ((64 - shift) &&& 63))

/-- The high half of a 32-bit product (`__umulhi`, `mul_hi`). -/
def umulhi (a b : UInt32) : UInt32 := UInt32.ofNat (a.toNat * b.toNat / 2 ^ 32)

def mul64PartsByU32 (aLo aHi b32 : UInt32) : UInt64 :=
  let loLo := aLo * b32
  let loHi := umulhi aLo b32
  let hiLo := aHi * b32
  let upper := loHi + hiLo
  loLo.toUInt64 ||| (upper.toUInt64 <<< 32)

/-- `__dp4a` on signed operands: the products of four signed bytes, added to `c`. -/
def dp4a (a b c : Int32) : Int32 :=
  let product (k : Nat) : Int := (leByte a.toBitVec k).toInt8.toInt * (leByte b.toBitVec k).toInt8.toInt
  Int32.ofInt (c.toInt + product 0 + product 1 + product 2 + product 3)

/-- `mad24` on unsigned operands: only the low 24 bits of the factors count. -/
def mad24 (x y z : UInt32) : UInt32 := (x &&& 0xFFFFFF) * (y &&& 0xFFFFFF) + z

/-! ### What the device computes, as integers -/

@[simp] theorem rotl8_eq (value : UInt8) (shift : Nat) : rotl8 value shift = rotateLeft8 value shift := by
  simp only [rotl8, rotateLeft8, and_seven]
  rw [rotateLeft_eq_shifts value.toBitVec (by decide)]

@[simp] theorem rotr8_eq (value : UInt8) (shift : Nat) : rotr8 value shift = rotateRight8 value shift := by
  simp only [rotr8, rotateRight8, and_seven]
  rw [rotateRight_eq_shifts value.toBitVec (by decide)]

@[simp] theorem rotl32_eq (value : UInt32) (shift : Nat) : rotl32 value shift = rotateLeft32 value shift := by
  simp only [rotl32, rotateLeft32, and_31]
  rw [rotateLeft_eq_shifts value.toBitVec (by decide)]

@[simp] theorem rotr32_eq (value : UInt32) (shift : Nat) : rotr32 value shift = rotateRight32 value shift := by
  simp only [rotr32, rotateRight32, and_31]
  rw [rotateRight_eq_shifts value.toBitVec (by decide)]

/-- The split product of a 64-bit word is its product modulo `2 ^ 64`. -/
theorem mul64PartsByU32_eq (a : UInt64) (b : UInt32) :
    mul64PartsByU32 a.toUInt32 (a >>> 32).toUInt32 b = a * b.toUInt64 := by
  have hhi : ((a >>> 32).toUInt32).toNat = a.toNat / 2 ^ 32 := by
    have h := a.toNat_lt
    simp [UInt64.toNat_shiftRight, Nat.shiftRight_eq_div_pow]
    omega
  have hlow : (a.toUInt32 * b).toUInt64.toNat = (a.toNat % 2 ^ 32) * b.toNat % 2 ^ 32 := by simp
  -- The upper word: the high half of the low product and the product of the high half.
  have hupper : (umulhi a.toUInt32 b + (a >>> 32).toUInt32 * b).toUInt64.toNat =
      ((a.toNat % 2 ^ 32) * b.toNat / 2 ^ 32 + a.toNat / 2 ^ 32 * b.toNat) % 2 ^ 32 := by
    simp [umulhi, Nat.shiftRight_eq_div_pow]
  have hsplit : a.toNat * b.toNat = (a.toNat % 2 ^ 32) * b.toNat + 2 ^ 32 * (a.toNat / 2 ^ 32 * b.toNat) := by
    conv_lhs => rw [← Nat.mod_add_div a.toNat (2 ^ 32)]
    rw [Nat.add_mul, Nat.mul_assoc]
  apply UInt64.toNat_inj.mp
  rw [mul64PartsByU32, UInt64.toNat_or, UInt64.toNat_shiftLeft, hlow, hupper, UInt64.toNat_mul,
    UInt32.toNat_toUInt64, hsplit]
  generalize (a.toNat % 2 ^ 32) * b.toNat = low
  generalize a.toNat / 2 ^ 32 * b.toNat = high
  have hor := Nat.two_pow_add_eq_or_of_lt (Nat.mod_lt low (Nat.two_pow_pos 32)) ((low / 2 ^ 32 + high) % 2 ^ 32)
  have hshift : ((low / 2 ^ 32 + high) % 2 ^ 32) <<< ((32 : UInt64).toNat % 64) % 2 ^ 64 =
      2 ^ 32 * ((low / 2 ^ 32 + high) % 2 ^ 32) := by
    show _ <<< 32 % 2 ^ 64 = _
    rw [Nat.shiftLeft_eq]
    omega
  rw [hshift, Nat.or_comm, ← hor]
  omega

theorem mad24_eq {x y : UInt32} (hx : x.toNat < 2 ^ 24) (hy : y.toNat < 2 ^ 24) (z : UInt32) :
    mad24 x y z = x * y + z := by
  have hmask {w : UInt32} (hw : w.toNat < 2 ^ 24) : w &&& 0xFFFFFF = w := by
    apply UInt32.toNat_inj.mp
    rw [UInt32.toNat_and]
    exact (Nat.and_two_pow_sub_one_eq_mod _ 24).trans (Nat.mod_eq_of_lt hw)
  rw [mad24, hmask hx, hmask hy]

end Device
end CryptixMiner
