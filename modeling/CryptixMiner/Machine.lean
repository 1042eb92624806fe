import CryptixMiner.Lib.Loop
import CryptixMiner.Lib.Words

/-! Byte arrays, the words read from them and written to them, and the rotations of Rust's integers. -/

namespace CryptixMiner
open Words

abbrev Bytes (n : Nat) := Vector UInt8 n

/-- The eight bytes from `offset` on as a 64-bit word (`u64::from_le_bytes`, `load64_le`). -/
def load64Le {n : Nat} (input : Bytes n) (offset : Nat) : UInt64 :=
  UInt64.ofBitVec (ofLeBytes 64 (fun k => input[offset + k]!) 8)

/-- The four bytes from `offset` on as a 32-bit word (`load32_le`). -/
def load32Le {n : Nat} (input : Bytes n) (offset : Nat) : UInt32 :=
  UInt32.ofBitVec (ofLeBytes 32 (fun k => input[offset + k]!) 4)

/-- Stores a 64-bit word in the eight bytes from `offset` on (`u64::to_le_bytes`, `store64_le`). -/
def store64Le {n : Nat} (value : UInt64) (out : Bytes n) (offset : Nat) : Bytes n :=
  Loop.forRange 0 8 (fun k out => out.set! (offset + k) (leByte value.toBitVec k)) out

/-- `u8::rotate_left`. -/
def rotateLeft8 (x : UInt8) (n : Nat) : UInt8 := UInt8.ofBitVec (x.toBitVec.rotateLeft n)

/-- `u8::rotate_right`. -/
def rotateRight8 (x : UInt8) (n : Nat) : UInt8 := UInt8.ofBitVec (x.toBitVec.rotateRight n)

/-- `u32::rotate_left`. -/
def rotateLeft32 (x : UInt32) (n : Nat) : UInt32 := UInt32.ofBitVec (x.toBitVec.rotateLeft n)

/-- `u32::rotate_right`. -/
def rotateRight32 (x : UInt32) (n : Nat) : UInt32 := UInt32.ofBitVec (x.toBitVec.rotateRight n)

/-- `u64::rotate_left`. -/
def rotateLeft64 (x : UInt64) (n : Nat) : UInt64 := UInt64.ofBitVec (x.toBitVec.rotateLeft n)

/-- Four bits of a word, `(x >> shift) & 0xF`. -/
def nibbleAt (x shift : UInt32) : UInt32 := (x >>> shift) &&& 0xF

section
variable {n : Nat}

theorem getElem_store64Le {value : UInt64} {out : Bytes n} {offset j : Nat} (hj : j < n) :
    (store64Le value out offset)[j] =
      if offset ≤ j ∧ j < offset + 8 then leByte value.toBitVec (j - offset) else out[j] :=
  Loop.getElem_forRange_set!_add (fun k _ => leByte value.toBitVec k) out offset 8 hj

theorem load64Le_congr {m : Nat} {a : Bytes n} {b : Bytes m} {i j : Nat} (h : ∀ k < 8, a[i + k]! = b[j + k]!) :
    load64Le a i = load64Le b j := by
  unfold load64Le
  rw [ofLeBytes_congr h]

theorem load64Le_store64Le (value : UInt64) (out : Bytes n) {offset : Nat} (h : offset + 8 ≤ n) :
    load64Le (store64Le value out offset) offset = value := by
  have hbyte : ∀ k < 8, (store64Le value out offset)[offset + k]! = leByte value.toBitVec k := fun k hk => by
    have hlt : offset + k < n := by omega
    have hin : offset ≤ offset + k ∧ offset + k < offset + 8 := by omega
    rw [Loop.getElem!_eq _ hlt, getElem_store64Le hlt, if_pos hin, Nat.add_sub_cancel_left]
  rw [load64Le, ofLeBytes_congr hbyte, ofLeBytes_leByte (by decide)]

theorem load64Le_store64Le_of_disjoint (value : UInt64) (out : Bytes n) {offset i : Nat} (hi : i + 8 ≤ n)
    (h : i + 8 ≤ offset ∨ offset + 8 ≤ i) : load64Le (store64Le value out offset) i = load64Le out i := by
  refine load64Le_congr fun k hk => ?_
  have hlt : i + k < n := by omega
  have hout : ¬(offset ≤ i + k ∧ i + k < offset + 8) := by omega
  rw [Loop.getElem!_eq _ hlt, getElem_store64Le hlt, if_neg hout, Loop.getElem!_eq _ hlt]

end

/-! ### Remainders by masks -/

theorem and_three (n : Nat) : n &&& 3 = n % 4 := Nat.and_two_pow_sub_one_eq_mod n 2

theorem and_seven (n : Nat) : n &&& 7 = n % 8 := Nat.and_two_pow_sub_one_eq_mod n 3

theorem and_fifteen (n : Nat) : n &&& 15 = n % 16 := Nat.and_two_pow_sub_one_eq_mod n 4

theorem and_31 (n : Nat) : n &&& 31 = n % 32 := Nat.and_two_pow_sub_one_eq_mod n 5

theorem and_255 (n : Nat) : n &&& 255 = n % 256 := Nat.and_two_pow_sub_one_eq_mod n 8

theorem uint8_and_one (x : UInt8) : x &&& 1 = x % 2 := UInt8.toNat_inj.mp (Nat.and_one_is_mod x.toNat)

theorem uint8_and_three (x : UInt8) : x &&& 3 = x % 4 := UInt8.toNat_inj.mp (and_three x.toNat)

theorem uint8_and_seven (x : UInt8) : x &&& 7 = x % 8 := UInt8.toNat_inj.mp (and_seven x.toNat)

/-- A count of one more than a remainder does not wrap. -/
theorem toNat_mod_add_one (x : UInt8) {d : UInt8} (hpos : 0 < d.toNat) (hd : d.toNat < 128) :
    (x % d + 1).toNat = (x % d).toNat + 1 := by
  have hlt : x.toNat % d.toNat < d.toNat := Nat.mod_lt _ hpos
  have hone : (1 : UInt8).toNat = 1 := rfl
  rw [UInt8.toNat_add, UInt8.toNat_mod, hone]
  omega

end CryptixMiner
