import CryptixMiner.Kernel.Cuda
import CryptixMiner.Kernel.OpenCl

/-! The dot products. The scalar loop, the vector instructions of the processor, the signed byte products of
    CUDA and the 24-bit products of OpenCL all add the same sixteen blocks of four columns, as long as the
    second factor is a nibble (and, for the signed products, the first one below 128). -/

namespace CryptixMiner
open Words Device

/-! ### Bytes as signed integers -/

theorem leByte_load32Le {n : Nat} (v : Bytes n) (i : Nat) {k : Nat} (hk : k < 4) :
    leByte (load32Le v i).toBitVec k = v[i + k]! := leByte_ofLeBytes hk (by decide)

theorem toInt_toInt8 {x : UInt8} (hx : x < 128) : x.toInt8.toInt = x.toNat := by
  have hlt : x.toNat < 128 := UInt8.lt_iff_toNat_lt.mp hx
  exact BitVec.toInt_eq_toNat_of_lt (by show 2 * x.toNat < 2 ^ 8; omega)

theorem toUInt32_ofInt_natCast (n : Nat) : (Int32.ofInt n).toUInt32 = UInt32.ofNat n := by
  apply UInt32.toBitVec_inj.mp
  show BitVec.ofInt 32 n = BitVec.ofNat 32 n
  exact BitVec.ofInt_natCast 32 n

theorem ofNat_mul_toNat (x y : UInt8) : UInt32.ofNat (x.toNat * y.toNat) = x.toUInt32 * y.toUInt32 := by
  rw [UInt32.ofNat_mul]
  simp

/-! ### Four columns -/

def columns (row nibbles : Bytes 64) (j : Nat) : UInt32 :=
  row[j]!.toUInt32 * nibbles[j]!.toUInt32 + row[j + 1]!.toUInt32 * nibbles[j + 1]!.toUInt32
    + row[j + 2]!.toUInt32 * nibbles[j + 2]!.toUInt32 + row[j + 3]!.toUInt32 * nibbles[j + 3]!.toUInt32

theorem addColumns_eq (sum : UInt32) (row nibbles : Bytes 64) (j : Nat) :
    addColumns sum row nibbles j = sum + columns row nibbles j := rfl

/-- The dot product of a row with the nibbles: what every way of computing it returns. -/
def dotProduct (row nibbles : Bytes 64) : UInt32 :=
  Loop.forRange 0 16 (fun block sum => addColumns sum row nibbles (4 * block)) 0

/-- Signed byte products are exact below 128. -/
theorem dp4a_eq {row nib : Bytes 4} (hrow : ∀ k (_ : k < 4), row[k] < 128) (hnib : ∀ k (_ : k < 4), nib[k] < 128)
    (sum : UInt32) : (dp4a (load32Le row 0).toInt32 (load32Le nib 0).toInt32 sum.toInt32).toUInt32 =
      sum + row[0]!.toUInt32 * nib[0]!.toUInt32 + row[1]!.toUInt32 * nib[1]!.toUInt32
        + row[2]!.toUInt32 * nib[2]!.toUInt32 + row[3]!.toUInt32 * nib[3]!.toUInt32 := by
  have hbyte {v : Bytes 4} (hv : ∀ k (_ : k < 4), v[k] < 128) {k : Nat} (hk : k < 4) :
      (leByte (load32Le v 0).toInt32.toBitVec k).toInt8.toInt = v[k].toNat := by
    show (leByte (load32Le v 0).toBitVec k).toInt8.toInt = _
    rw [leByte_load32Le v 0 hk, Nat.zero_add, Loop.getElem!_eq v hk, toInt_toInt8 (hv k hk)]
  have hterm {k : Nat} (hk : k < 4) :
      (Int32.ofInt ((leByte (load32Le row 0).toInt32.toBitVec k).toInt8.toInt *
        (leByte (load32Le nib 0).toInt32.toBitVec k).toInt8.toInt)).toUInt32 = row[k]!.toUInt32 * nib[k]!.toUInt32 := by
    rw [hbyte hrow hk, hbyte hnib hk, ← Int.natCast_mul, toUInt32_ofInt_natCast, ofNat_mul_toNat,
      Loop.getElem!_eq row hk, Loop.getElem!_eq nib hk]
  simp only [dp4a, Int32.ofInt_add, Int32.toUInt32_add]
  rw [hterm (k := 0) (by decide), hterm (k := 1) (by decide), hterm (k := 2) (by decide), hterm (k := 3) (by decide)]
  simp

theorem mad24_bytes (x y : UInt8) (z : UInt32) : mad24 x.toUInt32 y.toUInt32 z = z + x.toUInt32 * y.toUInt32 := by
  have hlt (w : UInt8) : w.toUInt32.toNat < 2 ^ 24 := by
    rw [UInt8.toNat_toUInt32]
    exact Nat.lt_trans w.toNat_lt (by decide)
  rw [mad24_eq (hlt x) (hlt y), UInt32.add_comm]

/-! ### The vector instructions -/

namespace Avx2

theorem saturate16_toInt {x : Nat} (hx : x ≤ 32767) : (saturate16 x).toInt = x := by
  have hclip : max (-32768) (min 32767 (x : Int)) = x := by omega
  rw [saturate16, hclip]
  exact BitVec.toInt_ofInt_eq_self (by decide) (by omega) (by omega)

/-- No pair saturates: a byte times a nibble is at most `255 * 15`. -/
theorem toInt_maddubsEpi16 {a b : Bytes 32} (hb : ∀ k (_ : k < 32), b[k] < 16) {k : Nat} (hk : k < 16) :
    (maddubsEpi16 a b)[k].toInt =
      ((a[2 * k].toNat * b[2 * k].toNat + a[2 * k + 1].toNat * b[2 * k + 1].toNat : Nat) : Int) := by
  have hle {i : Nat} (hi : i < 32) : a[i].toNat * b[i].toNat ≤ 255 * 15 := by
    have ha : a[i].toNat < 256 := a[i].toNat_lt
    have hb' : b[i].toNat < 16 := UInt8.lt_iff_toNat_lt.mp (hb i hi)
    exact Nat.mul_le_mul (by omega) (by omega)
  have hbyte {i : Nat} (hi : i < 32) : b[i].toInt8.toInt = b[i].toNat :=
    toInt_toInt8 (UInt8.lt_trans (hb i hi) (by decide))
  have h0 := hle (i := 2 * k) (by omega)
  have h1 := hle (i := 2 * k + 1) (by omega)
  rw [maddubsEpi16, Vector.getElem_ofFn]
  simp only
  rw [hbyte (by omega), hbyte (by omega), ← Int.natCast_mul, ← Int.natCast_mul, ← Int.natCast_add,
    saturate16_toInt (by omega)]

theorem getElem_loadu (row : Bytes 64) {offset k : Nat} (hk : k < 32) : (loadu row offset)[k] = row[offset + k]! := by
  rw [loadu, Vector.getElem_ofFn]

/-- A lane of the accumulator: what a chunk adds to it are four columns of the row. -/
theorem toUInt32_accumRowChunk {acc : Vector Int32 8} {row nibbles : Bytes 64} {offset : Nat}
    (hn : ∀ j : Nat, nibbles[j]! < 16) {k : Nat} (hk : k < 8) :
    (accumRowChunk acc row (loadu nibbles offset) offset)[k].toUInt32 =
      acc[k].toUInt32 + columns row nibbles (offset + 4 * k) := by
  have hnib : ∀ i (_ : i < 32), (loadu nibbles offset)[i] < 16 := fun i hi => by
    rw [getElem_loadu nibbles hi]
    exact hn _
  have hmadd : ∀ i (_ : i < 16), (maddubsEpi16 (loadu row offset) (loadu nibbles offset))[i].toInt =
      ((row[offset + 2 * i]!.toNat * nibbles[offset + 2 * i]!.toNat
        + row[offset + (2 * i + 1)]!.toNat * nibbles[offset + (2 * i + 1)]!.toNat : Nat) : Int) := fun i hi => by
    rw [toInt_maddubsEpi16 hnib hi]
    simp only [getElem_loadu]
  have h0 := hmadd (2 * k) (by omega)
  have h1 := hmadd (2 * k + 1) (by omega)
  have hone : (1 : Int16).toInt = 1 := by decide
  simp only [accumRowChunk, addEpi32, maddEpi16, Loop.getElem!_eq _ hk, Vector.getElem_ofFn, Vector.getElem_replicate,
    hone, Int.mul_one, Int32.toUInt32_add]
  rw [h0, h1, ← Int.natCast_add, toUInt32_ofInt_natCast]
  simp only [UInt32.ofNat_add, ofNat_mul_toNat, columns]
  have e0 : offset + 2 * (2 * k) = offset + 4 * k := by omega
  have e1 : offset + (2 * (2 * k) + 1) = offset + 4 * k + 1 := by omega
  have e2 : offset + 2 * (2 * k + 1) = offset + 4 * k + 2 := by omega
  have e3 : offset + (2 * (2 * k + 1) + 1) = offset + 4 * k + 3 := by omega
  rw [e0, e1, e2, e3]
  simp only [UInt32.add_assoc]

theorem hsumU32x8_eq (v : Vector Int32 8) : hsumU32x8 v =
    v[0]!.toUInt32 + v[4]!.toUInt32 + (v[2]!.toUInt32 + v[6]!.toUInt32)
      + (v[1]!.toUInt32 + v[5]!.toUInt32 + (v[3]!.toUInt32 + v[7]!.toUInt32)) := by
  simp [hsumU32x8, addEpi32, srliSi128]

/-- The eight lanes together hold the sixteen blocks of four columns. -/
theorem dotProduct_eq {row nibbles : Bytes 64} (hn : ∀ j : Nat, nibbles[j]! < 16) :
    Avx2.dotProduct row nibbles = CryptixMiner.dotProduct row nibbles := by
  have hacc : ∀ k < 8, (accumRowChunk (accumRowChunk (Vector.replicate 8 0) row (loadu nibbles 0) 0) row
      (loadu nibbles 32) 32)[k]!.toUInt32 = columns row nibbles (4 * k) + columns row nibbles (32 + 4 * k) := by
    intro k hk
    rw [Loop.getElem!_eq _ hk, toUInt32_accumRowChunk hn hk, toUInt32_accumRowChunk hn hk, Vector.getElem_replicate,
      Nat.zero_add]
    show (0 : UInt32) + _ + _ = _
    rw [UInt32.zero_add]
  rw [Avx2.dotProduct, CryptixMiner.dotProduct, hsumU32x8_eq]
  simp (disch := decide) only [hacc]
  simp only [addColumns_eq, Loop.forRange, Nat.fold, UInt32.zero_add, Nat.reduceMul, Nat.reduceAdd]
  ac_rfl

end Avx2

/-! ### Four rows at once -/

/-- Four sums that are computed side by side do not meet. -/
theorem forRange_sums (f1 f2 f3 f4 : Nat → UInt32 → UInt32) (s : Sums) (n : Nat) :
    Loop.forRange 0 n (fun i (s : Sums) =>
        { sum1 := f1 i s.sum1, sum2 := f2 i s.sum2, sum3 := f3 i s.sum3, sum4 := f4 i s.sum4 }) s =
      ⟨Loop.forRange 0 n f1 s.sum1, Loop.forRange 0 n f2 s.sum2, Loop.forRange 0 n f3 s.sum3,
        Loop.forRange 0 n f4 s.sum4⟩ := by
  refine Loop.forRange_inv (P := fun i (t : Sums) => t = ⟨Loop.forRange 0 i f1 s.sum1, Loop.forRange 0 i f2 s.sum2,
    Loop.forRange 0 i f3 s.sum3, Loop.forRange 0 i f4 s.sum4⟩) (Nat.zero_le n) (by simp) fun i t hi _ ht => ?_
  subst ht
  simp only [Loop.forRange_succ hi]

theorem dotProducts4Rows_eq {row0 row1 row2 row3 nibbles : Bytes 64} (useAvx2 : Bool)
    (hn : ∀ j : Nat, nibbles[j]! < 16) : dotProducts4Rows row0 row1 row2 row3 nibbles useAvx2 =
      ⟨dotProduct row0 nibbles, dotProduct row1 nibbles, dotProduct row2 nibbles, dotProduct row3 nibbles⟩ := by
  cases useAvx2 with
  | true => simp [dotProducts4Rows, Avx2.dotProducts4Rows, Avx2.dotProduct_eq hn]
  | false =>
    rw [dotProducts4Rows, if_neg Bool.false_ne_true]
    exact forRange_sums (fun block sum => addColumns sum row0 nibbles (4 * block))
      (fun block sum => addColumns sum row1 nibbles (4 * block))
      (fun block sum => addColumns sum row2 nibbles (4 * block))
      (fun block sum => addColumns sum row3 nibbles (4 * block)) ⟨0, 0, 0, 0⟩ 16

end CryptixMiner
