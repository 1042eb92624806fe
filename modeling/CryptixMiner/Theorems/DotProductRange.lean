import Mathlib.Algebra.BigOperators.Group.Finset.Basic
import CryptixMiner.Theorems.DotProducts

/-! The ranges of the dot products: on the scalar and on the vector path, no stage leaves its word, so that what
    both return is the sum over the integers. -/

namespace CryptixMiner

/-- The dot product over the numbers, up to column `n`. -/
def exactDot (row nibbles : Bytes 64) (n : Nat) : Nat := ∑ j ∈ Finset.range n, row[j]!.toNat * nibbles[j]!.toNat

theorem exactDot_succ (row nibbles : Bytes 64) (n : Nat) :
    exactDot row nibbles (n + 1) = exactDot row nibbles n + row[n]!.toNat * nibbles[n]!.toNat :=
  Finset.sum_range_succ _ n

section
variable {row nibbles : Bytes 64}

theorem product_le (row : Bytes 64) (hn : ∀ j : Nat, nibbles[j]! < 16) (j : Nat) : row[j]!.toNat * nibbles[j]!.toNat ≤ 3825 := by
  have hrow : row[j]!.toNat < 256 := row[j]!.toNat_lt
  have hnib : nibbles[j]!.toNat < 16 := UInt8.lt_iff_toNat_lt.mp (hn j)
  have hrow' : row[j]!.toNat ≤ 255 := Nat.le_of_lt_succ hrow
  have hnib' : nibbles[j]!.toNat ≤ 15 := Nat.le_of_lt_succ hnib
  exact Nat.mul_le_mul hrow' hnib'

theorem exactDot_le (row : Bytes 64) (hn : ∀ j : Nat, nibbles[j]! < 16) (n : Nat) : exactDot row nibbles n ≤ 3825 * n := by
  induction n with
  | zero => exact Nat.le_refl 0
  | succ n ih =>
    have hprod := product_le row hn n
    rw [exactDot_succ]
    omega

/-! ### The scalar loop -/

theorem toNat_add_of_lt {x y : UInt32} (h : x.toNat + y.toNat < 2 ^ 32) : (x + y).toNat = x.toNat + y.toNat := by
  rw [UInt32.toNat_add, Nat.mod_eq_of_lt h]

theorem checkedAdd_of_lt {x y : UInt32} (h : x.toNat + y.toNat < 2 ^ 32) : checkedAdd x y = some (x + y) := if_pos h

theorem toNat_product (hn : ∀ j : Nat, nibbles[j]! < 16) (j : Nat) :
    (row[j]!.toUInt32 * nibbles[j]!.toUInt32).toNat = row[j]!.toNat * nibbles[j]!.toNat := by
  have hprod := product_le row hn j
  rw [UInt32.toNat_mul, UInt8.toNat_toUInt32, UInt8.toNat_toUInt32, Nat.mod_eq_of_lt (by omega)]

theorem checkedMul_product (hn : ∀ j : Nat, nibbles[j]! < 16) (j : Nat) :
    checkedMul row[j]!.toUInt32 nibbles[j]!.toUInt32 = some (row[j]!.toUInt32 * nibbles[j]!.toUInt32) := by
  have hprod := product_le row hn j
  refine if_pos ?_
  rw [UInt8.toNat_toUInt32, UInt8.toNat_toUInt32]
  omega

/-- The four products of a block and their sums stay below `2^32`. -/
theorem columns_exact (row : Bytes 64) (hn : ∀ j : Nat, nibbles[j]! < 16) (j : Nat) :
    exactDot row nibbles (j + 4) = exactDot row nibbles j + (columns row nibbles j).toNat ∧
      (columns row nibbles j).toNat ≤ 15300 := by
  have h0 := product_le row hn j
  have h1 := product_le row hn (j + 1)
  have h2 := product_le row hn (j + 2)
  have h3 := product_le row hn (j + 3)
  simp only [← toNat_product hn] at h0 h1 h2 h3
  have hsum : (columns row nibbles j).toNat = row[j]!.toNat * nibbles[j]!.toNat
      + row[j + 1]!.toNat * nibbles[j + 1]!.toNat + row[j + 2]!.toNat * nibbles[j + 2]!.toNat
      + row[j + 3]!.toNat * nibbles[j + 3]!.toNat := by
    simp only [← toNat_product hn]
    unfold columns
    rw [UInt32.toNat_add, UInt32.toNat_add, UInt32.toNat_add]
    omega
  refine ⟨?_, ?_⟩
  · rw [exactDot_succ, exactDot_succ, exactDot_succ, exactDot_succ, hsum]
    omega
  · rw [hsum]
    simp only [← toNat_product hn]
    omega

theorem addColumnsChecked_eq (hn : ∀ j : Nat, nibbles[j]! < 16) {sum : UInt32} {j : Nat}
    (hsum : sum.toNat + (columns row nibbles j).toNat < 2 ^ 32) :
    addColumnsChecked sum row nibbles j = some (addColumns sum row nibbles j) := by
  have h0 := product_le row hn j
  have h1 := product_le row hn (j + 1)
  have h2 := product_le row hn (j + 2)
  have h3 := product_le row hn (j + 3)
  simp only [← toNat_product hn] at h0 h1 h2 h3
  have h01 := toNat_add_of_lt (Nat.lt_of_le_of_lt (Nat.add_le_add h0 h1) (by decide))
  have h012 := toNat_add_of_lt (Nat.lt_of_le_of_lt (Nat.add_le_add (Nat.le_of_eq h01) h2) (by omega))
  simp only [addColumnsChecked, checkedMul_product hn, Option.bind_eq_bind, Option.bind_some]
  rw [checkedAdd_of_lt (by omega), Option.bind_some, checkedAdd_of_lt (by omega), Option.bind_some,
    checkedAdd_of_lt (by omega), Option.bind_some]
  exact checkedAdd_of_lt hsum

/-- After `block` rounds the sum is that of the first columns. -/
theorem toNat_addColumns_loop (hn : ∀ j : Nat, nibbles[j]! < 16) {blocks : Nat} (hb : blocks ≤ 16) :
    (Loop.forRange 0 blocks (fun block sum => addColumns sum row nibbles (4 * block)) 0).toNat =
      exactDot row nibbles (4 * blocks) := by
  refine Loop.forRange_inv (P := fun i (sum : UInt32) => sum.toNat = exactDot row nibbles (4 * i)) (Nat.zero_le _) rfl
    fun i sum _ hi hsum => ?_
  obtain ⟨hexact, hle⟩ := columns_exact row hn (4 * i)
  have hbound := exactDot_le row hn (4 * i)
  rw [addColumns_eq, toNat_add_of_lt (by omega), hsum, Nat.mul_succ, hexact]

theorem toNat_dotProduct (hn : ∀ j : Nat, nibbles[j]! < 16) : (dotProduct row nibbles).toNat = exactDot row nibbles 64 :=
  toNat_addColumns_loop hn (Nat.le_refl 16)

end

/-- In a build that checks arithmetic, the scalar loop does not panic. -/
theorem dotProducts4RowsChecked_eq {row0 row1 row2 row3 nibbles : Bytes 64} (hn : ∀ j : Nat, nibbles[j]! < 16) :
    dotProducts4RowsChecked row0 row1 row2 row3 nibbles =
      some (dotProducts4Rows row0 row1 row2 row3 nibbles false) := by
  rw [dotProducts4Rows_eq false hn]
  refine Loop.forRange_inv (P := fun i (s : Option Sums) => s = some
      ⟨Loop.forRange 0 i (fun block sum => addColumns sum row0 nibbles (4 * block)) 0,
        Loop.forRange 0 i (fun block sum => addColumns sum row1 nibbles (4 * block)) 0,
        Loop.forRange 0 i (fun block sum => addColumns sum row2 nibbles (4 * block)) 0,
        Loop.forRange 0 i (fun block sum => addColumns sum row3 nibbles (4 * block)) 0⟩)
    (Nat.zero_le 16) (by simp) fun i s _ hi hs => ?_
  have hfits : ∀ row : Bytes 64,
      (Loop.forRange 0 i (fun block sum => addColumns sum row nibbles (4 * block)) 0).toNat +
        (columns row nibbles (4 * i)).toNat < 2 ^ 32 := fun row => by
    have hbound := exactDot_le row hn (4 * i)
    have hle := (columns_exact row hn (4 * i)).2
    rw [toNat_addColumns_loop hn (Nat.le_of_lt hi)]
    omega
  rw [hs, Option.bind_some]
  simp only [addColumnsChecked_eq hn (hfits _), Option.bind_eq_bind, Option.bind_some, Loop.forRange_succ (Nat.zero_le i)]

/-! ### The vector instructions -/

namespace Avx2

/-- The 16-bit products of a chunk, in pairs. -/
def mul16 (row nibbles : Bytes 64) (offset : Nat) : Vector Int16 16 :=
  maddubsEpi16 (loadu row offset) (loadu nibbles offset)

def mul32 (row nibbles : Bytes 64) (offset : Nat) : Vector Int32 8 :=
  maddEpi16 (mul16 row nibbles offset) (Vector.replicate 16 1)

/-- The accumulator after the first chunk, and after both. -/
def acc1 (row nibbles : Bytes 64) : Vector Int32 8 := addEpi32 (Vector.replicate 8 0) (mul32 row nibbles 0)

def acc2 (row nibbles : Bytes 64) : Vector Int32 8 := addEpi32 (acc1 row nibbles) (mul32 row nibbles 32)

def low (v : Vector Int32 8) : Vector Int32 4 := Array.toVector #[v[0]!, v[1]!, v[2]!, v[3]!]

def high (v : Vector Int32 8) : Vector Int32 4 := Array.toVector #[v[4]!, v[5]!, v[6]!, v[7]!]

def sum128 (v : Vector Int32 8) : Vector Int32 4 := addEpi32 (low v) (high v)

def sum64 (v : Vector Int32 8) : Vector Int32 4 := addEpi32 (sum128 v) (srliSi128 (sum128 v) 2)

/-- No lane of the sum wraps. -/
def AddsExactly {n : Nat} (a b : Vector Int32 n) : Prop :=
  ∀ k (_ : k < n), (addEpi32 a b)[k].toInt = a[k].toInt + b[k].toInt

/-- The stages of a row's vector sum, and what each of them returns: no pair saturates, no lane wraps. -/
structure Exact (row nibbles : Bytes 64) : Prop where
  stages : dotProduct row nibbles =
    (addEpi32 (sum64 (acc2 row nibbles)) (srliSi128 (sum64 (acc2 row nibbles)) 1))[0]!.toUInt32
  pairs : ∀ offset ∈ [0, 32], ∀ k (_ : k < 16), (mul16 row nibbles offset)[k].toInt =
    ((row[offset + 2 * k]!.toNat * nibbles[offset + 2 * k]!.toNat
      + row[offset + (2 * k + 1)]!.toNat * nibbles[offset + (2 * k + 1)]!.toNat : Nat) : Int)
  quads : ∀ offset ∈ [0, 32], ∀ k (_ : k < 8), (mul32 row nibbles offset)[k].toInt =
    (mul16 row nibbles offset)[2 * k].toInt + (mul16 row nibbles offset)[2 * k + 1].toInt
  chunks : AddsExactly (Vector.replicate 8 0) (mul32 row nibbles 0) ∧ AddsExactly (acc1 row nibbles) (mul32 row nibbles 32)
  hsum : AddsExactly (low (acc2 row nibbles)) (high (acc2 row nibbles)) ∧
    AddsExactly (sum128 (acc2 row nibbles)) (srliSi128 (sum128 (acc2 row nibbles)) 2) ∧
    AddsExactly (sum64 (acc2 row nibbles)) (srliSi128 (sum64 (acc2 row nibbles)) 1)

/-- Every lane lies between zero and the bound. -/
def Within {n : Nat} (v : Vector Int32 n) (bound : Int) : Prop := ∀ k (_ : k < n), 0 ≤ v[k].toInt ∧ v[k].toInt ≤ bound

section
variable {n : Nat} {a b : Vector Int32 n} {A B : Int}

theorem addEpi32_within (ha : Within a A) (hb : Within b B) (hfits : A + B < 2 ^ 31) :
    AddsExactly a b ∧ Within (addEpi32 a b) (A + B) := by
  have hexact : AddsExactly a b := fun k hk => by
    obtain ⟨ha0, haA⟩ := ha k hk
    obtain ⟨hb0, hbB⟩ := hb k hk
    rw [addEpi32, Vector.getElem_ofFn, Loop.getElem!_eq a hk, Loop.getElem!_eq b hk, Int32.toInt_add]
    exact Int.bmod_eq_of_le (by omega) (by omega)
  refine ⟨hexact, fun k hk => ?_⟩
  have ha' := ha k hk
  have hb' := hb k hk
  rw [hexact k hk]
  omega

theorem srliSi128_within {v : Vector Int32 4} (hv : Within v A) (hA : 0 ≤ A) (lanes : Nat) :
    Within (srliSi128 v lanes) A := fun k hk => by
  rw [srliSi128, Vector.getElem_ofFn]
  split
  · exact hv _ _
  · exact ⟨Int.le_refl 0, hA⟩

theorem low_within {v : Vector Int32 8} (hv : Within v A) : Within (low v) A := fun k hk => by
  have hcase : k = 0 ∨ k = 1 ∨ k = 2 ∨ k = 3 := by omega
  rcases hcase with rfl | rfl | rfl | rfl <;> simpa [low] using hv _ _

theorem high_within {v : Vector Int32 8} (hv : Within v A) : Within (high v) A := fun k hk => by
  have hcase : k = 0 ∨ k = 1 ∨ k = 2 ∨ k = 3 := by omega
  rcases hcase with rfl | rfl | rfl | rfl <;> simpa [high] using hv _ _

end

section
variable {row nibbles : Bytes 64} {offset : Nat}

theorem toInt_mul16 (hn : ∀ j : Nat, nibbles[j]! < 16) {k : Nat} (hk : k < 16) : (mul16 row nibbles offset)[k].toInt =
    ((row[offset + 2 * k]!.toNat * nibbles[offset + 2 * k]!.toNat
      + row[offset + (2 * k + 1)]!.toNat * nibbles[offset + (2 * k + 1)]!.toNat : Nat) : Int) := by
  have hnib : ∀ i (_ : i < 32), (loadu nibbles offset)[i] < 16 := fun i hi => by
    rw [getElem_loadu nibbles hi]
    exact hn _
  rw [mul16, toInt_maddubsEpi16 hnib hk]
  simp only [getElem_loadu]

theorem mul16_within (row : Bytes 64) (offset : Nat) (hn : ∀ j : Nat, nibbles[j]! < 16) {k : Nat} (hk : k < 16) :
    0 ≤ (mul16 row nibbles offset)[k].toInt ∧ (mul16 row nibbles offset)[k].toInt ≤ 7650 := by
  have h0 := product_le row hn (offset + 2 * k)
  have h1 := product_le row hn (offset + (2 * k + 1))
  rw [toInt_mul16 hn hk]
  omega

theorem toInt_mul32 (hn : ∀ j : Nat, nibbles[j]! < 16) {k : Nat} (hk : k < 8) : (mul32 row nibbles offset)[k].toInt =
    (mul16 row nibbles offset)[2 * k].toInt + (mul16 row nibbles offset)[2 * k + 1].toInt := by
  have h0 := mul16_within row offset hn (k := 2 * k) (by omega)
  have h1 := mul16_within row offset hn (k := 2 * k + 1) (by omega)
  have hone : (1 : Int16).toInt = 1 := by decide
  simp only [mul32, maddEpi16, Vector.getElem_ofFn, Vector.getElem_replicate, hone, Int.mul_one]
  exact Int32.toInt_ofInt_of_le (by omega) (by omega)

theorem mul32_within (row : Bytes 64) (offset : Nat) (hn : ∀ j : Nat, nibbles[j]! < 16) : Within (mul32 row nibbles offset) 15300 := fun k hk => by
  have h0 := mul16_within row offset hn (k := 2 * k) (by omega)
  have h1 := mul16_within row offset hn (k := 2 * k + 1) (by omega)
  rw [toInt_mul32 hn hk]
  omega

theorem exact_of_nibbles (hn : ∀ j : Nat, nibbles[j]! < 16) : Exact row nibbles := by
  have hzero : Within (Vector.replicate 8 (0 : Int32)) 0 := fun k hk => by
    rw [Vector.getElem_replicate]
    exact ⟨Int.le_refl 0, Int.le_refl 0⟩
  obtain ⟨hexact1, hacc1⟩ := addEpi32_within hzero (mul32_within row 0 hn) (by decide)
  obtain ⟨hexact2, hacc2⟩ := addEpi32_within hacc1 (mul32_within row 32 hn) (by decide)
  obtain ⟨hexact128, h128⟩ := addEpi32_within (low_within hacc2) (high_within hacc2) (by decide)
  obtain ⟨hexact64, h64⟩ := addEpi32_within h128 (srliSi128_within h128 (by decide) 2) (by decide)
  obtain ⟨hexact32, -⟩ := addEpi32_within h64 (srliSi128_within h64 (by decide) 1) (by decide)
  exact ⟨rfl, fun _ _ _ hk => toInt_mul16 hn hk, fun _ _ _ hk => toInt_mul32 hn hk, ⟨hexact1, hexact2⟩,
    ⟨hexact128, hexact64, hexact32⟩⟩

end
end Avx2

/-! ### Four rows -/

/-- The sums are those over the numbers. -/
structure Sums.Exact (s : Sums) (row0 row1 row2 row3 nibbles : Bytes 64) : Prop where
  sum1 : s.sum1.toNat = exactDot row0 nibbles 64
  sum2 : s.sum2.toNat = exactDot row1 nibbles 64
  sum3 : s.sum3.toNat = exactDot row2 nibbles 64
  sum4 : s.sum4.toNat = exactDot row3 nibbles 64

/-- Both paths return the four dot products over the numbers: the scalar one does not panic where arithmetic is
    checked, and on the vector one every stage of every row is exact. -/
theorem dotProducts4Rows_exact (row0 row1 row2 row3 nibbles : Bytes 64) (hn : ∀ j (_ : j < 64), nibbles[j] < 16) :
    dotProducts4Rows row0 row1 row2 row3 nibbles true = dotProducts4Rows row0 row1 row2 row3 nibbles false ∧
    (dotProducts4Rows row0 row1 row2 row3 nibbles false).Exact row0 row1 row2 row3 nibbles ∧
    dotProducts4RowsChecked row0 row1 row2 row3 nibbles = some (dotProducts4Rows row0 row1 row2 row3 nibbles false) ∧
    ∀ row ∈ [row0, row1, row2, row3], Avx2.Exact row nibbles := by
  have hn' : ∀ j : Nat, nibbles[j]! < 16 := fun j => by
    by_cases hj : j < 64
    · rw [Loop.getElem!_eq _ hj]
      exact hn j hj
    · rw [getElem!_neg nibbles j hj]
      decide
  refine ⟨?_, ?_, dotProducts4RowsChecked_eq hn', fun row _ => Avx2.exact_of_nibbles hn'⟩
  · rw [dotProducts4Rows_eq true hn', dotProducts4Rows_eq false hn']
  · rw [dotProducts4Rows_eq false hn']
    exact ⟨toNat_dotProduct hn', toNat_dotProduct hn', toNat_dotProduct hn', toNat_dotProduct hn'⟩

theorem dotProducts4Rows_exact_full :
    dotProducts4Rows (Vector.replicate 64 255) (Vector.replicate 64 255) (Vector.replicate 64 255) (Vector.replicate 64 255)
        (Vector.replicate 64 15) true =
      dotProducts4Rows (Vector.replicate 64 255) (Vector.replicate 64 255) (Vector.replicate 64 255)
        (Vector.replicate 64 255) (Vector.replicate 64 15) false :=
  (dotProducts4Rows_exact _ _ _ _ (Vector.replicate 64 15) fun j _ => by
    rw [Vector.getElem_replicate]
    decide).1

end CryptixMiner
