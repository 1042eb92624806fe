import CryptixMiner.Pow.Hasher

/-! The matrix hash of `src/pow/heavy_hash.rs`, as the processor computes it: four dot products a byte,
    an octonion product over the bytes, a substitution table of 256 entries, and the final mix. -/

namespace CryptixMiner

/-- A square matrix of nibbles, one a byte. -/
structure Matrix where
  rows : Vector (Bytes 64) 64

/-- The bytes of the matrix, row after row, as they are uploaded to a device. -/
def Matrix.bytes (m : Matrix) : Bytes 4096 := m.rows.flatten

/-- Every entry is a nibble: what `Matrix::generate` produces. -/
def Matrix.Nibbles (m : Matrix) : Prop := ∀ i (_ : i < 64) j (_ : j < 64), m.rows[i][j] < 16

/-- The four arrays the substitution table is made of. -/
structure Buffers where
  product : Bytes 32
  hashBytes : Bytes 32
  nibbleProduct : Bytes 32
  productBeforeOct : Bytes 32

/-! ### Tables -/

def SEL_PRODUCT : UInt8 := 0
def SEL_HASH : UInt8 := 1
def SEL_NIBBLE : UInt8 := 2
def SEL_BEFORE_OCT : UInt8 := 3

def SBOX_SOURCE_SELECTORS : Bytes 16 := Array.toVector #[
  SEL_PRODUCT, SEL_HASH, SEL_NIBBLE, SEL_HASH, SEL_BEFORE_OCT, SEL_HASH, SEL_PRODUCT, SEL_HASH,
  SEL_BEFORE_OCT, SEL_HASH, SEL_NIBBLE, SEL_HASH, SEL_BEFORE_OCT, SEL_HASH, SEL_PRODUCT, SEL_HASH]

def SBOX_VALUE_SELECTORS : Bytes 16 := Array.toVector #[
  SEL_PRODUCT, SEL_HASH, SEL_BEFORE_OCT, SEL_NIBBLE, SEL_PRODUCT, SEL_HASH, SEL_BEFORE_OCT, SEL_NIBBLE,
  SEL_PRODUCT, SEL_HASH, SEL_BEFORE_OCT, SEL_NIBBLE, SEL_PRODUCT, SEL_HASH, SEL_BEFORE_OCT, SEL_NIBBLE]

def SBOX_VALUE_MULTIPLIERS : Bytes 16 := Array.toVector #[
  0x03, 0x05, 0x07, 0x0F, 0x11, 0x13, 0x17, 0x19, 0x1D, 0x1F, 0x23, 0x29, 0x2F, 0x31, 0x37, 0x3F]

def SBOX_VALUE_ADDERS : Bytes 16 := Array.toVector #[
  0xAA, 0xBB, 0xCC, 0xDD, 0xEE, 0xFF, 0x11, 0x22, 0x33, 0x44, 0x55, 0x66, 0x77, 0x88, 0x99, 0xAA]

set_option maxRecDepth 2000 in
def AFTER_COMP_LUT : Bytes 256 := Array.toVector #[
  0x75, 0x7C, 0xEB, 0x87, 0x24, 0xE7, 0x3D, 0x07, 0x48, 0x32, 0xB2, 0xEE, 0xEF, 0x97, 0xC2, 0x2B,
  0xE9, 0x4B, 0xE2, 0xAF, 0x2F, 0xF3, 0x19, 0xE7, 0x83, 0x94, 0xB9, 0x4B, 0x09, 0x78, 0x95, 0x69,
  0x55, 0xF7, 0xF7, 0x9F, 0x67, 0x01, 0x4A, 0xCE, 0xD1, 0x57, 0x64, 0x03, 0xE1, 0x72, 0x8D, 0xCD,
  0x67, 0x41, 0x6A, 0x10, 0xC0, 0x55, 0x42, 0xBD, 0x28, 0x26, 0xEE, 0x75, 0x51, 0x2B, 0x7B, 0xE6,
  0xE0, 0x38, 0xD7, 0x1D, 0x48, 0x7D, 0x6C, 0x17, 0x53, 0xFA, 0x7A, 0x89, 0x09, 0x8A, 0x43, 0x7B,
  0x3B, 0xEE, 0x9F, 0x09, 0xD9, 0x07, 0xD6, 0x66, 0x23, 0x13, 0x82, 0x5B, 0x4B, 0x6B, 0xC2, 0xAF,
  0xFD, 0xD8, 0x92, 0x0E, 0x40, 0x89, 0x32, 0xEE, 0x14, 0x9A, 0xA4, 0xAC, 0xEC, 0xF9, 0x9D, 0x3A,
  0xBC, 0x51, 0x05, 0x6A, 0x11, 0xA7, 0xAC, 0x1B, 0x71, 0x40, 0x0D, 0x05, 0xD0, 0x61, 0x05, 0xE2,
  0x5A, 0x1D, 0xCA, 0x4C, 0x56, 0x40, 0x2A, 0x49, 0x67, 0x61, 0x69, 0x21, 0x80, 0x85, 0x59, 0xB8,
  0x2C, 0xD0, 0x20, 0xDA, 0x88, 0xAC, 0xCC, 0xD1, 0x70, 0x76, 0x98, 0x7F, 0x7C, 0x55, 0xD0, 0xD6,
  0x2B, 0xA5, 0xB7, 0x03, 0x9E, 0x37, 0x9B, 0xB9, 0xF1, 0xE8, 0x1F, 0xE0, 0x42, 0x6B, 0x62, 0x63,
  0xB7, 0xDC, 0x8E, 0xCC, 0x6C, 0xB7, 0x76, 0x27, 0xC1, 0xEC, 0x72, 0x17, 0xCE, 0x76, 0x65, 0x8C,
  0x9F, 0x16, 0xDB, 0xB2, 0x5F, 0x7F, 0x14, 0x5A, 0x42, 0x89, 0xEC, 0x1D, 0xC5, 0xC9, 0xA0, 0x30,
  0xDD, 0x3C, 0xDC, 0x7B, 0x8A, 0x47, 0x3E, 0xB5, 0xEA, 0xA9, 0xA9, 0x6A, 0x89, 0x65, 0x4D, 0x3A,
  0xC8, 0xAD, 0xBB, 0xAD, 0xA0, 0xE5, 0xB8, 0xF6, 0xCD, 0x08, 0xA3, 0xE8, 0xA0, 0x5E, 0x18, 0xA6,
  0x65, 0x27, 0x26, 0x5C, 0x21, 0xA8, 0xF4, 0x3C, 0xCA, 0x95, 0x15, 0xFC, 0x9C, 0x1B, 0x9A, 0x0B]

/-! ### Dot products -/

/-- The dot products of four rows with the nibbles. -/
structure Sums where
  sum1 : UInt32
  sum2 : UInt32
  sum3 : UInt32
  sum4 : UInt32

/-- Adds the products of four columns of a row, the first of them column `j`. -/
def addColumns (sum : UInt32) (row nibbles : Bytes 64) (j : Nat) : UInt32 :=
  sum + (row[j]!.toUInt32 * nibbles[j]!.toUInt32 + row[j + 1]!.toUInt32 * nibbles[j + 1]!.toUInt32
    + row[j + 2]!.toUInt32 * nibbles[j + 2]!.toUInt32 + row[j + 3]!.toUInt32 * nibbles[j + 3]!.toUInt32)

namespace Avx2

def saturate16 (x : Int) : Int16 := Int16.ofInt (max (-32768) (min 32767 x))

/-- `_mm256_maddubs_epi16`: unsigned bytes times signed bytes, added in pairs with saturation. -/
def maddubsEpi16 (a b : Bytes 32) : Vector Int16 16 := Vector.ofFn fun k =>
  saturate16 (a[2 * k.val].toNat * b[2 * k.val].toInt8.toInt + a[2 * k.val + 1].toNat * b[2 * k.val + 1].toInt8.toInt)

/-- `_mm256_madd_epi16`: signed words times signed words, added in pairs. -/
def maddEpi16 (a b : Vector Int16 16) : Vector Int32 8 := Vector.ofFn fun k =>
  Int32.ofInt (a[2 * k.val].toInt * b[2 * k.val].toInt + a[2 * k.val + 1].toInt * b[2 * k.val + 1].toInt)

/-- `_mm256_add_epi32`. -/
def addEpi32 {n : Nat} (a b : Vector Int32 n) : Vector Int32 n := Vector.ofFn fun k => a[k.val]! + b[k.val]!

/-- `_mm_srli_si128` by `4 * lanes` bytes. -/
def srliSi128 (v : Vector Int32 4) (lanes : Nat) : Vector Int32 4 := Vector.ofFn fun k =>
  if h : k.val + lanes < 4 then v[k.val + lanes] else 0

/-- `_mm256_loadu_si256` of the 32 bytes from `offset` on. -/
def loadu (bytes : Bytes 64) (offset : Nat) : Bytes 32 := Vector.ofFn fun k => bytes[offset + k.val]!

def hsumU32x8 (v : Vector Int32 8) : UInt32 :=
  let lo : Vector Int32 4 := #v[v[0]!, v[1]!, v[2]!, v[3]!]
  let hi : Vector Int32 4 := #v[v[4]!, v[5]!, v[6]!, v[7]!]
  let sum128 := addEpi32 lo hi
  let sum64 := addEpi32 sum128 (srliSi128 sum128 2)
  let sum32 := addEpi32 sum64 (srliSi128 sum64 1)
  sum32[0]!.toUInt32

/-- `accum_row_chunk!`. -/
def accumRowChunk (acc : Vector Int32 8) (row : Bytes 64) (nib : Bytes 32) (offset : Nat) : Vector Int32 8 :=
  let ones : Vector Int16 16 := Vector.replicate 16 1
  let mul16 := maddubsEpi16 (loadu row offset) nib
  addEpi32 acc (maddEpi16 mul16 ones)

/-- One row of `dot_products_4rows_avx2`. -/
def dotProduct (row nibbles : Bytes 64) : UInt32 :=
  let n0 := loadu nibbles 0
  let n1 := loadu nibbles 32
  let acc := accumRowChunk (Vector.replicate 8 0) row n0 0
  hsumU32x8 (accumRowChunk acc row n1 32)

def dotProducts4Rows (row0 row1 row2 row3 nibbles : Bytes 64) : Sums :=
  ⟨dotProduct row0 nibbles, dotProduct row1 nibbles, dotProduct row2 nibbles, dotProduct row3 nibbles⟩

end Avx2

/-- The dot products of four rows. `useAvx2` is what `avx2_available` found. -/
def dotProducts4Rows (row0 row1 row2 row3 nibbles : Bytes 64) (useAvx2 : Bool) : Sums :=
  if useAvx2 then Avx2.dotProducts4Rows row0 row1 row2 row3 nibbles
  else Loop.forRange 0 16 (fun block s =>
    let j := 4 * block
    { sum1 := addColumns s.sum1 row0 nibbles j
      sum2 := addColumns s.sum2 row1 nibbles j
      sum3 := addColumns s.sum3 row2 nibbles j
      sum4 := addColumns s.sum4 row3 nibbles j }) ⟨0, 0, 0, 0⟩

/-- `x + y` and `x * y` in a build that checks arithmetic, with a panic as `none`. -/
def checkedAdd (x y : UInt32) : Option UInt32 := if x.toNat + y.toNat < 2 ^ 32 then some (x + y) else none

def checkedMul (x y : UInt32) : Option UInt32 := if x.toNat * y.toNat < 2 ^ 32 then some (x * y) else none

def addColumnsChecked (sum : UInt32) (row nibbles : Bytes 64) (j : Nat) : Option UInt32 := do
  let p0 ← checkedMul row[j]!.toUInt32 nibbles[j]!.toUInt32
  let p1 ← checkedMul row[j + 1]!.toUInt32 nibbles[j + 1]!.toUInt32
  let p2 ← checkedMul row[j + 2]!.toUInt32 nibbles[j + 2]!.toUInt32
  let p3 ← checkedMul row[j + 3]!.toUInt32 nibbles[j + 3]!.toUInt32
  let p01 ← checkedAdd p0 p1
  let p012 ← checkedAdd p01 p2
  let columns ← checkedAdd p012 p3
  checkedAdd sum columns

/-- The scalar loop of `dotProducts4Rows` in such a build. -/
def dotProducts4RowsChecked (row0 row1 row2 row3 nibbles : Bytes 64) : Option Sums :=
  Loop.forRange 0 16 (fun block s => s.bind fun s => do
    let j := 4 * block
    let sum1 ← addColumnsChecked s.sum1 row0 nibbles j
    let sum2 ← addColumnsChecked s.sum2 row1 nibbles j
    let sum3 ← addColumnsChecked s.sum3 row2 nibbles j
    let sum4 ← addColumnsChecked s.sum4 row3 nibbles j
    some { sum1, sum2, sum3, sum4 }) (some ⟨0, 0, 0, 0⟩)

/-! ### The nibbles of an output byte -/

namespace Sums

def aNibble (s : Sums) : UInt32 :=
  (s.sum1 &&& 0xF) ^^^ nibbleAt s.sum2 4 ^^^ nibbleAt s.sum3 8
    ^^^ nibbleAt (s.sum1 * 0xABCD) 12 ^^^ nibbleAt (s.sum1 * 0x1234) 8
    ^^^ nibbleAt (s.sum2 * 0x5678) 16 ^^^ nibbleAt (s.sum3 * 0x9ABC) 4
    ^^^ ((rotateLeft32 s.sum1 3 &&& 0xF) ^^^ (rotateRight32 s.sum3 5 &&& 0xF))

def bNibble (s : Sums) : UInt32 :=
  (s.sum2 &&& 0xF) ^^^ nibbleAt s.sum1 4 ^^^ nibbleAt s.sum4 8
    ^^^ nibbleAt (s.sum2 * 0xDCBA) 14 ^^^ nibbleAt (s.sum2 * 0x8765) 10
    ^^^ nibbleAt (s.sum1 * 0x4321) 6
    ^^^ ((rotateLeft32 s.sum4 2 ^^^ rotateRight32 s.sum1 1) &&& 0xF)

def cNibble (s : Sums) : UInt32 :=
  (s.sum3 &&& 0xF) ^^^ nibbleAt s.sum2 4 ^^^ nibbleAt s.sum2 8
    ^^^ nibbleAt (s.sum3 * 0xF135) 10 ^^^ nibbleAt (s.sum3 * 0x2468) 12
    ^^^ nibbleAt (s.sum4 * 0xACEF) 8 ^^^ nibbleAt (s.sum2 * 0x1357) 4
    ^^^ ((rotateLeft32 s.sum3 5 &&& 0xF) ^^^ (rotateRight32 s.sum1 7 &&& 0xF))

def dNibble (s : Sums) : UInt32 :=
  (s.sum1 &&& 0xF) ^^^ nibbleAt s.sum4 4 ^^^ nibbleAt s.sum1 8
    ^^^ nibbleAt (s.sum4 * 0x57A3) 6 ^^^ nibbleAt (s.sum3 * 0xD4E3) 12
    ^^^ nibbleAt (s.sum1 * 0x9F8B) 10
    ^^^ ((rotateLeft32 s.sum4 4 ^^^ (s.sum1 + s.sum2)) &&& 0xF)

/-- The byte of `nibble_product`. -/
def nibbleByte (s : Sums) (hashByte : UInt8) : UInt8 := ((s.cNibble <<< 4) ||| s.dNibble).toUInt8 ^^^ hashByte

/-- The byte of `product`. -/
def productByte (s : Sums) (hashByte : UInt8) : UInt8 := ((s.aNibble <<< 4) ||| s.bNibble).toUInt8 ^^^ hashByte

end Sums

/-! ### Octonions -/

abbrev Octonion := Vector Int64 8

def octonionMultiply (a b : Octonion) : Octonion :=
  #v[a[0] * b[0] - a[1] * b[1] - a[2] * b[2] - a[3] * b[3] - a[4] * b[4] - a[5] * b[5] - a[6] * b[6] - a[7] * b[7],
    a[0] * b[1] + a[1] * b[0] + a[2] * b[3] - a[3] * b[2] + a[4] * b[5] - a[5] * b[4] - a[6] * b[7] + a[7] * b[6],
    a[0] * b[2] - a[1] * b[3] + a[2] * b[0] + a[3] * b[1] + a[4] * b[6] - a[5] * b[7] + a[6] * b[4] - a[7] * b[5],
    a[0] * b[3] + a[1] * b[2] - a[2] * b[1] + a[3] * b[0] + a[4] * b[7] + a[5] * b[6] - a[6] * b[5] + a[7] * b[4],
    a[0] * b[4] - a[1] * b[5] - a[2] * b[6] - a[3] * b[7] + a[4] * b[0] + a[5] * b[1] + a[6] * b[2] + a[7] * b[3],
    a[0] * b[5] + a[1] * b[4] - a[2] * b[7] + a[3] * b[6] - a[4] * b[1] + a[5] * b[0] + a[6] * b[3] + a[7] * b[2],
    a[0] * b[6] + a[1] * b[7] + a[2] * b[4] - a[3] * b[5] - a[4] * b[2] + a[5] * b[3] + a[6] * b[0] + a[7] * b[1],
    a[0] * b[7] - a[1] * b[6] + a[2] * b[5] + a[3] * b[4] - a[4] * b[3] + a[5] * b[2] + a[6] * b[1] + a[7] * b[0]]

def byteToInt64 (x : UInt8) : Int64 := x.toUInt64.toInt64

/-- The eight bytes from position `i` on, cyclically. -/
def rotation (inputHash : Bytes 32) (i : Nat) : Octonion :=
  #v[byteToInt64 inputHash[i % 32]!, byteToInt64 inputHash[(i + 1) % 32]!, byteToInt64 inputHash[(i + 2) % 32]!,
    byteToInt64 inputHash[(i + 3) % 32]!, byteToInt64 inputHash[(i + 4) % 32]!, byteToInt64 inputHash[(i + 5) % 32]!,
    byteToInt64 inputHash[(i + 6) % 32]!, byteToInt64 inputHash[(i + 7) % 32]!]

def octonionHash (inputHash : Bytes 32) : Octonion :=
  let oct : Octonion := #v[byteToInt64 inputHash[0]!, byteToInt64 inputHash[1]!, byteToInt64 inputHash[2]!,
    byteToInt64 inputHash[3]!, byteToInt64 inputHash[4]!, byteToInt64 inputHash[5]!, byteToInt64 inputHash[6]!,
    byteToInt64 inputHash[7]!]
  Loop.forRange 8 32 (fun i oct => octonionMultiply oct (rotation inputHash i)) oct

/-! ### The substitution table -/

namespace Buffers

/-- `match SBOX_SOURCE_SELECTORS[segment]`. -/
def sourceArray (b : Buffers) (selector : UInt8) : Bytes 32 :=
  if selector = SEL_PRODUCT then b.product
  else if selector = SEL_HASH then b.hashBytes
  else if selector = SEL_NIBBLE then b.nibbleProduct
  else b.productBeforeOct

def rotateLeftBases (b : Buffers) : Bytes 16 :=
  Array.toVector #[(b.nibbleProduct[3]! ^^^ 0x4F) * 3, (b.product[7]! ^^^ 0xA6) * 2,
    (b.productBeforeOct[1]! ^^^ 0x9C) * 9, (b.product[6]! ^^^ 0x71) * 4,
    (b.nibbleProduct[4]! ^^^ 0xB2) * 3, (b.product[0]! ^^^ 0x58) * 6,
    (b.productBeforeOct[2]! ^^^ 0x37) * 2, (b.product[5]! ^^^ 0x1A) * 5,
    (b.nibbleProduct[3]! ^^^ 0x93) * 7, (b.product[7]! ^^^ 0x29) * 9,
    (b.productBeforeOct[1]! ^^^ 0x4E) * 4, (b.nibbleProduct[6]! ^^^ 0xF3) * 5,
    (b.product[4]! ^^^ 0xB7) * 6, (b.product[0]! ^^^ 0x2D) * 8,
    (b.productBeforeOct[2]! ^^^ 0x6F) * 3, (b.nibbleProduct[5]! ^^^ 0xE1) * 7]

def rotateRightBases (b : Buffers) : Bytes 16 :=
  Array.toVector #[(b.hashBytes[2]! ^^^ 0xD3) * 5, (b.nibbleProduct[5]! ^^^ 0x5B) * 7,
    (b.product[0]! ^^^ 0x8E) * 3, (b.productBeforeOct[3]! ^^^ 0x2F) * 5,
    (b.hashBytes[7]! ^^^ 0x6D) * 7, (b.nibbleProduct[1]! ^^^ 0xEE) * 9,
    (b.hashBytes[6]! ^^^ 0x44) * 6, (b.hashBytes[4]! ^^^ 0x7C) * 8,
    (b.product[2]! ^^^ 0xAF) * 3, (b.nibbleProduct[5]! ^^^ 0xDC) * 2,
    (b.hashBytes[0]! ^^^ 0x8B) * 3, (b.productBeforeOct[3]! ^^^ 0x62) * 8,
    (b.product[7]! ^^^ 0x15) * 2, (b.productBeforeOct[1]! ^^^ 0xC8) * 7,
    (b.nibbleProduct[6]! ^^^ 0x99) * 9, (b.hashBytes[4]! ^^^ 0x3B) * 5]

/-- Entry `i` of the table before the passes over it. -/
def sboxEntry (b : Buffers) (i : Nat) : UInt8 :=
  let segment := i >>> 4
  let loc := i &&& 15
  let sourceArray := b.sourceArray SBOX_SOURCE_SELECTORS[segment]!
  let valueArray := b.sourceArray SBOX_VALUE_SELECTORS[segment]!
  let value := valueArray[loc]! * SBOX_VALUE_MULTIPLIERS[segment]! + UInt8.ofNat loc * SBOX_VALUE_ADDERS[segment]!
  let rotateLeftShift := (b.product[(i + 1) &&& 31]!.toNat + i) &&& 7
  let rotateRightShift := (b.hashBytes[(i + 2) &&& 31]!.toNat + i) &&& 7
  let rotationLeft := rotateLeft8 b.rotateLeftBases[segment]! rotateLeftShift
  let rotationRight := rotateRight8 b.rotateRightBases[segment]! rotateRightShift
  let index := (i + rotationLeft.toNat + rotationRight.toNat) &&& 31
  sourceArray[index]! ^^^ value

/-- What a pass makes of entry `i`. -/
def sboxUpdate (b : Buffers) (i : Nat) (value : UInt8) : UInt8 :=
  let rotateLeftShift := (b.product[(i + 1) &&& 31]!.toNat + i + i * 3) &&& 7
  let rotateRightShift := (b.hashBytes[(i + 2) &&& 31]!.toNat + i + i * 5) &&& 7
  let rotatedValue := rotateLeft8 value rotateLeftShift ||| rotateRight8 value rotateRightShift
  let baseValue := (UInt8.ofNat i + (b.product[(i * 3) &&& 31]! ^^^ b.hashBytes[(i * 7) &&& 31]!)) ^^^ 0xA5
  let xorValue := rotateLeft8 baseValue (i % 8) ^^^ 0x55
  value ^^^ (rotatedValue ^^^ xorValue)

def sboxIterations (b : Buffers) : Nat :=
  let updateIndex := (b.productBeforeOct[2]! % 8 + 1).toNat
  (1 + b.product[updateIndex]! % 2).toNat

/-- The table: built entry by entry, then passed over once or twice. -/
def sbox (b : Buffers) : Bytes 256 :=
  let sbox := Loop.forRange 0 256 (fun i sbox => sbox.set! i (b.sboxEntry i)) (Vector.replicate 256 0)
  Loop.forRange 0 b.sboxIterations (fun _ sbox =>
    Loop.forRange 0 256 (fun i sbox => sbox.set! i (b.sboxUpdate i sbox[i]!)) sbox) sbox

end Buffers

/-! ### The hash -/

def computeAfterCompProduct (preCompProduct : Bytes 32) : Bytes 32 :=
  Loop.forRange 0 32 (fun i out => out.set! i AFTER_COMP_LUT[preCompProduct[i]!.toNat]!) (Vector.replicate 32 0)

namespace Matrix

/-- The nibbles of the hash, the high one of each byte first. -/
def nibbles (hashBytes : Bytes 32) : Bytes 64 :=
  Loop.forRange 0 32 (fun i arr => (arr.set! (2 * i) (hashBytes[i]! >>> 4)).set! (2 * i + 1) (hashBytes[i]! &&& 0x0F))
    (Vector.replicate 64 0)

/-- Bytes `i` of `nibble_product` and `product`, from four rows. -/
def rowBody (m : Matrix) (hashBytes : Bytes 32) (useAvx2 : Bool) (i : Nat) (q : Bytes 32 × Bytes 32) :
    Bytes 32 × Bytes 32 :=
  let sums := dotProducts4Rows m.rows[2 * i]! m.rows[2 * i + 1]! m.rows[i + 2]! m.rows[i + 3]! (nibbles hashBytes)
    useAvx2
  (q.1.set! i (sums.nibbleByte hashBytes[i]!), q.2.set! i (sums.productByte hashBytes[i]!))

/-- The loop over the rows: `nibble_product` and `product`. -/
def products (m : Matrix) (hashBytes : Bytes 32) (useAvx2 : Bool) : Bytes 32 × Bytes 32 :=
  Loop.forRange 0 32 (m.rowBody hashBytes useAvx2) (Vector.replicate 32 0, Vector.replicate 32 0)

/-- Xors the first four coordinates of the octonion into the product. -/
def mixOctonion (product : Bytes 32) : Bytes 32 :=
  let octonionResult := octonionHash product
  Loop.forRange 0 4 (fun i product =>
    Loop.forRange 0 8 (fun j product =>
      product.set! (i * 8 + j) (product[i * 8 + j]! ^^^ Words.leByte octonionResult[i]!.toUInt64.toBitVec j)) product)
    product

def buffers (m : Matrix) (hashBytes : Bytes 32) (useAvx2 : Bool) : Buffers :=
  let (nibbleProduct, productBeforeOct) := m.products hashBytes useAvx2
  { product := mixOctonion productBeforeOct, hashBytes, nibbleProduct, productBeforeOct }

end Matrix

namespace Buffers

/-- `match i & 3`. -/
def refArray (b : Buffers) (i : Nat) : Bytes 32 :=
  match i &&& 3 with
  | 0 => b.nibbleProduct
  | 1 => b.productBeforeOct
  | 2 => b.product
  | _ => b.hashBytes

def blakeIterations (b : Buffers) : Nat :=
  let indexBlake := (b.productBeforeOct[5]! % 8 + 1).toNat
  (1 + b.product[indexBlake]! % 3).toNat

/-- The table entry that output byte `i` is mixed with. -/
def mixIndex (b : Buffers) (i : Nat) : Nat :=
  let byteVal := (b.refArray i)[(i * 13) &&& 31]!.toNat
  (byteVal + b.product[(i * 31) &&& 31]!.toNat + b.hashBytes[(i * 19) &&& 31]!.toNat + i * 41) &&& 255

/-- The product hashed with BLAKE3, then mixed with the table and with `after_comp_product`. -/
def mixed (P : Primitives) (b : Buffers) : Bytes 32 :=
  let sbox := b.sbox
  let afterCompProduct := computeAfterCompProduct b.product
  let b3HashArray := Loop.forRange 0 b.blakeIterations (fun _ arr => P.blake3 arr) b.product
  let b3HashArray := Loop.forRange 0 32 (fun i arr => arr.set! i (arr[i]! ^^^ sbox[b.mixIndex i]!)) b3HashArray
  Loop.forRange 0 32 (fun i arr => arr.set! i (arr[i]! ^^^ afterCompProduct[i]!)) b3HashArray

end Buffers

def Matrix.heavyHash (P : Primitives) (useAvx2 : Bool) (m : Matrix) (hash : Hash) : Hash :=
  let hashBytes := hash.toLeBytes
  HeavyHasher.hash P (Uint256.fromLeBytes ((m.buffers hashBytes useAvx2).mixed P))

end CryptixMiner
