import CryptixMiner.Kernel.Device

/-! The matrix hash of the kernels. The CUDA and the OpenCL text of it differ in their tables, in how four
    columns are added to a dot product and in where the rotation bases come from; what they share is stated
    once, over a `Kernel` that names these parts. -/

namespace CryptixMiner
open Device

/-- The parts of a kernel's text that the shared functions are written over. -/
structure Kernel where
  POW_HASH_INITIAL_STATE : KeccakState
  HEAVY_HASH_INITIAL_STATE : KeccakState
  SBOX_SOURCE_SELECTORS : Bytes 16
  SBOX_VALUE_SELECTORS : Bytes 16
  SBOX_VALUE_MULTIPLIERS : Bytes 16
  SBOX_VALUE_ADDERS : Bytes 16
  AFTER_COMP_LUT : Bytes 256
  /-- `dot4_acc`, `cryptis_dot4_acc`: four bytes of a row, four nibbles. -/
  dot4Acc : UInt32 → Bytes 4 → Bytes 4 → UInt32
  rotateLeftBase : Buffers → Nat → UInt8
  rotateRightBase : Buffers → Nat → UInt8
  /-- A loop of `count` rounds, which the text bounds by `bound`. -/
  loop : (bound count : Nat) → (Nat → Bytes 32 → Bytes 32) → Bytes 32 → Bytes 32

namespace Kernel

/-! ### Octonions -/

/-- The running product and the window of eight bytes it is multiplied by next. -/
structure OctState where
  a : Vector UInt64 8
  b : Bytes 8

/-- The product of coordinate `i` of the running product with byte `j` of the window. -/
def OctState.mul (s : OctState) (i j : Fin 8) : UInt64 :=
  mul64PartsByU32 s.a[i.val]!.toUInt32 (s.a[i.val]! >>> 32).toUInt32 s.b[j.val]!.toUInt32

/-- The new coordinates `r0, ..., r7`. -/
def OctState.product (s : OctState) : Vector UInt64 8 :=
  let mul := s.mul
  #v[mul 0 0 - mul 1 1 - mul 2 2 - mul 3 3 - mul 4 4 - mul 5 5 - mul 6 6 - mul 7 7,
    mul 0 1 + mul 1 0 + mul 2 3 - mul 3 2 + mul 4 5 - mul 5 4 - mul 6 7 + mul 7 6,
    mul 0 2 - mul 1 3 + mul 2 0 + mul 3 1 + mul 4 6 - mul 5 7 + mul 6 4 - mul 7 5,
    mul 0 3 + mul 1 2 - mul 2 1 + mul 3 0 + mul 4 7 + mul 5 6 - mul 6 5 + mul 7 4,
    mul 0 4 - mul 1 5 - mul 2 6 - mul 3 7 + mul 4 0 + mul 5 1 + mul 6 2 + mul 7 3,
    mul 0 5 + mul 1 4 - mul 2 7 + mul 3 6 - mul 4 1 + mul 5 0 + mul 6 3 + mul 7 2,
    mul 0 6 + mul 1 7 + mul 2 4 - mul 3 5 - mul 4 2 + mul 5 3 + mul 6 0 + mul 7 1,
    mul 0 7 - mul 1 6 + mul 2 5 + mul 3 4 - mul 4 3 + mul 5 2 + mul 6 1 + mul 7 0]

/-- The window moves on by one byte, except in the last round. -/
def OctState.body (inputHash : Bytes 32) (i : Nat) (s : OctState) : OctState where
  a := s.product
  b := if i < 31 then #v[s.b[1]!, s.b[2]!, s.b[3]!, s.b[4]!, s.b[5]!, s.b[6]!, s.b[7]!, inputHash[(i + 8) &&& 31]!]
    else s.b

def octonionHash (inputHash : Bytes 32) : Vector UInt64 8 :=
  let a : Vector UInt64 8 := #v[inputHash[0]!.toUInt64, inputHash[1]!.toUInt64, inputHash[2]!.toUInt64,
    inputHash[3]!.toUInt64, inputHash[4]!.toUInt64, inputHash[5]!.toUInt64, inputHash[6]!.toUInt64,
    inputHash[7]!.toUInt64]
  let b : Bytes 8 := #v[inputHash[8]!, inputHash[9]!, inputHash[10]!, inputHash[11]!, inputHash[12]!, inputHash[13]!,
    inputHash[14]!, inputHash[15]!]
  (Loop.forRange 8 32 (OctState.body inputHash) ⟨a, b⟩).a

/-! ### The substitution table, entry by entry -/

def pickRefValue (refType idx : Nat) (b : Buffers) : UInt8 :=
  match refType with
  | 0 => b.nibbleProduct[idx]!
  | 1 => b.productBeforeOct[idx]!
  | 2 => b.product[idx]!
  | _ => b.hashBytes[idx]!

def pickArrayByte (selector : UInt8) (idx : Nat) (b : Buffers) : UInt8 :=
  match selector.toNat with
  | 0 => b.product[idx]!
  | 1 => b.hashBytes[idx]!
  | 2 => b.nibbleProduct[idx]!
  | _ => b.productBeforeOct[idx]!

def computeSboxEntry (K : Kernel) (sboxIdx : Nat) (b : Buffers) (sboxIterations : Nat) : UInt8 :=
  let segment := sboxIdx >>> 4
  let lane := sboxIdx &&& 15
  let p1 := b.product[(sboxIdx + 1) &&& 31]!
  let h2 := b.hashBytes[(sboxIdx + 2) &&& 31]!
  -- The product and the sum are taken in 32 bits and cut to a byte at the end.
  let valueByte := pickArrayByte K.SBOX_VALUE_SELECTORS[segment]! lane b
  let laneTerm := (UInt32.ofNat lane * K.SBOX_VALUE_ADDERS[segment]!.toUInt32).toUInt8
  let value := (valueByte.toUInt32 * K.SBOX_VALUE_MULTIPLIERS[segment]!.toUInt32 + laneTerm.toUInt32).toUInt8
  let rotationLeft := rotl8 (K.rotateLeftBase b segment) ((p1.toNat + sboxIdx) &&& 7)
  let rotationRight := rotr8 (K.rotateRightBase b segment) ((h2.toNat + sboxIdx) &&& 7)
  let sourceIndex := (sboxIdx + rotationLeft.toNat + rotationRight.toNat) &&& 31
  let value := pickArrayByte K.SBOX_SOURCE_SELECTORS[segment]! sourceIndex b ^^^ value
  let rotateLeftShift2 := (p1.toNat + (sboxIdx <<< 2)) &&& 7
  let rotateRightShift2 := (h2.toNat + sboxIdx * 6) &&& 7
  let baseValue :=
    UInt8.ofNat (sboxIdx + (b.product[(sboxIdx * 3) &&& 31]! ^^^ b.hashBytes[(sboxIdx * 7) &&& 31]!).toNat) ^^^ 0xA5
  let xorValue := rotl8 baseValue (sboxIdx &&& 7) ^^^ 0x55
  let update (value : UInt8) : UInt8 :=
    let rotatedValue := rotl8 value rotateLeftShift2 ||| rotr8 value rotateRightShift2
    value ^^^ (rotatedValue ^^^ xorValue)
  let value := update value
  if sboxIterations = 2 then update value else value

/-! ### The hash -/

def cryptixHashV2Hash (K : Kernel) (P : Primitives) (input : Bytes 32) : Bytes 32 :=
  let st := K.HEAVY_HASH_INITIAL_STATE
  let st := st.set! 0 (st[0]! ^^^ load64Le input 0)
  let st := st.set! 1 (st[1]! ^^^ load64Le input 8)
  let st := st.set! 2 (st[2]! ^^^ load64Le input 16)
  let st := st.set! 3 (st[3]! ^^^ load64Le input 24)
  let st := P.keccakF1600 st
  let output := store64Le st[0]! input 0
  let output := store64Le st[1]! output 8
  let output := store64Le st[2]! output 16
  store64Le st[3]! output 24

/-- The nibbles of an output byte, from the kernels' rotations. -/
def aNibble (s : Sums) : UInt32 :=
  (s.sum1 &&& 0xF) ^^^ nibbleAt s.sum2 4 ^^^ nibbleAt s.sum3 8
    ^^^ nibbleAt (s.sum1 * 0xABCD) 12 ^^^ nibbleAt (s.sum1 * 0x1234) 8
    ^^^ nibbleAt (s.sum2 * 0x5678) 16 ^^^ nibbleAt (s.sum3 * 0x9ABC) 4
    ^^^ ((rotl32 s.sum1 3 &&& 0xF) ^^^ (rotr32 s.sum3 5 &&& 0xF))

def bNibble (s : Sums) : UInt32 :=
  (s.sum2 &&& 0xF) ^^^ nibbleAt s.sum1 4 ^^^ nibbleAt s.sum4 8
    ^^^ nibbleAt (s.sum2 * 0xDCBA) 14 ^^^ nibbleAt (s.sum2 * 0x8765) 10
    ^^^ nibbleAt (s.sum1 * 0x4321) 6
    ^^^ ((rotl32 s.sum4 2 ^^^ rotr32 s.sum1 1) &&& 0xF)

def cNibble (s : Sums) : UInt32 :=
  (s.sum3 &&& 0xF) ^^^ nibbleAt s.sum2 4 ^^^ nibbleAt s.sum2 8
    ^^^ nibbleAt (s.sum3 * 0xF135) 10 ^^^ nibbleAt (s.sum3 * 0x2468) 12
    ^^^ nibbleAt (s.sum4 * 0xACEF) 8 ^^^ nibbleAt (s.sum2 * 0x1357) 4
    ^^^ ((rotl32 s.sum3 5 &&& 0xF) ^^^ (rotr32 s.sum1 7 &&& 0xF))

def dNibble (s : Sums) : UInt32 :=
  (s.sum1 &&& 0xF) ^^^ nibbleAt s.sum4 4 ^^^ nibbleAt s.sum1 8
    ^^^ nibbleAt (s.sum4 * 0x57A3) 6 ^^^ nibbleAt (s.sum3 * 0xD4E3) 12
    ^^^ nibbleAt (s.sum1 * 0x9F8B) 10
    ^^^ ((rotl32 s.sum4 4 ^^^ (s.sum1 + s.sum2)) &&& 0xF)

/-- The rows' positions in the matrix and the bytes produced so far. -/
structure RowState where
  rowPtr0 : Nat
  rowPtr1 : Nat
  rowPtr2 : Nat
  rowPtr3 : Nat
  nibbleProduct : Bytes 32
  product : Bytes 32

def row4 (matrix : Bytes 4096) (p : Nat) : Bytes 4 := #v[matrix[p]!, matrix[p + 1]!, matrix[p + 2]!, matrix[p + 3]!]

/-- The four nibbles of hash bytes `2 * block` and `2 * block + 1`. -/
def nib4 (hashBytes : Bytes 32) (block : Nat) : Bytes 4 :=
  let hidx := block <<< 1
  let hb0 := hashBytes[hidx]!
  let hb1 := hashBytes[hidx + 1]!
  #v[hb0 >>> 4, hb0 &&& 0x0F, hb1 >>> 4, hb1 &&& 0x0F]

def sums (K : Kernel) (matrix : Bytes 4096) (hashBytes : Bytes 32) (r : RowState) : Sums :=
  Loop.forRange 0 16 (fun block s =>
    let nib := nib4 hashBytes block
    let off := block <<< 2
    { sum1 := K.dot4Acc s.sum1 (row4 matrix (r.rowPtr0 + off)) nib
      sum2 := K.dot4Acc s.sum2 (row4 matrix (r.rowPtr1 + off)) nib
      sum3 := K.dot4Acc s.sum3 (row4 matrix (r.rowPtr2 + off)) nib
      sum4 := K.dot4Acc s.sum4 (row4 matrix (r.rowPtr3 + off)) nib }) ⟨0, 0, 0, 0⟩

/-- Output byte `i`: the dot products at the row positions, which then move on. -/
def rowBody (K : Kernel) (matrix : Bytes 4096) (hashBytes : Bytes 32) (i : Nat) (r : RowState) : RowState :=
  let s := K.sums matrix hashBytes r
  let h := hashBytes[i]!
  { rowPtr0 := r.rowPtr0 + 128
    rowPtr1 := r.rowPtr1 + 128
    rowPtr2 := r.rowPtr2 + 64
    rowPtr3 := r.rowPtr3 + 64
    nibbleProduct := r.nibbleProduct.set! i
      ((((cNibble s &&& 0xF) <<< 4) ||| (dNibble s &&& 0xF)) ^^^ h.toUInt32).toUInt8
    product := r.product.set! i
      ((((aNibble s &&& 0xF) <<< 4) ||| (bNibble s &&& 0xF)) ^^^ h.toUInt32).toUInt8 }

def products (K : Kernel) (matrix : Bytes 4096) (hashBytes : Bytes 32) : RowState :=
  Loop.forRange 0 32 (K.rowBody matrix hashBytes) ⟨0, 64, 128, 192, Vector.replicate 32 0, Vector.replicate 32 0⟩

def mixOctonion (product : Bytes 32) : Bytes 32 :=
  let octResult := octonionHash product
  Loop.forRange 0 4 (fun i product =>
    let off := i * 8
    store64Le (load64Le product off ^^^ octResult[i]!) product off) product

def buffers (K : Kernel) (matrix : Bytes 4096) (hashBytes : Bytes 32) : Buffers :=
  let r := K.products matrix hashBytes
  { product := mixOctonion r.product, hashBytes, nibbleProduct := r.nibbleProduct, productBeforeOct := r.product }

/-- The output and the running indices of the final mix. -/
structure MixState where
  output : Bytes 32
  refIdx : Nat
  productIdx : Nat
  hashIdx : Nat
  mixTerm : Nat

/-- Output byte `i` of the final mix, with one table entry; the indices then move on. -/
def mixBody (K : Kernel) (b : Buffers) (sboxIterations i : Nat) (m : MixState) : MixState :=
  let refVal := pickRefValue (i &&& 3) m.refIdx b
  let index := (refVal.toNat + b.product[m.productIdx]!.toNat + b.hashBytes[m.hashIdx]!.toNat + m.mixTerm) &&& 255
  let sboxByte := K.computeSboxEntry index b sboxIterations
  { output := m.output.set! i (m.output[i]! ^^^ (sboxByte ^^^ K.AFTER_COMP_LUT[b.product[i]!.toNat]!))
    refIdx := (m.refIdx + 13) &&& 31
    productIdx := (m.productIdx + 31) &&& 31
    hashIdx := (m.hashIdx + 19) &&& 31
    mixTerm := (m.mixTerm + 41) &&& 255 }

def mixOutput (K : Kernel) (b : Buffers) (sboxIterations : Nat) (output : Bytes 32) : Bytes 32 :=
  (Loop.forRange 0 32 (K.mixBody b sboxIterations) ⟨output, 0, 0, 0, 0⟩).output

/-- The part of `cryptix_hash_matrix` after the octonion product. -/
def mixed (K : Kernel) (P : Primitives) (b : Buffers) : Bytes 32 :=
  let updateIndex := (b.productBeforeOct[2]! &&& 7).toNat + 1
  let sboxIterations := 1 + (b.product[updateIndex]! &&& 1).toNat
  let indexBlake := (b.productBeforeOct[5]! &&& 7).toNat + 1
  let iterationsBlake := 1 + (b.product[indexBlake]! % 3).toNat
  let output := b.product
  let output :=
    if iterationsBlake = 1 then P.blake3 output
    else if iterationsBlake = 2 then P.blake3 (P.blake3 output)
    else P.blake3 (P.blake3 (P.blake3 output))
  K.mixOutput b sboxIterations output

def cryptixHashMatrix (K : Kernel) (P : Primitives) (matrix : Bytes 4096) (hashBytes : Bytes 32) : Bytes 32 :=
  K.cryptixHashV2Hash P (K.mixed P (K.buffers matrix hashBytes))

end Kernel
end CryptixMiner
