import CryptixMiner.Kernel.HashMatrix
import CryptixMiner.Pow.PreMatrix

/-! The rounds before the matrix hash, as the kernels compute them from the 72 header bytes, and the test of the
    hash against the target. -/

namespace CryptixMiner
open Device

namespace Kernel

def powHashFinalizeFromHeader (K : Kernel) (P : Primitives) (header : Bytes 72) (nonce : UInt64) : Bytes 32 :=
  let st := Loop.forRange 0 9 (fun i (st : KeccakState) => st.set! i (st[i]! ^^^ load64Le header (i * 8)))
    K.POW_HASH_INITIAL_STATE
  let st := st.set! 9 (st[9]! ^^^ nonce)
  let st := P.keccakF1600 st
  let output := store64Le st[0]! (Vector.replicate 32 0) 0
  let output := store64Le st[1]! output 8
  let output := store64Le st[2]! output 16
  store64Le st[3]! output 24

def mutationBody (m : Mutation) (i : Nat) (currentHash : Bytes 32) : Bytes 32 :=
  let targetByte := (currentHash[m.targetFrom]!.toNat + i) &&& 31
  let currentHash := currentHash.set! targetByte
    (currentHash[targetByte]! ^^^ (currentHash[i &&& 15]! ^^^ m.xorConstant))
  let rotationByte := currentHash[i &&& 31]!
  let rotationAmount := m.rotationAmount currentHash
  let currentHash := currentHash.set! targetByte
    (if rotationByte &&& 1 = 0 then rotl8 currentHash[targetByte]! rotationAmount
      else rotr8 currentHash[targetByte]! rotationAmount)
  let shiftAmount := m.shiftAmount currentHash
  currentHash.set! targetByte (currentHash[targetByte]! ^^^ rotl8 currentHash[targetByte]! shiftAmount)

def mutationA5 : Mutation where
  targetFrom := 1
  xorConstant := 0xA5
  rotationAmount h := ((h[1]!.toNat + h[3]!.toNat) &&& 3) + 2
  shiftAmount h := (h[5]!.toNat + h[1]!.toNat) % 3 + 1

def mutation55 : Mutation where
  targetFrom := 6
  xorConstant := 0x55
  rotationAmount h := (h[7]!.toNat + h[2]!.toNat) % 6 + 1
  shiftAmount h := (h[1]!.toNat + h[3]!.toNat) % 4 + 1

def mutationFF : Mutation where
  targetFrom := 10
  xorConstant := 0xFF
  rotationAmount h := (h[7]!.toNat + h[7]!.toNat) % 7 + 1
  shiftAmount h := (h[3]!.toNat + h[5]!.toNat) % 5 + 2

def mutation66 : Mutation where
  targetFrom := 25
  xorConstant := 0x66
  rotationAmount h := ((h[1]!.toNat + h[3]!.toNat) &&& 3) + 2
  shiftAmount h := ((h[1]!.toNat + h[3]!.toNat) &&& 3) + 1

def mutation77 : Mutation where
  targetFrom := 30
  xorConstant := 0x77
  rotationAmount h := (h[2]!.toNat + h[5]!.toNat) % 5 + 1
  shiftAmount h := (h[7]!.toNat + h[9]!.toNat) % 6 + 2

def repeated (K : Kernel) (m : Mutation) (bound count i : Nat) (currentHash : Bytes 32) : Bytes 32 :=
  K.loop bound count (fun _ h => mutationBody m i h) currentHash

def mutate (K : Kernel) (i : Nat) (h : Bytes 32) : Bytes 32 :=
  if h[1]! &&& 3 = 0 then K.repeated mutationA5 4 ((h[2]! &&& 3).toNat + 1) i h
  else if h[3]! % 3 = 0 then K.repeated mutation55 5 ((h[4]! % 5).toNat + 1) i h
  else if h[2]! % 6 = 0 then K.repeated mutationFF 4 ((h[6]! &&& 3).toNat + 1) i h
  else if h[7]! % 5 = 0 then K.repeated mutation66 4 ((h[8]! &&& 3).toNat + 1) i h
  else if h[8]! % 7 = 0 then K.repeated mutation77 5 ((h[9]! % 5).toNat + 1) i h
  else h

def calculatePowPreMatrixFromHeader (K : Kernel) (P : Primitives) (header : Bytes 72) (nonce : UInt64) : Bytes 32 :=
  let currentHash := K.powHashFinalizeFromHeader P header nonce
  let iterations := (currentHash[0]!.toNat &&& 1) + 1
  K.loop 2 iterations (fun i currentHash => K.mutate i (P.sha3_256 currentHash)) currentHash

def calculatePowWithHeaderAndMatrix (K : Kernel) (P : Primitives) (matrix : Bytes 4096) (header : Bytes 72)
    (nonce : UInt64) : Bytes 32 :=
  K.cryptixHashMatrix P matrix (K.calculatePowPreMatrixFromHeader P header nonce)

/-- `hash_meets_target_words`, `hash_meets_target_words_global`, from word `i - 1` down. -/
def meetsTargetBelow (hashBytes : Bytes 32) (targetWords : Vector UInt64 4) : Nat → Bool
  | 0 => true
  | i + 1 =>
    let hashWord := load64Le hashBytes (i * 8)
    let targetWord := targetWords[i]!
    if hashWord < targetWord then true
    else if hashWord > targetWord then false
    else meetsTargetBelow hashBytes targetWords i

def hashMeetsTargetWords (hashBytes : Bytes 32) (targetWords : Vector UInt64 4) : Bool :=
  meetsTargetBelow hashBytes targetWords 4

end Kernel
end CryptixMiner
