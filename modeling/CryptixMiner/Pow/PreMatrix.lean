import CryptixMiner.Pow.Hasher

/-! The rounds that `State::calculate_pow` runs before the matrix hash: SHA3-256 of 32 bytes, then at most
    one of five loops that rewrite a byte of the digest. The five loops run one body on their own bytes,
    constant and amounts. -/

namespace CryptixMiner

/-- What one of the five loops differs in from the others. -/
structure Mutation where
  /-- The digest byte that says which byte is rewritten. -/
  targetFrom : Nat
  xorConstant : UInt8
  rotationAmount : Bytes 32 → Nat
  shiftAmount : Bytes 32 → Nat

/-- The body of the loop, in round `i`. The bytes it reads are read again after each write. -/
def Mutation.body (m : Mutation) (i : Nat) (currentHash : Bytes 32) : Bytes 32 :=
  let targetByte := (currentHash[m.targetFrom]!.toNat + i) % 32
  let xorValue := currentHash[i % 16]! ^^^ m.xorConstant
  let currentHash := currentHash.set! targetByte (currentHash[targetByte]! ^^^ xorValue)
  let rotationByte := currentHash[i % 32]!
  let rotationAmount := m.rotationAmount currentHash
  let currentHash := currentHash.set! targetByte
    (if rotationByte % 2 = 0 then rotateLeft8 currentHash[targetByte]! rotationAmount
      else rotateRight8 currentHash[targetByte]! rotationAmount)
  let shiftAmount := m.shiftAmount currentHash
  currentHash.set! targetByte (currentHash[targetByte]! ^^^ rotateLeft8 currentHash[targetByte]! shiftAmount)

namespace PreMatrix

/-! ### The five loops -/

def mutationA5 : Mutation where
  targetFrom := 1
  xorConstant := 0xA5
  rotationAmount h := (h[1]!.toNat + h[3]!.toNat) % 4 + 2
  shiftAmount h := (h[5]!.toNat + h[1]!.toNat) % 3 + 1

def mutation55 : Mutation where
  targetFrom := 6
  xorConstant := 0x55
  rotationAmount h := (h[7]!.toNat + h[2]!.toNat) % 6 + 1
  shiftAmount h := (h[1]!.toNat + h[3]!.toNat) % 4 + 1

def mutationFF : Mutation where
  targetFrom := 10
  xorConstant := 0xFF
  rotationAmount h := (h[7]!.toNat + h[7]!.toNat) % 7 + 1
  shiftAmount h := (h[3]!.toNat + h[5]!.toNat) % 5 + 2

def mutation66 : Mutation where
  targetFrom := 25
  xorConstant := 0x66
  rotationAmount h := (h[1]!.toNat + h[3]!.toNat) % 4 + 2
  shiftAmount h := (h[1]!.toNat + h[3]!.toNat) % 4 + 1

def mutation77 : Mutation where
  targetFrom := 30
  xorConstant := 0x77
  rotationAmount h := (h[2]!.toNat + h[5]!.toNat) % 5 + 1
  shiftAmount h := (h[7]!.toNat + h[9]!.toNat) % 6 + 2

/-- The loop of a branch: `repeat` rounds of the body. -/
def repeated (m : Mutation) (count : UInt8) (i : Nat) (currentHash : Bytes 32) : Bytes 32 :=
  Loop.forRange 0 count.toNat (fun _ h => m.body i h) currentHash

def mutate (i : Nat) (h : Bytes 32) : Bytes 32 :=
  if h[1]! % 4 = 0 then repeated mutationA5 (h[2]! % 4 + 1) i h
  else if h[3]! % 3 = 0 then repeated mutation55 (h[4]! % 5 + 1) i h
  else if h[2]! % 6 = 0 then repeated mutationFF (h[6]! % 4 + 1) i h
  else if h[7]! % 5 = 0 then repeated mutation66 (h[8]! % 4 + 1) i h
  else if h[8]! % 7 = 0 then repeated mutation77 (h[9]! % 5 + 1) i h
  else h

def rounds (P : Primitives) (hashBytes : Bytes 32) : Bytes 32 :=
  let iterations := hashBytes[0]! % 2 + 1
  Loop.forRange 0 iterations.toNat (fun i currentHash => mutate i (P.sha3_256 currentHash)) hashBytes

end PreMatrix
end CryptixMiner
