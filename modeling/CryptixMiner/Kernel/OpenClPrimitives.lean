import CryptixMiner.Kernel.OpenCl
import CryptixMiner.Kernel.Primitives

/-! The hash functions that the OpenCL kernel brings. Those it shares with the CUDA kernel are the same text;
    its Keccak has a second form, chosen by a build switch. -/

namespace CryptixMiner
open Device

namespace OpenCl

/-- All build switches that decide between two ways to compute the hash. -/
structure Switches extends Build where
  /-- `CRYPTIS_OPENCL_KECCAK_ALT`. -/
  keccakAlt : Bool

/-! ### Keccak -/

def KECCAK_RNDC : Vector UInt64 24 := Array.toVector #[
  0x0000000000000001, 0x0000000000008082,
  0x800000000000808A, 0x8000000080008000,
  0x000000000000808B, 0x0000000080000001,
  0x8000000080008081, 0x8000000000008009,
  0x000000000000008A, 0x0000000000000088,
  0x0000000080008009, 0x000000008000000A,
  0x000000008000808B, 0x800000000000008B,
  0x8000000000008089, 0x8000000000008003,
  0x8000000000008002, 0x8000000000000080,
  0x000000000000800A, 0x800000008000000A,
  0x8000000080008081, 0x8000000000008080,
  0x0000000080000001, 0x8000000080008008]

def KECCAK_PI_LANES : Vector Nat 24 := Array.toVector #[
  10, 7, 11, 17, 18, 3, 5, 16,
  8, 21, 24, 4, 15, 23, 19, 13,
  12, 2, 20, 14, 22, 9, 6, 1]

def KECCAK_RHO_PI_ROT : Vector Nat 24 := Array.toVector #[
  1, 3, 6, 10, 15, 21, 28, 36,
  45, 55, 2, 14, 27, 41, 56, 8,
  25, 43, 62, 18, 39, 61, 20, 44]

/-- Rho and Pi in place, along the cycle of the lanes. -/
def keccakLanes (st : KeccakState) : KeccakState :=
  (Loop.forRange 0 24 (fun i (s : UInt64 × KeccakState) =>
    let lane := KECCAK_PI_LANES[i]!
    (s.2[lane]!, s.2.set! lane (rotl64 s.1 KECCAK_RHO_PI_ROT[i]!))) (st[1]!, st)).2

/-- Rho and Pi into the array `b`, with fixed destinations. -/
def keccakFixed (st : KeccakState) : KeccakState :=
  let b : KeccakState := Vector.replicate 25 0
  let b := b.set! 0 st[0]!
  let b := b.set! 10 (rotl64 st[1]! 1)
  let b := b.set! 20 (rotl64 st[2]! 62)
  let b := b.set! 5 (rotl64 st[3]! 28)
  let b := b.set! 15 (rotl64 st[4]! 27)
  let b := b.set! 16 (rotl64 st[5]! 36)
  let b := b.set! 1 (rotl64 st[6]! 44)
  let b := b.set! 11 (rotl64 st[7]! 6)
  let b := b.set! 21 (rotl64 st[8]! 55)
  let b := b.set! 6 (rotl64 st[9]! 20)
  let b := b.set! 7 (rotl64 st[10]! 3)
  let b := b.set! 17 (rotl64 st[11]! 10)
  let b := b.set! 2 (rotl64 st[12]! 43)
  let b := b.set! 12 (rotl64 st[13]! 25)
  let b := b.set! 22 (rotl64 st[14]! 39)
  let b := b.set! 23 (rotl64 st[15]! 41)
  let b := b.set! 8 (rotl64 st[16]! 45)
  let b := b.set! 18 (rotl64 st[17]! 15)
  let b := b.set! 3 (rotl64 st[18]! 21)
  let b := b.set! 13 (rotl64 st[19]! 8)
  let b := b.set! 14 (rotl64 st[20]! 18)
  let b := b.set! 24 (rotl64 st[21]! 2)
  let b := b.set! 9 (rotl64 st[22]! 61)
  let b := b.set! 19 (rotl64 st[23]! 56)
  b.set! 4 (rotl64 st[24]! 14)

/-- Chi from the array `b`, lane by lane. -/
def keccakUnrolled (b : KeccakState) : KeccakState :=
  Array.toVector #[
    b[0]! ^^^ (~~~b[1]! &&& b[2]!),
    b[1]! ^^^ (~~~b[2]! &&& b[3]!),
    b[2]! ^^^ (~~~b[3]! &&& b[4]!),
    b[3]! ^^^ (~~~b[4]! &&& b[0]!),
    b[4]! ^^^ (~~~b[0]! &&& b[1]!),
    b[5]! ^^^ (~~~b[6]! &&& b[7]!),
    b[6]! ^^^ (~~~b[7]! &&& b[8]!),
    b[7]! ^^^ (~~~b[8]! &&& b[9]!),
    b[8]! ^^^ (~~~b[9]! &&& b[5]!),
    b[9]! ^^^ (~~~b[5]! &&& b[6]!),
    b[10]! ^^^ (~~~b[11]! &&& b[12]!),
    b[11]! ^^^ (~~~b[12]! &&& b[13]!),
    b[12]! ^^^ (~~~b[13]! &&& b[14]!),
    b[13]! ^^^ (~~~b[14]! &&& b[10]!),
    b[14]! ^^^ (~~~b[10]! &&& b[11]!),
    b[15]! ^^^ (~~~b[16]! &&& b[17]!),
    b[16]! ^^^ (~~~b[17]! &&& b[18]!),
    b[17]! ^^^ (~~~b[18]! &&& b[19]!),
    b[18]! ^^^ (~~~b[19]! &&& b[15]!),
    b[19]! ^^^ (~~~b[15]! &&& b[16]!),
    b[20]! ^^^ (~~~b[21]! &&& b[22]!),
    b[21]! ^^^ (~~~b[22]! &&& b[23]!),
    b[22]! ^^^ (~~~b[23]! &&& b[24]!),
    b[23]! ^^^ (~~~b[24]! &&& b[20]!),
    b[24]! ^^^ (~~~b[20]! &&& b[21]!)]

/-- Theta, and in the alternate form Chi, are the text of the CUDA kernel. -/
def keccakF1600 (s : Switches) (st : KeccakState) : KeccakState :=
  Loop.forRange 0 24 (fun round st =>
    let st := Cuda.keccakColumns st
    let st := if s.keccakAlt then Cuda.keccakRows (keccakLanes st) else keccakUnrolled (keccakFixed st)
    st.set! 0 (st[0]! ^^^ KECCAK_RNDC[round]!)) st

def sha3_256_32bytesAt (s : Switches) : Memory → Nat → Nat → Memory := Memory.sha3_256_32bytes (keccakF1600 s)

/-! ### BLAKE3 -/

def BLAKE3_IV : Vector UInt32 8 := Array.toVector #[
  0x6A09E667, 0xBB67AE85, 0x3C6EF372, 0xA54FF53A,
  0x510E527F, 0x9B05688C, 0x1F83D9AB, 0x5BE0CD19]

def BLAKE3_MSG_PERMUTATION : Vector Nat 16 := Array.toVector #[
  2, 6, 3, 10, 7, 0, 4, 13,
  1, 11, 12, 5, 9, 14, 15, 8]

def blake3Permute (m : Vector UInt32 16) : Vector UInt32 16 := Vector.ofFn fun i => m[BLAKE3_MSG_PERMUTATION[i.val]!]!

/-- `blake3_g` and `blake3_round` are the text of the CUDA kernel. -/
def blake3Compress32At (mem : Memory) (input output : Nat) : Memory :=
  let cv := Loop.forRange 0 8 (fun i (cv : Vector UInt32 8) => cv.set! i BLAKE3_IV[i]!) (Vector.replicate 8 0)
  let m : Vector UInt32 16 := Vector.replicate 16 0
  let m := Loop.forRange 0 8 (fun i (m : Vector UInt32 16) => m.set! i (mem.load32Le input (i * 4))) m
  let v : Vector UInt32 16 := Vector.replicate 16 0
  let v := Loop.forRange 0 8 (fun i (v : Vector UInt32 16) => v.set! i cv[i]!) v
  let blockLen : UInt32 := 32
  let flags : UInt32 := 1 ||| 2 ||| 8
  let counterLow : UInt32 := 0
  let counterHigh : UInt32 := 0
  let v := v.set! 8 BLAKE3_IV[0]!
  let v := v.set! 9 BLAKE3_IV[1]!
  let v := v.set! 10 BLAKE3_IV[2]!
  let v := v.set! 11 BLAKE3_IV[3]!
  let v := v.set! 12 counterLow
  let v := v.set! 13 counterHigh
  let v := v.set! 14 blockLen
  let v := v.set! 15 flags
  let (v, _) := Loop.forRange 0 7 (fun round (s : Vector UInt32 16 × Vector UInt32 16) =>
    (Cuda.blake3Round s.1 s.2, if round + 1 < 7 then blake3Permute s.2 else s.2)) (v, m)
  let outWords := Loop.forRange 0 8 (fun i (outWords : Vector UInt32 8) => outWords.set! i (v[i]! ^^^ v[i + 8]!))
    (Vector.replicate 8 0)
  Loop.forRange 0 8 (fun i mem => Memory.store32Le outWords[i]! mem output (i * 4)) mem

def primitives (s : Switches) : Primitives :=
  ⟨keccakF1600 s, Memory.inPlace (sha3_256_32bytesAt s), Memory.inPlace blake3Compress32At⟩

/-- `calculate_pow_with_header_and_matrix` as built with `s`. -/
def calculatePowWithHeaderAndMatrix (s : Switches) : Bytes 4096 → Bytes 72 → UInt64 → Bytes 32 :=
  (kernel s.toBuild).calculatePowWithHeaderAndMatrix (primitives s)

end OpenCl
end CryptixMiner
