import CryptixMiner.Kernel.Memory

/-! The hash functions that the CUDA kernel brings: Keccak-f[1600], SHA3-256 of 32 bytes, and BLAKE3 of 32
    bytes, each a single block. -/

namespace CryptixMiner
open Device

namespace Cuda

/-! ### Keccak -/

def KECCAK_RNDC : Vector UInt64 24 := Array.toVector #[
  0x0000000000000001, 0x0000000000008082, 0x800000000000808A, 0x8000000080008000,
  0x000000000000808B, 0x0000000080000001, 0x8000000080008081, 0x8000000000008009,
  0x000000000000008A, 0x0000000000000088, 0x0000000080008009, 0x000000008000000A,
  0x000000008000808B, 0x800000000000008B, 0x8000000000008089, 0x8000000000008003,
  0x8000000000008002, 0x8000000000000080, 0x000000000000800A, 0x800000008000000A,
  0x8000000080008081, 0x8000000000008080, 0x0000000080000001, 0x8000000080008008]

def KECCAK_PI_LANES : Vector Nat 24 := Array.toVector #[
  10, 7, 11, 17, 18, 3, 5, 16, 8, 21, 24, 4,
  15, 23, 19, 13, 12, 2, 20, 14, 22, 9, 6, 1]

def KECCAK_RHO_PI_ROT : Vector Nat 24 := Array.toVector #[
  1, 3, 6, 10, 15, 21, 28, 36, 45, 55, 2, 14,
  27, 41, 56, 8, 25, 43, 62, 18, 39, 61, 20, 44]

/-- Xors into each lane the parities of the two columns beside its own. -/
def keccakColumns (st : KeccakState) : KeccakState :=
  let c (x : Nat) : UInt64 := st[x]! ^^^ st[x + 5]! ^^^ st[x + 10]! ^^^ st[x + 15]! ^^^ st[x + 20]!
  let d : Vector UInt64 5 := #v[c 4 ^^^ rotl64 (c 1) 1, c 0 ^^^ rotl64 (c 2) 1, c 1 ^^^ rotl64 (c 3) 1,
    c 2 ^^^ rotl64 (c 4) 1, c 3 ^^^ rotl64 (c 0) 1]
  Vector.ofFn fun i => st[i.val]! ^^^ d[i.val % 5]!

/-- Moves the lanes around the cycle that `KECCAK_PI_LANES` lists, rotating each on the way. -/
def keccakLanes (st : KeccakState) : KeccakState :=
  (Loop.forRange 0 24 (fun i (s : UInt64 × KeccakState) =>
    let lane := KECCAK_PI_LANES[i]!
    (s.2[lane]!, s.2.set! lane (rotl64 s.1 KECCAK_RHO_PI_ROT[i]!))) (st[1]!, st)).2

def keccakRows (st : KeccakState) : KeccakState :=
  Loop.forRange 0 5 (fun i (st : KeccakState) =>
    let row := 5 * i
    let r0 := st[row]!
    let r1 := st[row + 1]!
    let r2 := st[row + 2]!
    let r3 := st[row + 3]!
    let r4 := st[row + 4]!
    let st := st.set! row (r0 ^^^ (~~~r1 &&& r2))
    let st := st.set! (row + 1) (r1 ^^^ (~~~r2 &&& r3))
    let st := st.set! (row + 2) (r2 ^^^ (~~~r3 &&& r4))
    let st := st.set! (row + 3) (r3 ^^^ (~~~r4 &&& r0))
    st.set! (row + 4) (r4 ^^^ (~~~r0 &&& r1))) st

def keccakF1600 (st : KeccakState) : KeccakState :=
  Loop.forRange 0 24 (fun round st =>
    let st := keccakRows (keccakLanes (keccakColumns st))
    st.set! 0 (st[0]! ^^^ KECCAK_RNDC[round]!)) st

def sha3_256_32bytesAt : Memory → Nat → Nat → Memory := Memory.sha3_256_32bytes keccakF1600

def sha3_256_32bytes : Bytes 32 → Bytes 32 := Memory.inPlace sha3_256_32bytesAt

/-! ### BLAKE3 -/

def BLAKE3_IV : Vector UInt32 8 := Array.toVector #[
  0x6A09E667, 0xBB67AE85, 0x3C6EF372, 0xA54FF53A,
  0x510E527F, 0x9B05688C, 0x1F83D9AB, 0x5BE0CD19]

def BLAKE3_MSG_PERMUTATION : Vector Nat 16 := Array.toVector #[
  2, 6, 3, 10, 7, 0, 4, 13, 1, 11, 12, 5, 9, 14, 15, 8]

def blake3Permute (m : Vector UInt32 16) : Vector UInt32 16 := Vector.ofFn fun i => m[BLAKE3_MSG_PERMUTATION[i.val]!]!

def blake3G (v : Vector UInt32 16) (a b c d : Nat) (mx my : UInt32) : Vector UInt32 16 :=
  let v := v.set! a (v[a]! + v[b]! + mx)
  let v := v.set! d (rotr32 (v[d]! ^^^ v[a]!) 16)
  let v := v.set! c (v[c]! + v[d]!)
  let v := v.set! b (rotr32 (v[b]! ^^^ v[c]!) 12)
  let v := v.set! a (v[a]! + v[b]! + my)
  let v := v.set! d (rotr32 (v[d]! ^^^ v[a]!) 8)
  let v := v.set! c (v[c]! + v[d]!)
  v.set! b (rotr32 (v[b]! ^^^ v[c]!) 7)

def blake3Round (v m : Vector UInt32 16) : Vector UInt32 16 :=
  let v := blake3G v 0 4 8 12 m[0]! m[1]!
  let v := blake3G v 1 5 9 13 m[2]! m[3]!
  let v := blake3G v 2 6 10 14 m[4]! m[5]!
  let v := blake3G v 3 7 11 15 m[6]! m[7]!
  let v := blake3G v 0 5 10 15 m[8]! m[9]!
  let v := blake3G v 1 6 11 12 m[10]! m[11]!
  let v := blake3G v 2 7 8 13 m[12]! m[13]!
  blake3G v 3 4 9 14 m[14]! m[15]!

def blake3Compress32At (mem : Memory) (input output : Nat) : Memory :=
  let m : Vector UInt32 16 := Vector.replicate 16 0
  let m := Loop.forRange 0 8 (fun i (m : Vector UInt32 16) => m.set! i (mem.load32Le input (i * 4))) m
  let v : Vector UInt32 16 := Vector.replicate 16 0
  let v := Loop.forRange 0 8 (fun i (v : Vector UInt32 16) => v.set! i BLAKE3_IV[i]!) v
  let v := v.set! 8 BLAKE3_IV[0]!
  let v := v.set! 9 BLAKE3_IV[1]!
  let v := v.set! 10 BLAKE3_IV[2]!
  let v := v.set! 11 BLAKE3_IV[3]!
  let v := v.set! 12 0
  let v := v.set! 13 0
  let v := v.set! 14 32
  let v := v.set! 15 (1 ||| 2 ||| 8)
  let (v, _) := Loop.forRange 0 7 (fun round (s : Vector UInt32 16 × Vector UInt32 16) =>
    (blake3Round s.1 s.2, if round + 1 < 7 then blake3Permute s.2 else s.2)) (v, m)
  Loop.forRange 0 8 (fun i mem => Memory.store32Le (v[i]! ^^^ v[i + 8]!) mem output (i * 4)) mem

def blake3Compress32 : Bytes 32 → Bytes 32 := Memory.inPlace blake3Compress32At

def primitives : Primitives := ⟨keccakF1600, sha3_256_32bytes, blake3Compress32⟩

end Cuda
end CryptixMiner
