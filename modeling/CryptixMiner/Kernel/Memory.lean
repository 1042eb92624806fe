import CryptixMiner.Kernel.Device
import Mathlib.Logic.Function.Basic

/-! A memory of bytes, as the hash functions of the kernels are called on it: with the addresses of the input and of the
    output, which may be the same or overlap. Local arrays are not in that memory. -/

namespace CryptixMiner
open Words

abbrev Memory := Nat → UInt8

namespace Memory

/-- `load64_le`, `load64_le_private`. -/
def load64Le (mem : Memory) (input offset : Nat) : UInt64 :=
  UInt64.ofBitVec (ofLeBytes 64 (fun k => mem (input + offset + k)) 8)

/-- `load32_le`, `load32_le_private`. -/
def load32Le (mem : Memory) (input offset : Nat) : UInt32 :=
  UInt32.ofBitVec (ofLeBytes 32 (fun k => mem (input + offset + k)) 4)

/-- Stores the first `n` bytes of a word, one after the other. -/
def storeLe {w : Nat} (n : Nat) (value : BitVec w) (mem : Memory) (out offset : Nat) : Memory :=
  Loop.forRange 0 n (fun k mem => Function.update mem (out + offset + k) (leByte value k)) mem

/-- `store64_le`, `store64_le_private`. -/
def store64Le (value : UInt64) (mem : Memory) (out offset : Nat) : Memory := storeLe 8 value.toBitVec mem out offset

/-- `store32_le`, `store32_le_private`. -/
def store32Le (value : UInt32) (mem : Memory) (out offset : Nat) : Memory := storeLe 4 value.toBitVec mem out offset

def read (mem : Memory) (a n : Nat) : List UInt8 := (List.range n).map fun k => mem (a + k)

/-- A memory that holds the bytes of a list from an address on. -/
def write (mem : Memory) (a : Nat) (bytes : List UInt8) : Memory := fun p =>
  if a ≤ p ∧ p < a + bytes.length then bytes.getD (p - a) 0 else mem p

/-- `sha3_256_32bytes` with the Keccak of a kernel. -/
def sha3_256_32bytes (keccakF1600 : KeccakState → KeccakState) (mem : Memory) (input output : Nat) : Memory :=
  let st : KeccakState := Vector.replicate 25 0
  let st := st.set! 0 (st[0]! ^^^ mem.load64Le input 0)
  let st := st.set! 1 (st[1]! ^^^ mem.load64Le input 8)
  let st := st.set! 2 (st[2]! ^^^ mem.load64Le input 16)
  let st := st.set! 3 (st[3]! ^^^ mem.load64Le input 24)
  let st := st.set! 4 (st[4]! ^^^ 0x06)
  let st := st.set! 16 (st[16]! ^^^ ((0x80 : UInt64) <<< 56))
  let st := keccakF1600 st
  let mem := store64Le st[0]! mem output 0
  let mem := store64Le st[1]! mem output 8
  let mem := store64Le st[2]! mem output 16
  store64Le st[3]! mem output 24

/-- A call with one array as input and output, as every call of the kernels is. -/
def inPlace (f : Memory → Nat → Nat → Memory) (x : Bytes 32) : Bytes 32 :=
  let mem := f (fun p => x[p]!) 0 0
  Vector.ofFn fun i => mem i.val

end Memory
end CryptixMiner
