import CryptixMiner.Lib.StepSystem
import CryptixMiner.Machine
import Mathlib.Logic.Function.Basic

/-! A block of the CUDA launch up to its barrier: the threads that pass the early returns of `heavy_hash`
    copy the matrix to shared memory, each at its own stride. A step is one round of one thread's loop. -/

namespace CryptixMiner.Launch
open StepSystem

abbrev matrixElems : Nat := 4096

/-- `Kernel::set_workload`: the grid size. -/
def setWorkload (workload blockSize : UInt32) : UInt32 := (workload + blockSize - 1) / blockSize

/-- `threadIdx.x + blockIdx.x * blockDim.x`; u64 holds it for every u32 block index. -/
def gid (blockDim blockIdx threadIdx : Nat) : Nat := threadIdx + blockIdx * blockDim

/-- Whether a thread passes the two early returns, with the result cell as it reads it. -/
def goesOn (noncesLen : Nat) (finalNonce : UInt64) (gid : Nat) : Bool := !(gid ≥ noncesLen) && finalNonce == 0

structure Block where
  blockDim : Nat
  goesOn : Nat → Bool
  matrix : Bytes matrixElems

/-- The shared copy, and `idx` of each thread. -/
structure Copy where
  matrixLocal : Bytes matrixElems
  idx : Nat → Nat

namespace Block

/-- Shared memory is not initialised. -/
def start (uninit : Bytes matrixElems) : Copy := { matrixLocal := uninit, idx := id }

/-- `matrix_local[idx] = matrix[idx]; idx += blockDim.x` in thread `tid`. -/
def step (b : Block) (s : Copy) (tid : Nat) : Option Copy :=
  if tid < b.blockDim ∧ b.goesOn tid ∧ s.idx tid < matrixElems then
    some { matrixLocal := s.matrixLocal.set! (s.idx tid) b.matrix[s.idx tid]!
           idx := Function.update s.idx tid (s.idx tid + b.blockDim) }
  else none

def AtBarrier (b : Block) (s : Copy) : Prop :=
  ∀ tid, tid < b.blockDim → b.goesOn tid = true → matrixElems ≤ s.idx tid

end Block

/-- Block `blockIdx` of the launch with this workload and block size, before any nonce is found. -/
def launched (workload blockSize : UInt32) (matrix : Bytes matrixElems) (blockIdx : Nat) : Block where
  blockDim := blockSize.toNat
  goesOn tid := goesOn workload.toNat 0 (gid blockSize.toNat blockIdx tid)
  matrix := matrix

/-- Every thread of every block that goes on reads the matrix as it was uploaded, whatever shared memory
    held and in whatever order the threads copy. -/
def CopiesMatrix (workload blockSize : UInt32) (matrix : Bytes matrixElems) : Prop :=
  ∀ blockIdx, blockIdx < (setWorkload workload blockSize).toNat → ∀ uninit s,
    Reachable (launched workload blockSize matrix blockIdx).step (Block.start uninit) s →
    (launched workload blockSize matrix blockIdx).AtBarrier s →
    ∀ tid, tid < blockSize.toNat → (launched workload blockSize matrix blockIdx).goesOn tid = true →
      s.matrixLocal = matrix

end CryptixMiner.Launch
