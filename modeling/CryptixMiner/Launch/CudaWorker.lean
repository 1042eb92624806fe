import CryptixMiner.Kernel.Cuda
import CryptixMiner.Kernel.PreMatrix
import CryptixMiner.Kernel.Primitives
import CryptixMiner.Launch.FinalNonce
import CryptixMiner.Launch.Nonce
import CryptixMiner.Lib.Grid
import CryptixMiner.Miner.Xoshiro256StarStar
import CryptixMiner.Pow.State

/-! The CUDA worker of the plugin, and a whole launch of its `heavy_hash`: every thread of every block with its copy
    of the matrix, the barrier, its nonce, the hash and the result cell. -/

namespace CryptixMiner

/-- How the threads of a launch come by their nonces. -/
inductive NonceGenEnum where
  | lean
  | xoshiro
  deriving DecidableEq

def NonceGenEnum.randomType : NonceGenEnum → UInt8
  | .lean => Launch.RANDOM_LEAN
  | .xoshiro => Launch.RANDOM_XOSHIRO

namespace Cuda
open Device Launch

/-! ### The kernel -/

/-- The next step of a thread of `heavy_hash`, with what it still needs of its local variables. -/
inductive HeavyHashPc where
  | entry
  | copy (idx : Nat)
  | barrier
  | draw
  | hash (nonce : UInt64)
  | cas (nonce : UInt64)
  | done
  deriving DecidableEq

/-- The arguments of `heavy_hash`, and the constants of its module. -/
structure HeavyHashArgs where
  nonceMask : UInt64
  nonceFixed : UInt64
  noncesLen : Nat
  randomType : UInt8
  hashHeader : Bytes 72
  matrix : Bytes matrixElems
  target : Vector UInt64 4

/-- What the threads write: the cell, the words at `states`, and the copy of the matrix of each block. -/
structure DeviceMemory where
  finalNonce : UInt64
  states : Nat → UInt64
  matrixLocal : Nat → Bytes matrixElems

/-- `matrix_local[idx] = byte` in the copy of a block. -/
def DeviceMemory.copyByte (m : DeviceMemory) (block idx : Nat) (byte : UInt8) : DeviceMemory :=
  { m with matrixLocal := Function.update m.matrixLocal block ((m.matrixLocal block).set! idx byte) }

/-- Thread `gid` is thread `gid % blockDim` of block `gid / blockDim`. -/
def heavyHash (arch : Nat) (a : HeavyHashArgs) (blockDim : Nat) : Grid.Program DeviceMemory HeavyHashPc where
  step m gid
    | .entry => some (m, if gid ≥ a.noncesLen ∨ m.finalNonce ≠ 0 then .done else .copy (gid % blockDim))
    | .copy idx =>
      if idx < matrixElems then some (m.copyByte (gid / blockDim) idx a.matrix[idx]!, .copy (idx + blockDim))
      else some (m, .barrier)
    | .draw =>
      let drawn := Launch.Cuda.drawNonce a.nonceMask a.nonceFixed a.randomType m.states (UInt64.ofNat gid)
      some ({ m with states := drawn.2 }, .hash drawn.1)
    | .hash nonce =>
      let result := (kernel arch).calculatePowWithHeaderAndMatrix primitives (m.matrixLocal (gid / blockDim))
        a.hashHeader nonce
      some (m, if Kernel.hashMeetsTargetWords result a.target then .cas nonce else .done)
    | .cas nonce => some ({ m with finalNonce := Launch.Cuda.atomicCas m.finalNonce nonce }, .done)
    | .barrier | .done => none
  waits pc := pc == .barrier
  pass _ := .draw
  arrived
    | .entry | .copy _ => false
    | _ => true

/-! ### The worker -/

/-- What is left of `CudaGPUWorker` and of its `Kernel` and `Module` without the driver: `hashHeader`, `matrix` and
    `target` are the globals of the module, `arch` the architecture it was compiled for. -/
structure CudaGPUWorker where
  arch : Nat
  blockSize : UInt32
  gridSize : UInt32
  workload : UInt32
  random : NonceGenEnum
  randState : Nat → UInt64
  finalNonceBuff : UInt64
  hashHeader : Bytes 72
  matrix : Bytes matrixElems
  target : Vector UInt64 4

namespace CudaGPUWorker

/-- The words that `new` fills `rand_state` with for xoshiro: one state a thread, one after the other. -/
def seedBuffer (seed : Vector UInt64 4) (chosenWorkload : Nat) : Nat → UInt64 := fun k =>
  (((Xoshiro256StarStar.new seed).iterJumpState.take chosenWorkload).flatMap Vector.toList).getD k 0

/-- The size of the grid that `new` sets up for the workload. -/
def setWorkload (w : CudaGPUWorker) (chosenWorkload : UInt32) : CudaGPUWorker :=
  { w with workload := chosenWorkload, gridSize := Launch.setWorkload chosenWorkload w.blockSize }

def loadBlockConstants (w : CudaGPUWorker) (hashHeader : Bytes 72) (matrix : Matrix) (target : Uint256) :
    CudaGPUWorker :=
  { w with hashHeader := hashHeader, matrix := matrix.bytes, target := target.words }

def threads (w : CudaGPUWorker) : Nat := w.gridSize.toNat * w.blockSize.toNat

def args (w : CudaGPUWorker) (nonceMask nonceFixed : UInt64) : HeavyHashArgs where
  nonceMask := nonceMask
  nonceFixed := nonceFixed
  noncesLen := w.workload.toNat
  randomType := w.random.randomType
  hashHeader := w.hashHeader
  matrix := w.matrix
  target := w.target

def gridStep (w : CudaGPUWorker) (nonceMask nonceFixed : UInt64) :
    Grid.State DeviceMemory HeavyHashPc → Nat → Option (Grid.State DeviceMemory HeavyHashPc) :=
  (heavyHash w.arch (w.args nonceMask nonceFixed) w.blockSize.toNat).gridStep w.threads w.blockSize.toNat

/-- `rand_state` as `calculate_hash` leaves it to the launch, with the random word that it may draw. -/
def writtenStates (w : CudaGPUWorker) (nextU64 : UInt64) : Nat → UInt64 :=
  match w.random with
  | .lean => Function.update w.randState 0 nextU64
  | .xoshiro => w.randState

/-- Shared memory is not initialised. -/
def start (w : CudaGPUWorker) (nextU64 : UInt64) (uninit : Nat → Bytes matrixElems) :
    Grid.State DeviceMemory HeavyHashPc where
  store := { finalNonce := 0, states := w.writtenStates nextU64, matrixLocal := uninit }
  place _ := .entry

/-- `calculate_hash` and the launch it queues, in the order in which the threads take their steps; `none` where
    that is no order of a whole launch. -/
def calculateHash (w : CudaGPUWorker) (nonceMask nonceFixed nextU64 : UInt64) (uninit : Nat → Bytes matrixElems)
    (order : List Nat) : Option CudaGPUWorker := do
  let s ← StepSystem.run (w.gridStep nonceMask nonceFixed) (w.start nextU64 uninit) order
  if (List.range w.threads).all (fun gid => s.place gid == .done) then
    some { w with finalNonceBuff := s.store.finalNonce, randState := s.store.states }
  else none

/-- `copy_output_to`, on the one nonce that is read. -/
def copyOutputTo (w : CudaGPUWorker) : UInt64 := w.finalNonceBuff

end CudaGPUWorker
end Cuda

/-! ### A job on the worker -/

namespace State
variable {Block : Type}

def loadToCuda (s : State Block) (gpuWork : Cuda.CudaGPUWorker) : Cuda.CudaGPUWorker :=
  gpuWork.loadBlockConstants s.powHashHeader s.matrix s.target

def powCuda (s : State Block) (gpuWork : Cuda.CudaGPUWorker) (nextU64 : UInt64)
    (uninit : Nat → Bytes Launch.matrixElems) (order : List Nat) : Option Cuda.CudaGPUWorker :=
  gpuWork.calculateHash s.nonceMask s.nonceFixed nextU64 uninit order

end State

/-! ### One launch after the other -/

namespace Cuda

/-- A launch for a job, with all that it depends on. -/
structure LaunchFor (Block : Type) where
  job : State Block
  nextU64 : UInt64
  uninit : Nat → Bytes Launch.matrixElems
  order : List Nat

/-- A worker after some launches; `quiet` of the `launches` left 0 in the cell. -/
structure Launches where
  worker : CudaGPUWorker
  launches : Nat
  quiet : Nat

def Launches.step {Block : Type} (l : Launches) (a : LaunchFor Block) : Option Launches :=
  (a.job.powCuda (a.job.loadToCuda l.worker) a.nextU64 a.uninit a.order).map fun w =>
    { worker := w, launches := l.launches + 1, quiet := if w.copyOutputTo = 0 then l.quiet + 1 else l.quiet }

end Cuda
end CryptixMiner
