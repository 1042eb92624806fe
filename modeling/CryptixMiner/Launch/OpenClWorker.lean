import CryptixMiner.Kernel.OpenClPrimitives
import CryptixMiner.Kernel.PreMatrix
import CryptixMiner.Launch.CudaWorker
import CryptixMiner.Launch.OpenClUpload

/-! The OpenCL worker of the plugin, and a whole launch of its `heavy_hash`. Nothing returns before the barrier here,
    but the reset of the result cell, the test of it, the store of the nonce and those of the four words of the hash
    are steps of their own. -/

namespace CryptixMiner.OpenCl
open Device Launch

/-! ### The kernel -/

/-- The next step of a work-item of `heavy_hash`, with what it still needs of its local variables. -/
inductive HeavyHashPc where
  | entry
  | copy (vecIdx : Nat)
  | barrier
  | draw
  | hash (nonce : UInt64)
  | test (nonce : UInt64)
  | store (nonce : UInt64)
  | storeHash (nonce : UInt64) (k : Nat)
  | done
  deriving DecidableEq

structure HeavyHashArgs where
  nonceMask : UInt64
  nonceFixed : UInt64
  hashHeader : Bytes 72
  matrix : Bytes 4096
  target : Vector UInt64 4
  randomType : UInt8

/-- What the work-items write; `reset` records that work-item 0 has reset the cell, and steers nothing. -/
structure DeviceMemory where
  finalNonce : UInt64
  finalHash : Vector UInt64 4
  states : Nat → UInt64
  matrixLocal : Nat → Bytes 4096
  reset : Bool

/-- `vstore16(vload16(vec_idx, matrix), vec_idx, matrix_local)` in the copy of a group. -/
def DeviceMemory.copyChunk (m : DeviceMemory) (group vecIdx : Nat) (matrix : Bytes 4096) : DeviceMemory :=
  let block := (workGroup 1 matrix).copyChunk vecIdx (m.matrixLocal group)
  { m with matrixLocal := Function.update m.matrixLocal group block }

def result (s : Switches) (a : HeavyHashArgs) (matrixLocal : Bytes 4096) (nonce : UInt64) : Bytes 32 :=
  calculatePowWithHeaderAndMatrix s matrixLocal a.hashHeader nonce

/-- The global id is taken as a 32-bit number; the item is item `gid % lsize` of group `gid / lsize`. -/
def heavyHash (s : Switches) (a : HeavyHashArgs) (lsize : Nat) : Grid.Program DeviceMemory HeavyHashPc where
  step m gid
    | .entry =>
      some (if UInt32.ofNat gid = 0 then { m with finalNonce := 0, reset := true } else m, .copy (gid % lsize))
    | .copy vecIdx =>
      if vecIdx < 4096 / 16 then some (m.copyChunk (gid / lsize) vecIdx a.matrix, .copy (vecIdx + lsize))
      else some (m, .barrier)
    | .draw =>
      let drawn := Launch.OpenCl.drawNonce a.nonceMask a.nonceFixed a.randomType m.states (UInt32.ofNat gid)
      some ({ m with states := drawn.2 }, .hash drawn.1)
    | .hash nonce =>
      some (m, if Kernel.hashMeetsTargetWords (result s a (m.matrixLocal (gid / lsize)) nonce) a.target then .test nonce
        else .done)
    | .test nonce => some (m, if m.finalNonce = 0 then .store nonce else .done)
    | .store nonce => some ({ m with finalNonce := nonce }, .storeHash nonce 0)
    | .storeHash nonce k =>
      if k < 4 then
        let word := load64Le (result s a (m.matrixLocal (gid / lsize)) nonce) (8 * k)
        some ({ m with finalHash := m.finalHash.set! k word }, .storeHash nonce (k + 1))
      else some (m, .done)
    | .barrier | .done => none
  waits pc := pc == .barrier
  pass _ := .draw
  arrived
    | .entry | .copy _ => false
    | _ => true

/-! ### The worker -/

/-- The worker with the buffers that a launch uses beside those of `load_block_constants`. `lsize` is the size of the
    work-groups, which the driver chooses. -/
structure LaunchingWorker extends OpenCLGPUWorker where
  switches : Switches
  workload : Nat
  lsize : Nat
  random : NonceGenEnum
  randomState : Nat → UInt64
  finalHash : Vector UInt64 4

namespace LaunchingWorker

def loadBlockConstants (w : LaunchingWorker) (hashHeader : Bytes 72) (m : Matrix) (target : Uint256) :
    LaunchingWorker :=
  { w with toOpenCLGPUWorker := w.toOpenCLGPUWorker.loadBlockConstants hashHeader m target }

def args (w : LaunchingWorker) (nonceMask nonceFixed : UInt64) : HeavyHashArgs where
  nonceMask := nonceMask
  nonceFixed := nonceFixed
  hashHeader := w.hashHeader
  matrix := w.matrix
  target := w.target.words
  randomType := w.random.randomType

/-- `random_state` as `calculate_hash` leaves it to the launch, with the random word that it may draw. -/
def writtenStates (w : LaunchingWorker) (nextU64 : UInt64) : Nat → UInt64 :=
  match w.random with
  | .lean => Function.update w.randomState 0 nextU64
  | .xoshiro => w.randomState

def gridStep (w : LaunchingWorker) (nonceMask nonceFixed : UInt64) :
    Grid.State DeviceMemory HeavyHashPc → Nat → Option (Grid.State DeviceMemory HeavyHashPc) :=
  (heavyHash w.switches (w.args nonceMask nonceFixed) w.lsize).gridStep w.workload w.lsize

/-- The cell holds what the launch before it left there, or the 0 of `load_block_constants`. -/
def start (w : LaunchingWorker) (nextU64 : UInt64) (uninit : Nat → Bytes 4096) :
    Grid.State DeviceMemory HeavyHashPc where
  store :=
    { finalNonce := w.finalNonce, finalHash := w.finalHash, states := w.writtenStates nextU64, matrixLocal := uninit,
      reset := false }
  place _ := .entry

/-- `calculate_hash`, which waits for the launch, in the order in which the work-items take their steps. -/
def calculateHash (w : LaunchingWorker) (nonceMask nonceFixed nextU64 : UInt64) (uninit : Nat → Bytes 4096)
    (order : List Nat) : Option LaunchingWorker := do
  let s ← StepSystem.run (w.gridStep nonceMask nonceFixed) (w.start nextU64 uninit) order
  if (List.range w.workload).all (fun gid => s.place gid == .done) then
    some { w with finalNonce := s.store.finalNonce, finalHash := s.store.finalHash, randomState := s.store.states }
  else none

def copyOutputTo (w : LaunchingWorker) : UInt64 := w.finalNonce

end LaunchingWorker
end CryptixMiner.OpenCl

/-! ### A job on the worker -/

namespace CryptixMiner.State
variable {Block : Type}

def loadToOpenCl (s : State Block) (gpuWork : OpenCl.LaunchingWorker) : OpenCl.LaunchingWorker :=
  gpuWork.loadBlockConstants s.powHashHeader s.matrix s.target

def powOpenCl (s : State Block) (gpuWork : OpenCl.LaunchingWorker) (nextU64 : UInt64) (uninit : Nat → Bytes 4096)
    (order : List Nat) : Option OpenCl.LaunchingWorker :=
  gpuWork.calculateHash s.nonceMask s.nonceFixed nextU64 uninit order

end CryptixMiner.State
