import CryptixMiner.Launch.OpenClWorker

/-! A whole launch of `cryptix_ox8_hash_batch`, which tries the nonces from `start_nonce` on and lists those that meet
    the target. The work-items past the last nonce return before the barrier. -/

namespace CryptixMiner.OpenCl
open Device Launch

/-! ### The hash of a nonce -/

def powHashFinalize (P : Primitives) (powStateBase : KeccakState) (nonce : UInt64) : Bytes 32 :=
  let st := powStateBase.set! 9 (powStateBase[9]! ^^^ nonce)
  let st := P.keccakF1600 st
  let output := store64Le st[0]! (Vector.replicate 32 0) 0
  let output := store64Le st[1]! output 8
  let output := store64Le st[2]! output 16
  store64Le st[3]! output 24

/-- The rounds are those of `calculate_pow_pre_matrix_from_header`. -/
def calculatePowPreMatrix (P : Primitives) (build : Build) (powStateBase : KeccakState) (nonce : UInt64) : Bytes 32 :=
  let currentHash := powHashFinalize P powStateBase nonce
  let iterations := (currentHash[0]!.toNat &&& 1) + 1
  (kernel build).loop 2 iterations (fun i currentHash => (kernel build).mutate i (P.sha3_256 currentHash)) currentHash

def calculatePowWithSha3AndMatrix (s : Switches) (matrix : Bytes 4096) (powStateBase : KeccakState) (nonce : UInt64) :
    Bytes 32 :=
  cryptixHashMatrix (primitives s) s.toBuild matrix (calculatePowPreMatrix (primitives s) s.toBuild powStateBase nonce)

/-! ### The kernel -/

structure HashBatchArgs where
  matrix : Bytes 4096
  powStateBase : KeccakState
  targetWords : Vector UInt64 4
  startNonce : UInt64
  nonceCount : UInt32
  maxResults : UInt32

inductive HashBatchPc where
  | entry
  | copy (vecIdx : Nat)
  | barrier
  | hash
  | inc
  | store (slot : UInt32)
  | done
  deriving DecidableEq

/-- What the work-items write; `winners` records in their order the items that have taken a slot, and steers nothing. -/
structure BatchMemory where
  outCount : UInt32
  outNonces : Nat → UInt64
  matrixLocal : Nat → Bytes 4096
  winners : List Nat

def HashBatchArgs.nonce (a : HashBatchArgs) (gid : Nat) : UInt64 := a.startNonce + (UInt32.ofNat gid).toUInt64

/-- The global id is taken as a 32-bit number; the item is item `gid % lsize` of group `gid / lsize`. -/
def hashBatch (s : Switches) (a : HashBatchArgs) (lsize : Nat) : Grid.Program BatchMemory HashBatchPc where
  step m gid
    | .entry => some (m, if UInt32.ofNat gid ≥ a.nonceCount then .done else .copy (gid % lsize))
    | .copy vecIdx =>
      if vecIdx < 4096 / 16 then
        let block := (workGroup 1 a.matrix).copyChunk vecIdx (m.matrixLocal (gid / lsize))
        some ({ m with matrixLocal := Function.update m.matrixLocal (gid / lsize) block }, .copy (vecIdx + lsize))
      else some (m, .barrier)
    | .hash =>
      let result := calculatePowWithSha3AndMatrix s (m.matrixLocal (gid / lsize)) a.powStateBase (a.nonce gid)
      some (m, if Kernel.hashMeetsTargetWords result a.targetWords then .inc else .done)
    | .inc =>
      some ({ m with outCount := m.outCount + 1, winners := m.winners ++ [gid] },
        if m.outCount ≥ a.maxResults then .done else .store m.outCount)
    | .store slot => some ({ m with outNonces := Function.update m.outNonces slot.toNat (a.nonce gid) }, .done)
    | .barrier | .done => none
  waits pc := pc == .barrier
  pass _ := .hash
  arrived
    | .entry | .copy _ => false
    | _ => true

/-- The host has set the counter to 0. -/
def BatchMemory.start (outNonces : Nat → UInt64) (uninit : Nat → Bytes 4096) : Grid.State BatchMemory HashBatchPc where
  store := { outCount := 0, outNonces := outNonces, matrixLocal := uninit, winners := [] }
  place _ := .entry

end CryptixMiner.OpenCl
