import CryptixMiner.Miner.Worker
import CryptixMiner.Proto

/-! What becomes of a block template of a node: `State::new` of `src/pow.rs` on a whole block, and
    `process_block` of `src/miner.rs`. A panic is `none`, or an outcome of its own. -/

namespace CryptixMiner

namespace State

/-- What `State::new` reads of a header that is there. `digest` is what a `HeaderHasher` makes of the bytes it is
    updated with. -/
def headerInfo (checks : Bool) (digest : List UInt8 → Hash) (header : RpcBlockHeader) : Option HeaderInfo := do
  let target ← u256FromCompactTarget checks header.bits
  let bytes ← Pow.serializeHeader header true
  return { prePowHash := digest bytes, timestamp := header.timestamp.toUInt64, target }

/-- The builder for the blocks whose headers do not panic. -/
def builder (checks : Bool) (digest : List UInt8 → Hash) (generate : Hash → Matrix) : Builder RpcBlock where
  header block := block.header.bind (headerInfo checks digest)
  generate := generate

/-- `State::new`, for any seed. -/
def newOrPanic (checks : Bool) (digest : List UInt8 → Hash) (generate : Hash → Matrix) (id : Nat)
    (blockSeed : BlockSeed RpcBlock) : Option (Except String (State RpcBlock)) :=
  match blockSeed with
  | .fullBlock { header := some header, .. } =>
    (headerInfo checks digest header).map fun _ => new (builder checks digest generate) id blockSeed
  | .fullBlock { header := none, .. } | .partialBlock .. => some (new (builder checks digest generate) id blockSeed)

end State

namespace Miner

/-- The fields of `MinerManager` that `process_block` uses, with the last command that went to the channel. -/
structure MinerManager where
  isSynced : Bool
  currentStateId : UInt64
  sent : Option (Command RpcBlock)

inductive ProcessOutcome where
  | ok
  | err (text : String)
  | panicked
  deriving DecidableEq

namespace MinerManager

/-- `block_channel.send`, which fails when no worker listens. -/
def send (m : MinerManager) (delivered : Bool) (command : Command RpcBlock) : ProcessOutcome × MinerManager :=
  if delivered then (.ok, { m with sent := some command }) else (.err "Failed sending block to threads", m)

def processBlock (checks : Bool) (digest : List UInt8 → Hash) (generate : Hash → Matrix) (delivered : Bool)
    (m : MinerManager) (block : Option (BlockSeed RpcBlock)) : ProcessOutcome × MinerManager :=
  match block with
  | some b =>
    let id := m.currentStateId
    let m := { m with isSynced := true, currentStateId := m.currentStateId + 1 }
    match State.newOrPanic checks digest generate id.toNat b with
    | none => (.panicked, m)
    | some (.error e) => (.err e, m)
    | some (.ok s) => m.send delivered (some (.job s))
  | none => if m.isSynced then { m with isSynced := false }.send delivered none else (.ok, m)

end MinerManager
end Miner
end CryptixMiner
