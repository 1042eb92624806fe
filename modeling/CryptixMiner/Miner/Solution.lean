import CryptixMiner.Lib.HexText
import CryptixMiner.Miner.Template

/-! What a nonce that meets the target is made into: `generate_block_if_pow` and `report_block` of `src/pow.rs`, and
    `block_hash` of `src/cryptixd_messages.rs`. A panic is `none`. -/

namespace CryptixMiner

/-- `{:x}`, from the lowest byte to the highest. -/
def Uint256.lowerHex (x : Uint256) : String := Hex.formatBytes x.toLeBytes.toList

def State.generateBlockIfPow (P : Primitives) (useAvx2 : Bool) (s : State RpcBlock) (nonce : UInt64) :
    Option (Option (BlockSeed RpcBlock)) :=
  if s.checkPow P useAvx2 nonce then
    match s.block with
    | .fullBlock block =>
      match block.header with
      | some header => some (some (.fullBlock { block with header := some { header with nonce := nonce } }))
      -- "We checked that a header exists on creation"
      | none => none
    | .partialBlock id headerHash timestamp _ target nonceMask nonceFixed _ =>
      let hash := (s.calculatePow P useAvx2 nonce).lowerHex
      some (some (.partialBlock id headerHash timestamp nonce target nonceMask nonceFixed (some hash)))
  else some none

/-- The hash of the whole header, nonce and timestamp included; it is missing where the header is. -/
def RpcBlock.blockHash (digest : List UInt8 → Hash) (block : RpcBlock) : Option (Option Hash) :=
  match block.header with
  | some header => (Pow.serializeHeader header false).map fun bytes => some (digest bytes)
  | none => some none

/-- The text that is logged. `date` is what the date of a timestamp is written as, where the calendar reaches. -/
def BlockSeed.reportBlock (digest : List UInt8 → Hash) (date : UInt64 → Option String) :
    BlockSeed RpcBlock → Option String
  | .fullBlock block => do
    let blockHash ← (← block.blockHash digest)
    let header ← block.header
    let blockTime ← date header.timestamp.toUInt64
    return "Found a block: " ++ blockHash.lowerHex ++ " (Timestamp: " ++ blockTime ++ ")"
  | .partialBlock .. => some "Found a share!"

end CryptixMiner
