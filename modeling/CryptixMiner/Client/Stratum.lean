import Mathlib.Data.List.AList
import CryptixMiner.Client.StratumCodec
import CryptixMiner.Lib.Hex
import CryptixMiner.Pow.State

/-! The pool client of `src/client/stratum.rs`: what it keeps for a connection, what outlives connections,
    and how it answers each line of the pool. -/

namespace CryptixMiner.Stratum

/-! ### Share statistics -/

/-- The shares whose reply is outstanding, with their job ids. -/
abbrev PendingShares := AList fun _ : UInt32 => String

/-- `SHARE_STATS`, which lives as long as the process. -/
structure ShareStats where
  accepted : UInt64
  stale : UInt64
  lowDiff : UInt64
  duplicate : UInt64
  sharesPending : PendingShares

namespace ShareStats

def default : ShareStats := ⟨0, 0, 0, 0, ∅⟩

/-- `shares_pending.insert(msg_id, id)`. -/
def insert (stats : ShareStats) (msgId : UInt32) (jobId : String) : ShareStats :=
  { stats with sharesPending := stats.sharesPending.insert msgId jobId }

/-- `shares_pending.remove(&id)`. -/
def remove (stats : ShareStats) (id : UInt32) : ShareStats :=
  { stats with sharesPending := stats.sharesPending.erase id }

end ShareStats

structure Shared where
  stats : ShareStats
  blockTemplateCtr : UInt16

/-- `fetch_update(|v| Some((v + 1) % 10_000))`. -/
def Shared.advance (shared : Shared) : Shared :=
  { shared with blockTemplateCtr := (shared.blockTemplateCtr + 1) % 10000 }

/-! ### The handler of a connection -/

structure StratumHandler where
  minerAddress : String
  devfundAddress : Option String
  devfundPercent : UInt16
  miningDev : Option Bool
  targetPool : Uint256
  nonceMask : UInt64
  nonceFixed : UInt64
  extranonce : Option (List UInt8)
  lastStratumId : UInt32
  submitWorker : String

/-- `{msg:?}` stands in three of the texts. -/
inductive HandlerError where
  | inconsistentMessage (msg : StratumLine)
  | unexpectedMessage (msg : StratumLine)
  | unhandledResponse (msg : StratumLine)
  | pool (text : String)
  | targetTooBig
  | extranonce (e : Hex.ParseIntError)
  | headerHex (e : Hex.FromHexError)
  | headerLength (bytes : Nat)
  /-- "Failed sending block to threads". -/
  | threadsGone
  deriving DecidableEq, Repr

inductive Outcome where
  | ok
  | err (e : HandlerError)
  | panicked
  deriving DecidableEq, Repr

namespace StratumHandler

def devfundEnabled (h : StratumHandler) : Bool := 0 < h.devfundPercent && h.devfundAddress.isSome

def shouldMineDev (h : StratumHandler) (blockTemplateCtr : UInt16) : Bool :=
  h.devfundEnabled && blockTemplateCtr < h.devfundPercent

def connect (minerAddress : String) : StratumHandler where
  minerAddress := minerAddress
  devfundAddress := none
  devfundPercent := 0
  miningDev := none
  targetPool := ⟨Vector.replicate 4 0⟩
  nonceMask := 0xffffffffffffffff
  nonceFixed := 0
  extranonce := none
  lastStratumId := 0
  submitWorker := minerAddress

def addDevfund (h : StratumHandler) (address : String) (percent : UInt16) : StratumHandler :=
  { h with devfundAddress := some address, devfundPercent := percent }

/-- `subscribe` and `authorize` take an id each; the session mines to one address from here on. -/
def register (h : StratumHandler) (blockTemplateCtr : UInt16) : StratumHandler :=
  let dev := h.shouldMineDev blockTemplateCtr
  { h with
    lastStratumId := h.lastStratumId + 1 + 1
    miningDev := some dev
    submitWorker := if dev then h.devfundAddress.getD h.minerAddress else h.minerAddress }

/-! ### Extranonce -/

/-- `strip_prefix("0x")`, or else `strip_prefix("0X")`. -/
def stripHexPrefix : List UInt8 → List UInt8
  | 0x30 :: 0x78 :: rest => rest
  | 0x30 :: 0x58 :: rest => rest
  | text => text

/-- One byte for each two digits, the last one perhaps alone. -/
def inferredSize (digits : List UInt8) : UInt32 := UInt32.ofNat ((digits.length + 1) / 2)

/-- The announced size, or the size of the digits when none is announced. -/
def sizeBytes (digits : List UInt8) (nonceSize : UInt32) : UInt32 :=
  if nonceSize = 0 ∧ digits ≠ [] then inferredSize digits else nonceSize

def saturatingMul8 (size : UInt32) : Nat := min (8 * size.toNat) 0xffffffff

/-- What both functions do with the size: without one every nonce is the miner's, and otherwise the bits
    above the shift are fixed, unless the shift leaves none. -/
def setPartition (h : StratumHandler) (sizeBytes : UInt32) (val : Except Hex.ParseIntError UInt64) :
    Outcome × StratumHandler :=
  let shift := saturatingMul8 sizeBytes
  if sizeBytes = 0 then (.ok, { h with nonceFixed := 0, nonceMask := 0xffffffffffffffff })
  else
    match val with
    | .error e => (.err (.extranonce e), h)
    | .ok val =>
      (.ok,
        { h with
          nonceFixed := if 64 ≤ shift then 0 else val <<< UInt64.ofNat shift
          nonceMask := if 64 ≤ shift then 0xffffffffffffffff else (1 <<< UInt64.ofNat shift) - 1 })

def setExtranonce (h : StratumHandler) (extranonce : String) (nonceSize : UInt32) : Outcome × StratumHandler :=
  let digits := stripHexPrefix (Hex.bytes extranonce)
  { h with extranonce := some digits }.setPartition (sizeBytes digits nonceSize)
    (if digits = [] then .ok 0 else Hex.parseU64 digits)

/-- Here the size is always that of the digits. -/
def setExtranonceEth (h : StratumHandler) (extranonce : String) : Outcome × StratumHandler :=
  let digits := stripHexPrefix (Hex.bytes extranonce)
  { h with extranonce := some digits }.setPartition (inferredSize digits) (Hex.parseU64 digits)

/-! ### Difficulty -/

def DIFFICULTY_1_TARGET : UInt64 × Int := (0xffff, 208)

/-- `checks` says whether the build checks arithmetic: the shift by `64 - remainder` may be one by 64. -/
def setDifficulty (checks : Bool) (h : StratumHandler) (difficulty : Difficulty) : Outcome × StratumHandler :=
  let newMantissa := difficulty.mantissa * DIFFICULTY_1_TARGET.1
  let newExponent := (DIFFICULTY_1_TARGET.2 + difficulty.exponent).toNat
  let start := newExponent / 64
  let remainder := newExponent % 64
  let bottom := newMantissa <<< UInt64.ofNat remainder
  let top := newMantissa >>> UInt64.ofNat (64 - remainder)
  let buf := (Vector.replicate 4 (0 : UInt64)).set! start bottom
  if 4 ≤ start then (.panicked, h)
  else if start < 3 then
    if checks && remainder = 0 then (.panicked, h)
    else (.ok, { h with targetPool := ⟨buf.set! (start + 1) top⟩ })
  else if newMantissa.toBitVec.clz.toNat < remainder then (.err .targetTooBig, h)
  else (.ok, { h with targetPool := ⟨buf⟩ })

/-! ### Jobs -/

/-- Here only a lower-case prefix is stripped. -/
def hex32ToU64x4 (hex : String) : Except HandlerError Hash :=
  let text := match Hex.bytes hex with
    | 0x30 :: 0x78 :: rest => rest
    | text => text
  match Hex.decode text with
  | .error e => .error (.headerHex e)
  | .ok bytes =>
    if bytes.length = 32 then .ok (Uint256.fromLeBytes (Vector.ofFn fun i => bytes[i.val]!))
    else .error (.headerLength bytes.length)

/-- The job a notification stands for. -/
def partialBlock (h : StratumHandler) (id : String) (headerHash : Hash) (timestamp : UInt64) : BlockSeed Empty :=
  .partialBlock id headerHash timestamp 0 h.targetPool h.nonceMask h.nonceFixed none

/-! ### Replies and commands of the pool -/

/-- What handling a line comes to: the result, the handler and the shared part after it, and the job that
    went to the miners. -/
structure Handled where
  outcome : Outcome
  handler : StratumHandler
  shared : Shared
  seed : Option (BlockSeed Empty)

/-- `process_block` fails when no worker listens any more. -/
def processBlock (delivered : Bool) : Outcome := if delivered then .ok else .err .threadsGone

def onAccepted (h : StratumHandler) (shared : Shared) (id : UInt32) : Handled :=
  let stats := shared.stats.remove id
  match shared.stats.sharesPending.lookup id with
  | some _ => ⟨.ok, h, { shared with stats := { stats with accepted := stats.accepted + 1 } }, none⟩
  | none => ⟨.ok, h, { shared with stats := stats }, none⟩

/-- The share of the reply must be pending: `remove(&id)` is unwrapped. -/
def onError (h : StratumHandler) (shared : Shared) (id : UInt32) (e : StratumError) : Handled :=
  let stats := shared.stats.remove id
  match shared.stats.sharesPending.lookup id with
  | none => ⟨.panicked, h, { shared with stats := stats }, none⟩
  | some _ =>
    match e.code with
    | .jobNotFound => ⟨.ok, h, { shared with stats := { stats with stale := stats.stale + 1 } }, none⟩
    | .duplicateShare => ⟨.ok, h, { shared with stats := { stats with duplicate := stats.duplicate + 1 } }, none⟩
    | .lowDifficultyShare => ⟨.ok, h, { shared with stats := { stats with lowDiff := stats.lowDiff + 1 } }, none⟩
    | .unknown | .unauthorized | .notSubscribed => ⟨.err (.pool e.text), h, { shared with stats := stats }, none⟩

def onNotify (h : StratumHandler) (shared : Shared) (delivered : Bool) (msg : StratumLine) : MiningNotify → Handled
  | .short id headerHash timestamp =>
    ⟨processBlock delivered, h, shared.advance, some (h.partialBlock id headerHash timestamp)⟩
  | .headerHex id headerHex timestamp =>
    -- The counter is advanced before the header hash is read.
    match hex32ToU64x4 headerHex with
    | .error e => ⟨.err e, h, shared.advance, none⟩
    | .ok headerHash =>
      ⟨processBlock delivered, h, shared.advance, some (h.partialBlock id headerHash timestamp)⟩
  | .long => ⟨.err (.unexpectedMessage msg), h, shared, none⟩

/-- What a line that sets parameters does: the rest is as it was. -/
def configured (shared : Shared) (r : Outcome × StratumHandler) : Handled := ⟨r.1, r.2, shared, none⟩

def onResult (h : StratumHandler) (shared : Shared) (msg : StratumLine) (id : UInt32) : StratumResult → Handled
  | .plain (some true) | .eth true _ => h.onAccepted shared id
  | .subscribe _ extranonce nonceSize => configured shared (h.setExtranonce extranonce nonceSize)
  | .plain _ | .eth false _ => ⟨.err (.inconsistentMessage msg), h, shared, none⟩

def onCommand (checks delivered : Bool) (h : StratumHandler) (shared : Shared) (msg : StratumLine) :
    StratumCommand → Handled
  | .setExtranonce (.plain extranonce nonceSize) => configured shared (h.setExtranonce extranonce nonceSize)
  | .setExtranonce (.plainEth extranonce) => configured shared (h.setExtranonceEth extranonce)
  | .miningSetDifficulty difficulty => configured shared (h.setDifficulty checks difficulty)
  | .miningNotify n => h.onNotify shared delivered msg n
  | .subscribe | .authorize | .miningSubmit => ⟨.err (.unexpectedMessage msg), h, shared, none⟩

def handleMessage (checks delivered : Bool) (h : StratumHandler) (shared : Shared) (msg : StratumLine) : Handled :=
  match msg.error, msg.payload, msg.id with
  | none, .result result, some id => h.onResult shared msg id result
  | none, .result _, none => ⟨.err (.inconsistentMessage msg), h, shared, none⟩
  | none, .command command, _ => h.onCommand checks delivered shared msg command
  | some e, .result _, some id => h.onError shared id e
  | some _, _, _ => ⟨.err (.unhandledResponse msg), h, shared, none⟩

end StratumHandler
end CryptixMiner.Stratum
