import CryptixMiner.Pow.HeavyHash
import CryptixMiner.Pow.PreMatrix

/-! The mining state of `src/pow.rs`: what a job is turned into for the workers, and the proof of work of a
    nonce. Reading the header of a node's block and drawing the matrix are parameters here. -/

namespace CryptixMiner

/-- A job: a whole block of a node, or the header hash and nonce partition of a pool. -/
inductive BlockSeed (Block : Type) where
  | fullBlock (block : Block)
  | partialBlock (id : String) (headerHash : Hash) (timestamp nonce : UInt64) (target : Uint256)
      (nonceMask nonceFixed : UInt64) (hash : Option String)

/-- What `State::new` reads of a header: its digest without nonce and timestamp (`serialize_header` into
    the header hasher), its timestamp, and the target that its bits stand for. -/
structure HeaderInfo where
  prePowHash : Hash
  timestamp : UInt64
  target : Uint256

/-- The two functions that a state is built with. -/
structure Builder (Block : Type) where
  /-- The header of a block, if it has one. -/
  header : Block → Option HeaderInfo
  /-- `Matrix::generate`. -/
  generate : Hash → Matrix

structure State (Block : Type) where
  id : Nat
  matrix : Matrix
  target : Uint256
  powHashHeader : Bytes 72
  block : BlockSeed Block
  hasher : PowHasher
  nonceMask : UInt64
  nonceFixed : UInt64

namespace State
variable {Block : Type}

/-- The header bytes a kernel hashes: the hash, the timestamp, 32 zero bytes. -/
def powHashHeaderOf (prePowHash : Hash) (headerTimestamp : UInt64) : Bytes 72 :=
  prePowHash.toLeBytes ++ Vector.ofFn (n := 8) (fun k => Words.leByte headerTimestamp.toBitVec k) ++
    Vector.replicate 32 (0 : UInt8)

/-- The part of `State::new` after the match on the seed. -/
def ofParts (B : Builder Block) (id : Nat) (blockSeed : BlockSeed Block) (prePowHash : Hash)
    (headerTimestamp : UInt64) (headerTarget : Uint256) (nonceMask nonceFixed : UInt64) : State Block where
  id := id
  matrix := B.generate prePowHash
  target := headerTarget
  powHashHeader := powHashHeaderOf prePowHash headerTimestamp
  block := blockSeed
  hasher := PowHasher.new prePowHash headerTimestamp
  nonceMask := nonceMask
  nonceFixed := nonceFixed

def new (B : Builder Block) (id : Nat) (blockSeed : BlockSeed Block) : Except String (State Block) :=
  match blockSeed with
  | .fullBlock block =>
    match B.header block with
    | none => .error "Header is missing"
    | some header => .ok (ofParts B id blockSeed header.prePowHash header.timestamp header.target 0xffffffffffffffff 0)
  | .partialBlock _ headerHash timestamp _ target nonceMask nonceFixed _ =>
    .ok (ofParts B id blockSeed headerHash timestamp target nonceMask nonceFixed)

/-- The bytes that `calculate_pow` gives to the matrix hash. -/
def preMatrix (P : Primitives) (s : State Block) (nonce : UInt64) : Bytes 32 :=
  PreMatrix.rounds P (s.hasher.finalizeWithNonce P nonce).toLeBytes

def calculatePow (P : Primitives) (useAvx2 : Bool) (s : State Block) (nonce : UInt64) : Uint256 :=
  s.matrix.heavyHash P useAvx2 (Uint256.fromLeBytes (s.preMatrix P nonce))

def checkPow (P : Primitives) (useAvx2 : Bool) (s : State Block) (nonce : UInt64) : Bool :=
  (s.calculatePow P useAvx2 nonce).le s.target

end State
end CryptixMiner
