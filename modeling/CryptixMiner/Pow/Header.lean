import CryptixMiner.Lib.Hex
import CryptixMiner.Lib.Words

/-! The header of a block as a node sends it, and the bytes that `serialize_header` of `src/pow.rs` feeds to
    the header hash. -/

namespace CryptixMiner

/-- A vector of Rust: its length fits in an `isize`. -/
structure RustVec (α : Type) where
  toList : List α
  length_lt : toList.length < 0x8000000000000000

/-- `RpcBlockHeader`. A level of parents is the list of their hashes. -/
structure RpcBlockHeader where
  version : UInt32
  parents : RustVec (RustVec String)
  hashMerkleRoot : String
  acceptedIdMerkleRoot : String
  utxoCommitment : String
  timestamp : Int64
  bits : UInt32
  nonce : UInt64
  daaScore : UInt64
  blueWork : String
  pruningPoint : String
  blueScore : UInt64

namespace Pow
open Words

/-- `(len as u64).to_le_bytes()`. -/
def lenBytes (len : Nat) : List UInt8 := leBytes 8 (UInt64.ofNat len).toBitVec

/-- `decode_to_slice` into a slice of `outLen` bytes. -/
def decodeToSlice (data : List UInt8) (outLen : Nat) : Except Hex.FromHexError (List UInt8) :=
  if data.length % 2 ≠ 0 then .error .oddLength
  else if data.length / 2 ≠ outLen then .error .invalidStringLength
  else Hex.decodePairs 0 data

/-- `decode_to_slice(&s, &mut hash).unwrap()`, with a panic as `none`. -/
def hash32 (s : String) : Option (List UInt8) := (decodeToSlice (Hex.bytes s) 32).toOption

/-- One level: the number of its hashes, then each of them. -/
def levelBytes (level : RustVec String) : Option (List UInt8) := do
  let hashes ← level.toList.mapM hash32
  return lenBytes level.toList.length ++ hashes.flatten

/-- The blue work behind its length. A zero evens out its digits, and `hash` holds no more than 32 bytes. -/
def blueWorkBytes (blueWork : String) : Option (List UInt8) := do
  let digits := Hex.bytes blueWork
  let blueWorkLen := (digits.length + 1) / 2
  if 32 < blueWorkLen then none
  else
    let bytes ← (decodeToSlice (if digits.length % 2 = 0 then digits else 0x30 :: digits) blueWorkLen).toOption
    return lenBytes blueWorkLen ++ bytes

/-- What the hasher is updated with, in order; a failed `unwrap` is `none`. -/
def serializeHeader (header : RpcBlockHeader) (forPrePow : Bool) : Option (List UInt8) := do
  let nonce := if forPrePow then 0 else header.nonce
  let timestamp := if forPrePow then 0 else header.timestamp
  let version ← if header.version.toNat < 0x10000 then some header.version.toUInt16 else none
  let parents ← header.parents.toList.mapM levelBytes
  let hashMerkleRoot ← hash32 header.hashMerkleRoot
  let acceptedIdMerkleRoot ← hash32 header.acceptedIdMerkleRoot
  let utxoCommitment ← hash32 header.utxoCommitment
  let blueWork ← blueWorkBytes header.blueWork
  let pruningPoint ← hash32 header.pruningPoint
  return leBytes 2 version.toBitVec ++ (lenBytes header.parents.toList.length ++ (parents.flatten ++
    (hashMerkleRoot ++ (acceptedIdMerkleRoot ++ (utxoCommitment ++
      (leBytes 8 timestamp.toBitVec ++ (leBytes 4 header.bits.toBitVec ++ (leBytes 8 nonce.toBitVec ++
        (leBytes 8 header.daaScore.toBitVec ++ (leBytes 8 header.blueScore.toBitVec ++
          (blueWork ++ pruningPoint)))))))))))

end Pow
end CryptixMiner
