import CryptixMiner.Target

/-! The lines of `src/client/stratum/statum_codec.rs`, after their JSON is read. -/

namespace CryptixMiner.Stratum

inductive ErrorCode where
  | unknown
  | jobNotFound
  | duplicateShare
  | lowDifficultyShare
  | unauthorized
  | notSubscribed
  deriving DecidableEq, Repr

/-- The last field of the source, which nothing reads, is left out. -/
structure StratumError where
  code : ErrorCode
  text : String
  deriving DecidableEq, Repr

inductive MiningNotify where
  | short (id : String) (headerHash : Hash) (timestamp : UInt64)
  | headerHex (id headerHex : String) (timestamp : UInt64)
  | long
  deriving DecidableEq, Repr

inductive SetExtranonce where
  | plain (extranonce : String) (nonceSize : UInt32)
  | plainEth (extranonce : String)
  deriving DecidableEq, Repr

/-- A difficulty, given by what `integer_decode` finds in its reciprocal. -/
structure Difficulty where
  mantissa : UInt64
  exponent : Int
  mantissa_lt : mantissa.toNat < 0x1000000
  exponent_ge : -150 ≤ exponent
  exponent_le : exponent ≤ 105
  deriving DecidableEq, Repr

/-- `integer_decode` of the `f32` with these bits. -/
def integerDecode (bits : UInt32) : Difficulty :=
  let biased : Nat := bits.toNat / 2 ^ 23 % 2 ^ 8
  let fraction : Nat := bits.toNat % 2 ^ 23
  have hbiased : biased < 2 ^ 8 := Nat.mod_lt _ (by decide)
  have hfraction : fraction < 2 ^ 23 := Nat.mod_lt _ (by decide)
  { mantissa := UInt64.ofNat (if biased = 0 then 2 * fraction else 2 ^ 23 + fraction)
    exponent := (biased : Int) - (127 + 23)
    mantissa_lt := by
      rw [UInt64.toNat_ofNat']
      split <;> omega
    exponent_ge := by omega
    exponent_le := by omega }

/-- What a client sends has no reader here: `subscribe`, `authorize` and `miningSubmit` are commands that
    no pool should send. -/
inductive StratumCommand where
  | setExtranonce (e : SetExtranonce)
  | miningSetDifficulty (difficulty : Difficulty)
  | miningNotify (n : MiningNotify)
  | subscribe
  | authorize
  | miningSubmit
  deriving DecidableEq, Repr

inductive StratumResult where
  | plain (value : Option Bool)
  | eth (value : Bool) (text : String)
  | subscribe (subscriptions : List (String × String)) (extranonce : String) (nonceSize : UInt32)
  deriving DecidableEq, Repr

inductive StratumLinePayload where
  | command (c : StratumCommand)
  | result (r : StratumResult)
  deriving DecidableEq, Repr

structure StratumLine where
  id : Option UInt32
  payload : StratumLinePayload
  error : Option StratumError
  deriving DecidableEq, Repr

end CryptixMiner.Stratum
