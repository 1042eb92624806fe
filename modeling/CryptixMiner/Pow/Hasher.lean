import CryptixMiner.Target

/-! The sponge hashers of `src/pow/hasher.rs`, over the hash functions they and the kernels call. -/

namespace CryptixMiner

/-- The 25 lanes of a Keccak state. -/
abbrev KeccakState := Vector UInt64 25

/-- The hash functions shared by the processor and the kernels: the permutation Keccak-f[1600], SHA3-256
    of 32 bytes and BLAKE3 of 32 bytes. The miner takes them from its crates (`keccak`, `sha3`, `blake3`),
    the kernels bring their own. -/
structure Primitives where
  keccakF1600 : KeccakState → KeccakState
  sha3_256 : Bytes 32 → Bytes 32
  blake3 : Bytes 32 → Bytes 32

def Hash.ofState (state : KeccakState) : Hash := ⟨#v[state[0]!, state[1]!, state[2]!, state[3]!]⟩

/-- Xors the words of a hash into the first four lanes. -/
def xorHash (state : KeccakState) (hash : Hash) : KeccakState :=
  Loop.forRange 0 4 (fun i state => state.set! i (state[i]! ^^^ hash.words[i]!)) state

theorem getElem_xorHash (state : KeccakState) (hash : Hash) {j : Nat} (hj : j < 25) :
    (xorHash state hash)[j] = if h : j < 4 then state[j] ^^^ hash.words[j] else state[j] := by
  rw [xorHash, Loop.getElem_forRange_set! (fun i x => x ^^^ hash.words[i]!) state 4 hj]
  by_cases h : j < 4
  · rw [if_pos h, dif_pos h, Loop.getElem!_eq _ h]
  · rw [if_neg h, dif_neg h]

/-- A sponge that has absorbed everything but the nonce. -/
structure PowHasher where
  state : KeccakState

namespace PowHasher

def INITIAL_STATE : KeccakState := Array.toVector #[
  1242148031264380989, 3008272977830772284, 2188519011337848018, 1992179434288343456, 8876506674959887717,
  5399642050693751366, 1745875063082670864, 8605242046444978844, 17936695144567157056, 3343109343542796272,
  1123092876221303306, 4963925045340115282, 17037383077651887893, 16629644495023626889, 12833675776649114147,
  3784524041015224902, 1082795874807940378, 13952716920571277634, 13411128033953605860, 15060696040649351053,
  9928834659948351306, 5237849264682708699, 12825353012139217522, 6706187291358897596, 196324915476054915]

def new (prePowHash : Hash) (timestamp : UInt64) : PowHasher :=
  let start := xorHash INITIAL_STATE prePowHash
  ⟨start.set! 4 (start[4]! ^^^ timestamp)⟩

def finalizeWithNonce (P : Primitives) (h : PowHasher) (nonce : UInt64) : Hash :=
  Hash.ofState (P.keccakF1600 (h.state.set! 9 (h.state[9]! ^^^ nonce)))

end PowHasher

namespace HeavyHasher

def INITIAL_STATE : KeccakState := Array.toVector #[
  4239941492252378377, 8746723911537738262, 8796936657246353646, 1272090201925444760, 16654558671554924250,
  8270816933120786537, 13907396207649043898, 6782861118970774626, 9239690602118867528, 11582319943599406348,
  17596056728278508070, 15212962468105129023, 7812475424661425213, 3370482334374859748, 5690099369266491460,
  8596393687355028144, 570094237299545110, 9119540418498120711, 16901969272480492857, 13372017233735502424,
  14372891883993151831, 5171152063242093102, 10573107899694386186, 6096431547456407061, 1592359455985097269]

def hash (P : Primitives) (inHash : Hash) : Hash := Hash.ofState (P.keccakF1600 (xorHash INITIAL_STATE inHash))

end HeavyHasher
end CryptixMiner
